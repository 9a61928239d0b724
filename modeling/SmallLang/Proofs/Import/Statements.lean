import SmallLang.Proofs.Import.Check
import SmallLang.Proofs.Import.Program

/-!
# The check of statements under a namespace

Each statement of a merged module is checked in the scopes in which it is checked in the module
alone, with new names in the root, and leaves such scopes behind.
-/

set_option autoImplicit false

namespace SmallLang

open Check

variable {qualifier : Qualifier} {places : List Appearance} {hidden : List String}
  {context : Context}

namespace Scopes

variable {scopes : Scopes} {name : String} {symbol : Symbol} {position : Position} {error : Error}

theorem inside?_of_innermost (inner : scopes.isRoot = false)
    (found : (scopes.innermost.lookup name).isSome) : (scopes.inside? name).isSome := by
  obtain ⟨root, inside⟩ := scopes
  cases inside with
  | nil => cases inner
  | cons scope outer =>
      obtain ⟨symbol, known⟩ := Option.isSome_iff_exists.mp found
      change scope.lookup name = some symbol at known
      rw [inside?, List.findSome?_cons, known]
      rfl

/-- A declaration that fails leaves its name hidden: it was hidden before, or is a type. -/
theorem Hosts.of_not_defined (hosts : scopes.Hosts hidden)
    (failed : scopes.define name symbol position = .error error) :
    scopes.Hosts (scopes.within [name] hidden) := by
  cases root : scopes.isRoot with
  | true => rwa [within_of_isRoot root]
  | false =>
      rw [within_of_not_isRoot root]
      refine ⟨hosts.sane, hosts.root, hosts.inner, fun other notType => ?_⟩
      rw [List.singleton_append, List.mem_cons, hosts.hides other notType]
      refine or_iff_right_of_imp ?_
      rintro rfl
      rcases define_eq_error_iff.mp failed with ⟨isType, _⟩ | ⟨_, found, _⟩
      · rw [notType] at isType
        cases isType
      · exact inside?_of_innermost root found

end Scopes

namespace Check

/-! ### Declarations -/

/-- From some scopes to a later context, names were declared in the innermost scope. -/
structure Context.Extends (after : Context) (scopes : Scopes) (names hidden : List String) :
    Prop where
  hosts : after.scopes.Hosts (scopes.within names hidden)
  isRoot : after.scopes.isRoot = scopes.isRoot

theorem Context.Extends.of_scopes_eq {after : Context} {scopes : Scopes}
    (same : after.scopes = scopes) (hosts : scopes.Hosts hidden) :
    after.Extends scopes [] hidden :=
  ⟨by rwa [Scopes.within_nil, same], congrArg Scopes.isRoot same⟩

theorem Context.Extends.refl (hosts : context.scopes.Hosts hidden) :
    context.Extends context.scopes [] hidden :=
  .of_scopes_eq rfl hosts

/-- Further in, the names that were declared are hidden. -/
theorem Context.Extends.within_of_declared {after : Context} {scopes : Scopes}
    {names : List String} (inner : scopes.isRoot = false)
    (later : after.Extends scopes names hidden) :
    after.scopes.Hosts (names ++ hidden) ∧ after.scopes.isRoot = false :=
  ⟨Scopes.within_of_not_isRoot inner names hidden ▸ later.hosts, later.isRoot.trans inner⟩

/-- A declaration is made, or complained of, under its new name. -/
theorem follows_define (proper : qualifier.Proper) (hosts : context.scopes.Hosts hidden)
    {name : String} {symbol : Symbol} {position : Position} {inside : List String}
    (undotted : Undotted name) (new : ∀ type, symbol ≠ .builtin type)
    (present : ⟨name, position, inside⟩ ∈ places)
    (named : qualifier.use inside name = context.scopes.named qualifier name) :
    Follows (Error.Renamed qualifier places) (Context.qualify qualifier)
      (fun after => after.Extends context.scopes [name] hidden)
      (context.define name symbol position)
      ((context.qualify qualifier).define (context.scopes.named qualifier name) symbol
        position) := by
  unfold Context.define
  cases defined : context.scopes.define name symbol position with
  | ok scopes =>
      obtain ⟨notType, free, rfl⟩ := Scopes.define_eq_ok_iff.mp defined
      have defined' : (context.qualify qualifier).scopes.define
          (context.scopes.named qualifier name) symbol position =
          .ok ((context.scopes.insert name symbol).qualify qualifier) :=
        Scopes.define_eq_ok_iff.mpr ⟨Scopes.isTypeName_named notType,
          (hosts.innermost_qualify undotted).trans free, Scopes.qualify_insert ..⟩
      rw [defined']
      exact follows_pure ⟨hosts.insert undotted notType new, Scopes.isRoot_insert ..⟩
  | error error =>
      obtain ⟨cause, about, blamed, failed⟩ : ∃ cause : Cause, cause.about? = some name ∧
          error = ⟨cause, position⟩ ∧
          (context.qualify qualifier).scopes.define (context.scopes.named qualifier name) symbol
            position = .error ⟨cause.renamed (qualifier.use inside), position⟩ := by
        rcases Scopes.define_eq_error_iff.mp defined with ⟨isType, same⟩ | ⟨notType, found, same⟩
        · refine ⟨_, rfl, same, Scopes.define_eq_error_iff.mpr (.inl ?_)⟩
          rw [← named, proper.use_type isType]
          exact ⟨isType, congrArg (Error.mk · position)
            (congrArg Cause.builtinRedefined (proper.use_type isType inside))⟩
        · refine ⟨_, rfl, same, Scopes.define_eq_error_iff.mpr (.inr ?_)⟩
          refine ⟨Scopes.isTypeName_named notType, ?_, ?_⟩
          · change ((context.scopes.qualify qualifier).innermost.lookup _).isSome
            rwa [hosts.innermost_qualify undotted]
          · exact congrArg (Error.mk · position) (congrArg Cause.alreadyDeclared named)
      rw [failed, blamed]
      intro found result
      cases result
      exact ⟨⟨hosts.of_not_defined defined, rfl⟩, _, rfl,
        .cons (.named about present) .nil⟩

theorem follows_parameters (proper : qualifier.Proper) : ∀ (parameters : List Parameter)
    {context : Context} {hidden inside : List String}, context.scopes.Hosts hidden →
      context.scopes.isRoot = false →
      (∀ param ∈ parameters, Undotted param.name ∧ param.name ∈ inside ∧
        ⟨param.name, param.typeName.position, inside⟩ ∈ places) →
      Follows (Error.Renamed qualifier places) (Context.qualify qualifier)
        (fun after => after.scopes.Hosts (parameters.map (·.name) ++ hidden) ∧
          after.scopes.isRoot = false)
        (Check.parameters context parameters)
        (Check.parameters (context.qualify qualifier) parameters)
  | [], _, _, _, hosts, inner, _ => follows_pure ⟨hosts, inner⟩
  | first :: rest, context, hidden, inside, hosts, inner, params => by
      obtain ⟨⟨undotted, among, present⟩, params⟩ := List.forall_mem_cons.mp params
      have declares : Follows (Error.Renamed qualifier places) (Context.qualify qualifier)
          (fun after => after.Extends context.scopes [first.name] hidden)
          (Check.parameter context first)
          (Check.parameter (context.qualify qualifier) first) := by
        refine (follows_ofExcept fun type known => hosts.typeOf_qualify proper known).andThen ?_
        intro type _
        have unchanged : context.scopes.named qualifier first.name = first.name :=
          Scopes.named_of_not_isRoot inner first.name
        have new : ∀ other, Symbol.variable (.concrete type) true ≠ .builtin other :=
          fun _ same => by cases same
        have follows := follows_define proper hosts undotted new present
          ((Qualifier.use_of_hidden among).trans unchanged.symm)
        rwa [unchanged] at follows
      rw [Check.parameters, Check.parameters]
      refine declares.bind ?_
      intro between later
      have hosts := later.hosts
      rw [Scopes.within_of_not_isRoot inner] at hosts
      refine (follows_parameters proper rest hosts (later.isRoot.trans inner) params).imp
        fun after given => ⟨given.1.congr fun name => ?_, given.2⟩
      simp only [List.map_cons, List.mem_append, List.mem_cons, List.not_mem_nil, or_false]
      tauto

/-! ### Values -/

section Values

variable (proper : qualifier.Proper) (undotted : ∀ appearance ∈ places, Undotted appearance.name)
  (hosts : context.scopes.Hosts hidden)

include proper undotted hosts

theorem follows_condition {e : Expr}
    (present : ∀ appearance ∈ Appearance.ofMentions hidden e.mentions, appearance ∈ places) :
    Follows (Error.Renamed qualifier places) id (fun _ => True) (Check.condition context e)
      (Check.condition (context.qualify qualifier) (e.qualify qualifier hidden)) := by
  unfold Check.condition
  rw [Context.positionOf_qualify]
  refine (e.follows_check proper undotted hosts present).andThen ?_
  intro _ _
  exact follows_requireSame (fun _ _ => rfl) _ _ _

theorem follows_pattern (subject : Option Ty) {e : Expr}
    (present : ∀ appearance ∈ Appearance.ofMentions hidden e.mentions, appearance ∈ places) :
    Follows (Error.Renamed qualifier places) id (fun _ => True) (Check.pattern context subject e)
      (Check.pattern (context.qualify qualifier) subject (e.qualify qualifier hidden)) := by
  unfold Check.pattern
  rw [Context.positionOf_qualify]
  refine (e.follows_check proper undotted hosts present).andThen ?_
  intro _ _
  exact follows_requireSame (fun _ _ => rfl) _ _ _

theorem follows_check? : ∀ value : Option Expr,
    (∀ appearance ∈ Appearance.ofMentions hidden (Expr.mentions? value), appearance ∈ places) →
    Follows (Error.Renamed qualifier places) id (fun _ => True) (Expr.check? context value)
      (Expr.check? (context.qualify qualifier) (value.map (·.qualify qualifier hidden)))
  | none, _ => follows_pure trivial
  | some e, present => e.follows_check proper undotted hosts present

theorem follows_returns : ∀ value : Option Expr,
    (∀ appearance ∈ Appearance.ofMentions hidden (Expr.mentions? value), appearance ∈ places) →
    Follows (Error.Renamed qualifier places) id (fun _ => True) (Check.returns context value)
      (Check.returns (context.qualify qualifier) (value.map (·.qualify qualifier hidden)))
  | none, _ => follows_requireSame (fun _ _ => rfl) _ _ _
  | some e, present => by
      change Follows _ _ _ (Check.returns context (some e))
        (Check.returns _ (some (e.qualify qualifier hidden)))
      rw [Check.returns, Check.returns, Context.positionOf_qualify]
      refine (e.follows_check proper undotted hosts present).andThen ?_
      intro _ _
      exact follows_requireSame (fun _ _ => rfl) _ _ _

end Values

/-! ### Variables and functions -/

section Known

variable (proper : qualifier.Proper) (hosts : context.scopes.Hosts hidden)

include proper hosts

theorem declaredType_qualify {decl : Variable} {type : Ty} (name : String) (value : Option Expr)
    (known : decl.declaredType context.scopes = .ok type) :
    Variable.declaredType { decl with name := name, value := value }
      (context.qualify qualifier).scopes = .ok type := by
  have noted : Variable.resolvedType? { decl with name := name, value := value } =
      decl.resolvedType? := rfl
  rw [Variable.declaredType] at known ⊢
  rw [noted]
  cases written : decl.typeName with
  | some typeName =>
      rw [written] at known
      exact hosts.typeOf_qualify proper known
  | none =>
      rw [written] at known
      cases result : decl.resolvedType? with
      | some type =>
          rw [result] at known
          exact known
      | none =>
          rw [result] at known
          cases known

theorem returnType_qualify {header : FunctionHeader} {type : Ty} (name : String)
    (known : header.returnType context.scopes = .ok type) :
    FunctionHeader.returnType { header with name := name }
      (context.qualify qualifier).scopes = .ok type := by
  have noted : FunctionHeader.resolvedType? { header with name := name } = header.resolvedType? :=
    rfl
  have outside : FunctionHeader.isExternal { header with name := name } = header.isExternal := rfl
  rw [FunctionHeader.returnType] at known ⊢
  rw [noted, outside]
  cases written : header.returns with
  | some typeName =>
      rw [written] at known
      exact hosts.typeOf_qualify proper known
  | none =>
      rw [written] at known
      cases result : header.resolvedType? with
      | some type =>
          rw [result] at known
          exact known
      | none =>
          rw [result] at known
          cases isExternal : header.isExternal with
          | true =>
              rw [isExternal] at known
              exact known
          | false =>
              rw [isExternal] at known
              cases known

theorem symbol_qualify {header : FunctionHeader} {symbol : Symbol} (name : String)
    (known : header.symbol context.scopes = .ok symbol) :
    FunctionHeader.symbol { header with name := name } (context.qualify qualifier).scopes =
        .ok symbol ∧ ∀ type, symbol ≠ .builtin type := by
  unfold FunctionHeader.symbol at known ⊢
  cases areTypes : context.scopes.typesOf (header.parameters.map (·.typeName)) with
  | error error =>
      rw [areTypes] at known
      cases known
  | ok parameters =>
      rw [areTypes] at known
      cases returned : header.returnType context.scopes with
      | error error =>
          rw [returned] at known
          cases known
      | ok result =>
          rw [returned] at known
          cases known
          have areTypes' : (context.qualify qualifier).scopes.typesOf
              (header.parameters.map (·.typeName)) = .ok parameters :=
            hosts.typesOf_qualify proper areTypes
          rw [areTypes', returnType_qualify proper hosts name returned]
          exact ⟨rfl, fun _ same => by cases same⟩

/-- A variable is declared with the type that it had. -/
theorem follows_declareVariable {decl : Variable} {inside : List String}
    (dotless : Undotted decl.name) (present : ⟨decl.name, decl.position, inside⟩ ∈ places)
    (named : qualifier.use inside decl.name = context.scopes.named qualifier decl.name)
    (content : Option Expr) (expected value : Option Ty) :
    Follows (Error.Renamed qualifier places) (Context.qualify qualifier)
      (fun after => after.Extends context.scopes [decl.name] hidden)
      (declareVariable context decl expected value)
      (declareVariable (context.qualify qualifier)
        { decl with name := context.scopes.named qualifier decl.name, value := content } expected
        value) := by
  unfold declareVariable
  change Follows _ _ _ _ (if context.scopes.isRoot && decl.isTyped then _ else _)
  split
  · next atTop =>
      have root := (Bool.and_eq_true_iff.mp atTop).1
      exact follows_pure ⟨by rwa [Scopes.within_of_isRoot root], rfl⟩
  · refine (follows_ofExcept fun type known => ?_).andThen fun type _ =>
      follows_define proper hosts dotless (fun _ same => by cases same) present named
    unfold variableType at known ⊢
    split at known
    · exact known
    · exact declaredType_qualify proper hosts _ _ known

/-- A function is declared with the parameters and the result that it had. -/
theorem follows_function {header : FunctionHeader} {inside : List String}
    (dotless : Undotted header.name) (present : ⟨header.name, header.position, inside⟩ ∈ places)
    (named : qualifier.use inside header.name = context.scopes.named qualifier header.name) :
    Follows (Error.Renamed qualifier places) (Context.qualify qualifier)
      (fun after => after.Extends context.scopes [header.name] hidden)
      (Check.function context header)
      (Check.function (context.qualify qualifier)
        { header with name := context.scopes.named qualifier header.name }) := by
  unfold Check.function
  change Follows _ _ _ (if context.scopes.isRoot then _ else _)
    (if context.scopes.isRoot then _ else _)
  split
  · next root =>
      have later : Context.Extends { context with anchor := header.position } context.scopes
          [header.name] hidden := ⟨by rwa [Scopes.within_of_isRoot root], rfl⟩
      exact follows_pure later
  · refine (follows_ofExcept fun symbol known => (symbol_qualify proper hosts _ known).1).andThen ?_
    intro symbol known
    have anchored :
        Scopes.Hosts (Context.scopes { context with anchor := header.position }) hidden := hosts
    have new := (symbol_qualify proper hosts "" known).2
    exact follows_define proper anchored dotless new present named

/-- A function body is checked where its parameters are declared. -/
theorem follows_functionBody {header : FunctionHeader} {inside : List String} (name : String)
    (params : ∀ param ∈ header.parameters, Undotted param.name ∧ param.name ∈ inside ∧
      ⟨param.name, param.typeName.position, inside⟩ ∈ places) :
    Follows (Error.Renamed qualifier places) (Context.qualify qualifier)
      (fun after => after.scopes.Hosts (header.parameters.map (·.name) ++ hidden) ∧
        after.scopes.isRoot = false)
      (functionBody context header)
      (functionBody (context.qualify qualifier) { header with name := name }) := by
  unfold functionBody
  refine (follows_ofExcept fun type known => returnType_qualify proper hosts name known).andThen ?_
  intro result _
  exact follows_parameters proper header.parameters hosts.push rfl params

end Known

/-- A variable is checked as it was. -/
theorem follows_declaration (proper : qualifier.Proper)
    (undotted : ∀ appearance ∈ places, Undotted appearance.name)
    (hosts : context.scopes.Hosts hidden) {decl : Variable} {inside : List String}
    (present : ⟨decl.name, decl.position, inside⟩ ∈ places)
    (named : qualifier.use inside decl.name = context.scopes.named qualifier decl.name)
    (values : ∀ appearance ∈ Appearance.ofMentions hidden (Expr.mentions? decl.value),
      appearance ∈ places) :
    Follows (Error.Renamed qualifier places) (Context.qualify qualifier)
      (fun after => after.Extends context.scopes [decl.name] hidden)
      (Check.declaration context decl)
      (Check.declaration (context.qualify qualifier) { decl with
        name := context.scopes.named qualifier decl.name
        value := decl.value.map (·.qualify qualifier hidden) }) := by
  unfold Check.declaration
  simp only [Option.isNone_map]
  split
  · exact fun _ failed => by cases failed
  · have anchored : Scopes.Hosts (Context.scopes { context with anchor := decl.position }) hidden :=
      hosts
    refine (follows_ofExcept fun type known => hosts.typeOf?_qualify proper known).andThen
      fun annotated _ => ?_
    refine (follows_check? proper undotted anchored decl.value values).andThen ?_
    intro value _
    refine (follows_requireSame (fun _ _ => rfl) _ _ _).andThen ?_
    intro _ _
    exact follows_declareVariable proper anchored (undotted _ present) present named _ _ _

end Check

/-! ### Statements -/

/-- A function is checked as it was, where its body is. -/
theorem Stmt.follows_check_function (proper : qualifier.Proper)
    (hosts : context.scopes.Hosts hidden) {header : FunctionHeader} {body : List Stmt}
    {place inside : List String} (dotless : SmallLang.Undotted header.name)
    (present : ⟨header.name, header.position, place⟩ ∈ places)
    (named : qualifier.use place header.name = context.scopes.named qualifier header.name)
    (params : ∀ param ∈ header.parameters, SmallLang.Undotted param.name ∧
      param.name ∈ inside ∧ ⟨param.name, param.typeName.position, inside⟩ ∈ places)
    (opened : inside = header.parameters.map (·.name) ++ context.scopes.within [header.name] hidden)
    (bodies : ∀ start : Context, start.scopes.Hosts inside → start.scopes.isRoot = false →
      Follows (Error.Renamed qualifier places) (Context.qualify qualifier) (fun _ => True)
        (Stmt.checkAll start body)
        (Stmt.checkAll (start.qualify qualifier) (Stmt.qualifyAll qualifier inside body))) :
    Follows (Error.Renamed qualifier places) (Context.qualify qualifier)
      (fun after => after.Extends context.scopes [header.name] hidden)
      ((Stmt.function header (some body)).check context)
      ((Stmt.function { header with name := context.scopes.named qualifier header.name }
        (some (Stmt.qualifyAll qualifier inside body))).check (context.qualify qualifier)) := by
  rw [Stmt.check, Stmt.check]
  refine (Check.follows_function proper hosts dotless present named).bind ?_
  intro between later
  refine (follows_functionBody proper later.hosts _ params).bind ?_
  intro start given
  refine (bodies start (opened ▸ given.1) given.2).bind ?_
  intro last _
  have left : (between.leave last).Extends context.scopes [header.name] hidden :=
    ⟨later.hosts, later.isRoot⟩
  exact follows_pure left

/-- After a block the scopes are those before it. -/
theorem Check.follows_block {body body' : List Stmt}
    (inside : Follows (Error.Renamed qualifier places) (Context.qualify qualifier) (fun _ => True)
      (Stmt.checkAll context.enter body) (Stmt.checkAll (context.qualify qualifier).enter body')) :
    Follows (Error.Renamed qualifier places) (Context.qualify qualifier)
      (fun after => after.scopes = context.scopes)
      (Stmt.checkAll context.enter body >>= fun last => pure (context.leave last))
      (Stmt.checkAll (context.qualify qualifier).enter body' >>= fun last =>
        pure ((context.qualify qualifier).leave last)) := by
  refine inside.bind ?_
  intro last _
  have left : (context.leave last).scopes = context.scopes := rfl
  exact follows_pure left

mutual

/-- A statement with new names is checked as it was. -/
theorem Stmt.follows_check (proper : qualifier.Proper)
    (undotted : ∀ appearance ∈ places, SmallLang.Undotted appearance.name) : ∀ (s : Stmt)
    {hidden : List String} {context : Context},
    s.bare.Parsed → (∀ appearance ∈ s.bare.appearances hidden, appearance ∈ places) →
    context.scopes.Hosts hidden → (s.declared?.isSome → context.scopes.isRoot = false) →
    Follows (Error.Renamed qualifier places) (Context.qualify qualifier)
      (fun after => after.Extends context.scopes s.declared?.toList hidden) (s.check context)
      ((s.qualify qualifier hidden).check (context.qualify qualifier))
  | .expr e, _, _, _, present, hosts, _ => by
      rw [Stmt.check, Stmt.qualify, Stmt.check]
      refine (e.follows_check proper undotted hosts present).andThen ?_
      intro _ _
      exact follows_pure (.refl hosts)
  | .comment _, _, _, _, _, hosts, _ | .use _, _, _, _, _, hosts, _ => follows_pure (.refl hosts)
  | .returns value, _, _, _, present, hosts, _ => by
      rw [Stmt.check, Stmt.qualify, Stmt.check]
      refine (follows_returns proper undotted hosts value present).andThen ?_
      intro _ _
      exact follows_pure (.refl hosts)
  | .declare decl, hidden, context, _, present, hosts, inner => by
      obtain ⟨named, values⟩ := List.forall_mem_cons.mp present
      have unchanged : context.scopes.named qualifier decl.name = decl.name :=
        Scopes.named_of_not_isRoot (inner rfl) decl.name
      have declares := @follows_declaration qualifier places hidden context proper undotted hosts
        decl _ named ((Qualifier.use_of_hidden List.mem_cons_self).trans unchanged.symm) values
      rw [unchanged] at declares
      exact declares
  | .function header none, _, context, _, present, hosts, inner => by
      have named := present _ List.mem_cons_self
      have unchanged : context.scopes.named qualifier header.name = header.name :=
        Scopes.named_of_not_isRoot (inner rfl) header.name
      have declares := @Check.follows_function qualifier places _ context proper hosts header _
        (undotted _ named) named
        ((Qualifier.use_of_hidden List.mem_cons_self).trans unchanged.symm)
      rw [unchanged] at declares
      exact declares
  | .function header (some body), hidden, context, parsed, present, hosts, inner => by
      simp only [Stmt.bare, Stmt.appearances, List.forall_mem_cons, List.forall_mem_append,
        List.forall_mem_map] at present
      obtain ⟨named, params, bodies⟩ := present
      have unchanged : context.scopes.named qualifier header.name = header.name :=
        Scopes.named_of_not_isRoot (inner rfl) header.name
      have opened : header.parameters.map (·.name) ++ header.name :: hidden =
          header.parameters.map (·.name) ++ context.scopes.within [header.name] hidden := by
        rw [Scopes.within_of_not_isRoot (inner rfl)]
        rfl
      have checked := Stmt.follows_check_function proper hosts (undotted _ named) named
        ((Qualifier.use_of_hidden List.mem_cons_self).trans unchanged.symm)
        (fun param among => ⟨undotted _ (params param among),
          List.mem_append_left _ (List.mem_map_of_mem among), params param among⟩) opened
        (fun start hosts inner =>
          Stmt.follows_checkAll proper undotted body parsed.2.2 bodies hosts inner)
      rw [unchanged] at checked
      exact checked
  | .branch condition body alternate, hidden, context, ⟨parsed, parsed'⟩, present, hosts, _ => by
      simp only [Stmt.bare, Stmt.appearances, List.forall_mem_append] at present
      obtain ⟨conditions, bodies, alternates⟩ := present
      rw [Stmt.check, Stmt.qualify, Stmt.check]
      refine (follows_condition proper undotted hosts conditions).andThen ?_
      intro _ _
      refine (Stmt.follows_checkAll proper undotted body parsed bodies hosts.push rfl).bind ?_
      intro last _
      have left : Scopes.Hosts (context.leave last).scopes hidden := hosts
      refine (Alternate.follows_check proper undotted alternate parsed' alternates left).imp ?_
      intro _ same
      exact .of_scopes_eq same hosts
  | .loop condition body, hidden, context, parsed, present, hosts, _ => by
      simp only [Stmt.bare, Stmt.appearances, List.forall_mem_append] at present
      rw [Stmt.check, Stmt.qualify, Stmt.check]
      refine (follows_condition proper undotted hosts present.1).andThen ?_
      intro _ _
      refine Follows.imp
        (follows_block (Stmt.follows_checkAll proper undotted body parsed present.2 hosts.push rfl))
        ?_
      intro _ same
      exact .of_scopes_eq same hosts
  | .switch subject arms, hidden, context, parsed, present, hosts, _ => by
      simp only [Stmt.bare, Stmt.appearances, List.forall_mem_append] at present
      rw [Stmt.check, Stmt.qualify, Stmt.check]
      refine (subject.follows_check proper undotted hosts present.1).andThen ?_
      intro type _
      refine (Arm.follows_checkAll proper undotted type arms parsed present.2 hosts).imp ?_
      intro _ same
      exact .of_scopes_eq same hosts
  | .parameter _, _, _, parsed, _, _, _ | .arm _, _, _, parsed, _, _, _
  | .merged _, _, _, parsed, _, _, _ => parsed.elim
termination_by structural part => part

theorem Alternate.follows_check (proper : qualifier.Proper)
    (undotted : ∀ appearance ∈ places, SmallLang.Undotted appearance.name) :
    ∀ (alternate : Alternate) {hidden : List String} {context : Context}, alternate.bare.Parsed →
    (∀ appearance ∈ alternate.bare.appearances hidden, appearance ∈ places) →
    context.scopes.Hosts hidden →
    Follows (Error.Renamed qualifier places) (Context.qualify qualifier)
      (fun after => after.scopes = context.scopes) (alternate.check context)
      ((alternate.qualify qualifier hidden).check (context.qualify qualifier))
  | .none, _, _, _, _, _ => follows_pure rfl
  | .elseBranch condition body alternate, hidden, context, ⟨parsed, parsed'⟩, present, hosts => by
      simp only [Alternate.bare, Alternate.appearances, List.forall_mem_append] at present
      obtain ⟨conditions, bodies, alternates⟩ := present
      rw [Alternate.check, Alternate.qualify, Alternate.check]
      refine (follows_condition proper undotted hosts conditions).andThen ?_
      intro _ _
      refine (Stmt.follows_checkAll proper undotted body parsed bodies hosts.push rfl).bind ?_
      intro last _
      have left : Scopes.Hosts (context.leave last).scopes hidden := hosts
      exact Alternate.follows_check proper undotted alternate parsed' alternates left
  | .otherwise body, hidden, context, parsed, present, hosts => by
      rw [Alternate.check, Alternate.qualify, Alternate.check]
      exact follows_block
        (Stmt.follows_checkAll proper undotted body parsed present hosts.push rfl)
termination_by structural part => part

theorem Arm.follows_check (proper : qualifier.Proper)
    (undotted : ∀ appearance ∈ places, SmallLang.Undotted appearance.name)
    (subject : Option Ty) : ∀ (arm : Arm) {hidden : List String} {context : Context},
    arm.bare.Parsed →
    (∀ appearance ∈ arm.bare.appearances hidden, appearance ∈ places) →
    context.scopes.Hosts hidden →
    Follows (Error.Renamed qualifier places) (Context.qualify qualifier)
      (fun after => after.scopes = context.scopes) (arm.check context subject)
      ((arm.qualify qualifier hidden).check (context.qualify qualifier) subject)
  | .value pattern body, hidden, context, parsed, present, hosts => by
      simp only [Arm.bare, Arm.appearances, List.forall_mem_append] at present
      rw [Arm.check, Arm.qualify, Arm.check]
      refine (follows_pattern proper undotted hosts subject present.1).andThen ?_
      intro _ _
      exact follows_block
        (Stmt.follows_checkAll proper undotted body parsed present.2 hosts.push rfl)
  | .otherwise body, hidden, context, parsed, present, hosts => by
      rw [Arm.check, Arm.qualify, Arm.check]
      exact follows_block
        (Stmt.follows_checkAll proper undotted body parsed present hosts.push rfl)
termination_by structural part => part

theorem Stmt.follows_checkAll (proper : qualifier.Proper)
    (undotted : ∀ appearance ∈ places, SmallLang.Undotted appearance.name) : ∀ (body : List Stmt)
    {hidden : List String} {context : Context},
    Stmt.AllParsed (Stmt.allBare body) →
    (∀ appearance ∈ Stmt.allAppearances hidden (Stmt.allBare body), appearance ∈ places) →
    context.scopes.Hosts hidden → context.scopes.isRoot = false →
    Follows (Error.Renamed qualifier places) (Context.qualify qualifier) (fun _ => True)
      (Stmt.checkAll context body)
      (Stmt.checkAll (context.qualify qualifier) (Stmt.qualifyAll qualifier hidden body))
  | [], _, _, _, _, _, _ => follows_pure trivial
  | first :: rest, hidden, context, ⟨parsed, parsed'⟩, present, hosts, inner => by
      rw [Stmt.allBare, Stmt.allAppearances, List.forall_mem_append, Stmt.declared?_bare] at present
      rw [Stmt.checkAll, Stmt.qualifyAll, Stmt.checkAll]
      refine (Stmt.follows_check proper undotted first parsed present.1 hosts fun _ => inner).bind
        ?_
      intro between later
      obtain ⟨hosts, inner⟩ := later.within_of_declared inner
      exact Stmt.follows_checkAll proper undotted rest parsed' present.2 hosts inner
termination_by structural part => part

theorem Arm.follows_checkAll (proper : qualifier.Proper)
    (undotted : ∀ appearance ∈ places, SmallLang.Undotted appearance.name)
    (subject : Option Ty) : ∀ (arms : List Arm) {hidden : List String} {context : Context},
    Arm.AllParsed (Arm.allBare arms) →
    (∀ appearance ∈ Arm.allAppearances hidden (Arm.allBare arms), appearance ∈ places) →
    context.scopes.Hosts hidden →
    Follows (Error.Renamed qualifier places) (Context.qualify qualifier)
      (fun after => after.scopes = context.scopes) (Arm.checkAll context subject arms)
      (Arm.checkAll (context.qualify qualifier) subject (Arm.qualifyAll qualifier hidden arms))
  | [], _, _, _, _, _ => follows_pure rfl
  | first :: rest, hidden, context, ⟨parsed, parsed'⟩, present, hosts => by
      rw [Arm.allBare, Arm.allAppearances, List.forall_mem_append] at present
      rw [Arm.checkAll, Arm.qualifyAll, Arm.checkAll]
      refine (Arm.follows_check proper undotted subject first parsed present.1 hosts).bind ?_
      intro between same
      have left : between.scopes.Hosts hidden := same ▸ hosts
      refine (Arm.follows_checkAll proper undotted subject rest parsed' present.2 left).imp ?_
      intro _ same'
      exact same'.trans same
termination_by structural part => part

end

end SmallLang
