import SmallLang.Proofs.Import.Inference
import SmallLang.Proofs.Tree.Declarations

/-!
# Walks under a namespace

The walk over a merged module writes into each declaration what the walk over the module alone
writes there.
-/

set_option autoImplicit false

namespace SmallLang

open Infer Walk

variable {qualifier : Qualifier} {hidden : List String} {engine engine' : Engine}

/-- The names that are hidden after a declaration. At the top a declaration hides nothing. -/
def Scopes.within (scopes : Scopes) (names hidden : List String) : List String :=
  if scopes.isRoot then hidden else names ++ hidden

@[simp] theorem Scopes.within_nil (scopes : Scopes) : scopes.within [] hidden = hidden :=
  ite_self hidden

theorem Scopes.within_of_isRoot {scopes : Scopes} (root : scopes.isRoot = true)
    (names hidden : List String) : scopes.within names hidden = hidden :=
  if_pos root

theorem Scopes.within_of_not_isRoot {scopes : Scopes} (inner : scopes.isRoot = false)
    (names hidden : List String) : scopes.within names hidden = names ++ hidden := by
  rw [within, if_neg (by simp [inner])]

theorem Scopes.Hosts.insert {scopes : Scopes} {name : String} {symbol : Symbol}
    (hosts : scopes.Hosts hidden) (undotted : Undotted name) (notType : Ty.isTypeName name = false)
    (new : ∀ type, symbol ≠ .builtin type) :
    (scopes.insert name symbol).Hosts (scopes.within [name] hidden) := by
  unfold within
  cases root : scopes.isRoot with
  | true => exact hosts.insert_root root undotted notType new
  | false => exact hosts.insert_inner root undotted notType new

namespace Infer

/-! ### Declarations -/

theorem follows_value? (proper : qualifier.Proper) (plain : engine.Plain)
    (hosts : engine.scopes.Hosts hidden) :
    ∀ value : Option Expr, (∀ mention ∈ Expr.mentions? value, Undotted mention.1) →
      Follows qualifier (value? value) (value? (value.map (·.qualify qualifier hidden))) engine
  | none, _ => follows_pure plain _
  | some e, undotted =>
      (e.follows_infer proper plain hosts undotted).bind fun _ _ _ plain => follows_pure plain _

theorem follows_condition (proper : qualifier.Proper) (plain : engine.Plain)
    (hosts : engine.scopes.Hosts hidden) {e : Expr}
    (undotted : ∀ mention ∈ e.mentions, Undotted mention.1) :
    Follows qualifier (condition e) (condition (e.qualify qualifier hidden)) engine :=
  (e.follows_infer proper plain hosts undotted).bind fun _ _ _ plain => follows_constrain plain _ _

theorem follows_pattern (proper : qualifier.Proper) (plain : engine.Plain)
    (hosts : engine.scopes.Hosts hidden)
    (subject : Option Term) {e : Expr} (undotted : ∀ mention ∈ e.mentions, Undotted mention.1) :
    Follows qualifier (pattern subject e) (pattern subject (e.qualify qualifier hidden))
      engine := by
  refine (e.follows_infer proper plain hosts undotted).bind ?_
  intro _ _ _ plain
  cases subject with
  | none => exact follows_pure plain _
  | some subject => exact follows_constrain plain _ _

theorem follows_returns (proper : qualifier.Proper) (plain : engine.Plain)
    (hosts : engine.scopes.Hosts hidden)
    {value : Option Expr} (undotted : ∀ mention ∈ Expr.mentions? value, Undotted mention.1) :
    Follows qualifier (returns value) (returns (value.map (·.qualify qualifier hidden)))
      engine := by
  refine (follows_value? proper plain hosts value undotted).bind ?_
  intro known _ _ plain
  refine Follows.bind ?_ fun _ _ _ plain => follows_pure plain _
  intro _ _ yields
  obtain rfl := yields_update.mp yields
  exact ⟨yields_update.mpr (Engine.qualify_addReturn _), Engine.plain_addReturn plain _⟩

/-- A name is declared under its new name, which settles what it settled. -/
theorem qualify_declared {name : String} (symbol : Symbol) (term : Term) (plain : engine.Plain)
    (undotted : Undotted name) :
    (Engine.settleForward { engine with scopes := engine.scopes.insert name symbol } name
        term).qualify qualifier =
      Engine.settleForward
        { engine.qualify qualifier with
          scopes := (engine.qualify qualifier).scopes.insert
            (engine.scopes.named qualifier name) symbol }
        (engine.scopes.named qualifier name) term := by
  have inserted : Engine.Plain { engine with scopes := engine.scopes.insert name symbol } :=
    plain.congr rfl rfl rfl
  rw [inserted.qualify_settleForward undotted]
  have named : (engine.scopes.insert name symbol).named qualifier name =
      engine.scopes.named qualifier name := by
    unfold Scopes.named
    rw [Scopes.isRoot_insert]
  have same : Engine.qualify qualifier { engine with scopes := engine.scopes.insert name symbol } =
      { engine.qualify qualifier with
        scopes := (engine.qualify qualifier).scopes.insert
          (engine.scopes.named qualifier name) symbol } := by
    unfold Engine.qualify
    simp only [Scopes.qualify_insert]
  rw [same]
  exact congrArg (Engine.settleForward _ · term) named

theorem follows_parameter (proper : qualifier.Proper) (plain : engine.Plain)
    (hosts : engine.scopes.Hosts hidden) (inner : engine.scopes.isRoot = false)
    {param : Parameter} (undotted : Undotted param.name) :
    Follows qualifier (parameter param) (parameter param) engine := by
  intro term engine' yields
  obtain ⟨type, isType, notType, new, rfl, rfl⟩ := yields_parameter.mp yields
  have known : (engine.scopes.qualify qualifier).innermost.lookup
      (engine.scopes.named qualifier param.name) = _ := hosts.innermost_qualify undotted
  rw [Scopes.named_of_not_isRoot inner] at known
  refine ⟨yields_parameter.mpr ⟨type, hosts.typeOf_qualify proper isType, notType,
    known.trans new, ?_, rfl⟩, plain.congr rfl rfl rfl⟩
  unfold Engine.qualify
  simp only [Scopes.qualify_insert, Scopes.named_of_not_isRoot inner]

/-- Parameters hide their names. -/
theorem follows_parameters (proper : qualifier.Proper) : ∀ (parameters : List Parameter)
    {engine : Engine} {hidden : List String}, engine.Plain → engine.scopes.Hosts hidden →
      engine.scopes.isRoot = false → (∀ param ∈ parameters, Undotted param.name) →
      Follows qualifier (Infer.parameters parameters) (Infer.parameters parameters) engine
  | [], _, _, plain, _, _, _ => follows_pure plain _
  | first :: rest, engine, hidden, plain, hosts, inner, undotted => by
      obtain ⟨undotted, undotted'⟩ := List.forall_mem_cons.mp undotted
      refine (follows_parameter proper plain hosts inner undotted).bind ?_
      intro _ between yields plain
      obtain ⟨type, _, notType, _, rfl, _⟩ := yields_parameter.mp yields
      have new : ∀ other, Symbol.variable (.concrete type) true ≠ .builtin other :=
        fun _ same => by cases same
      have hosts' := hosts.insert_inner inner undotted notType new
      exact follows_parameters proper rest plain hosts' (by rw [Scopes.isRoot_insert, inner])
        undotted'

theorem hosts_parameters : ∀ {parameters : List Parameter} {engine engine' : Engine}
    {hidden : List String}, Yields (Infer.parameters parameters) engine () engine' →
      engine.scopes.Hosts hidden → engine.scopes.isRoot = false →
      (∀ param ∈ parameters, Undotted param.name) →
      engine'.scopes.Hosts (parameters.map (·.name) ++ hidden)
  | [], _, _, _, yields, hosts, _, _ => by
      obtain ⟨_, rfl⟩ := yields_pure.mp yields
      exact hosts
  | first :: rest, engine, engine', hidden, yields, hosts, inner, undotted => by
      obtain ⟨undotted, undotted'⟩ := List.forall_mem_cons.mp undotted
      obtain ⟨_, between, yields, yields'⟩ := yields_bind.mp yields
      obtain ⟨type, _, notType, _, rfl, _⟩ := yields_parameter.mp yields
      have new : ∀ other, Symbol.variable (.concrete type) true ≠ .builtin other :=
        fun _ same => by cases same
      have hosts' := hosts.insert_inner inner undotted notType new
      refine (hosts_parameters yields' hosts' (by rw [Scopes.isRoot_insert, inner])
        undotted').congr ?_
      intro name
      simp only [List.map_cons, List.mem_append, List.mem_cons]
      tauto

theorem follows_function (proper : qualifier.Proper) (plain : engine.Plain)
    (hosts : engine.scopes.Hosts hidden) {header : FunctionHeader}
    (undotted : Undotted header.name) :
    Follows qualifier (Infer.function header)
      (Infer.function { header with name := engine.scopes.named qualifier header.name })
      engine := by
  rintro ⟨declared, term⟩ engine' yields
  obtain ⟨parameters, between, areTypes, isType, yields', notType, new, rfl⟩ :=
    yields_function.mp yields
  have same : between.scopes = engine.scopes := (grows_orFresh yields').1.scopes
  have anchored : Engine.Plain { engine with anchor := header.position } := plain.congr rfl rfl rfl
  have begins : Follows qualifier _ _ _ := follows_orFresh anchored (knownResult header declared)
  obtain ⟨follows, plain'⟩ := begins yields'
  have inserted : Engine.Plain { between with
      scopes := between.scopes.insert header.name (.function parameters term) } :=
    plain'.congr rfl rfl rfl
  refine ⟨yields_function.mpr ⟨parameters, between.qualify qualifier,
    hosts.typesOf_qualify proper areTypes, hosts.typeOf?_qualify proper isType, follows,
    Scopes.isTypeName_named notType, ?_, ?_⟩, Engine.plain_settleForward inserted _ _⟩
  · rw [same] at new
    change (between.scopes.qualify qualifier).innermost.lookup _ = none
    rw [same]
    exact (hosts.innermost_qualify undotted).trans new
  · rw [← same]
    exact qualify_declared _ _ plain' undotted

theorem hosts_function (hosts : engine.scopes.Hosts hidden) {header : FunctionHeader}
    (undotted : Undotted header.name) {declared : Option Ty} {term : Term}
    (yields : Yields (Infer.function header) engine (declared, term) engine') :
    engine'.scopes.Hosts (engine.scopes.within [header.name] hidden) := by
  obtain ⟨parameters, between, _, _, yields', notType, _, rfl⟩ := yields_function.mp yields
  have same : between.scopes = engine.scopes := (grows_orFresh yields').1.scopes
  rw [Engine.settleForward_eq, same]
  have new : ∀ type, Symbol.function parameters term ≠ .builtin type := fun _ same => by cases same
  exact hosts.insert undotted notType new

theorem follows_declare (plain : engine.Plain) (hosts : engine.scopes.Hosts hidden)
    {decl : Variable} (undotted : Undotted decl.name) (value : Option Expr) (known : Option Term) :
    Follows qualifier (Infer.declare decl known)
      (Infer.declare
        { decl with name := engine.scopes.named qualifier decl.name, value := value } known)
      engine := by
  intro term engine' yields
  obtain ⟨between, yields', notType, new, rfl⟩ := yields_declare.mp yields
  have same : between.scopes = engine.scopes := (grows_orFresh yields').1.scopes
  have begins : Follows qualifier _ _ _ := follows_orFresh plain known
  obtain ⟨follows, plain'⟩ := begins yields'
  have inserted : Engine.Plain { between with
      scopes := between.scopes.insert decl.name (.variable term decl.mutable) } :=
    plain'.congr rfl rfl rfl
  refine ⟨yields_declare.mpr ⟨between.qualify qualifier, follows, Scopes.isTypeName_named notType,
    ?_, ?_⟩, Engine.plain_settleForward inserted _ _⟩
  · rw [same] at new
    change (between.scopes.qualify qualifier).innermost.lookup _ = none
    rw [same]
    exact (hosts.innermost_qualify undotted).trans new
  · rw [← same]
    exact qualify_declared _ _ plain' undotted

theorem hosts_declare (hosts : engine.scopes.Hosts hidden) {decl : Variable}
    (undotted : Undotted decl.name) {known : Option Term} {term : Term}
    (yields : Yields (Infer.declare decl known) engine term engine') :
    engine'.scopes.Hosts (engine.scopes.within [decl.name] hidden) := by
  obtain ⟨between, yields', notType, _, rfl⟩ := yields_declare.mp yields
  have same : between.scopes = engine.scopes := (grows_orFresh yields').1.scopes
  rw [Engine.settleForward_eq, same]
  have new : ∀ type, Symbol.variable term decl.mutable ≠ .builtin type :=
    fun _ same => by cases same
  exact hosts.insert undotted notType new

theorem follows_initial (proper : qualifier.Proper) (plain : engine.Plain)
    (hosts : engine.scopes.Hosts hidden) {decl : Variable} (undotted : Undotted decl.name)
    (values : ∀ mention ∈ Expr.mentions? decl.value, Undotted mention.1) :
    Follows qualifier (initial decl)
      (initial { decl with
        name := engine.scopes.named qualifier decl.name
        value := decl.value.map (·.qualify qualifier hidden) }) engine := by
  intro known engine' yields
  obtain ⟨annotated, value, between, isType, yields', rfl, rfl⟩ := yields_initial.mp yields
  have inside : Engine.Plain { engine with
      anchor := decl.position
      declaring := if engine.scopes.isRoot then some decl.name else engine.declaring } := by
    refine ⟨plain.known, plain.forward, fun name declaring => ?_⟩
    change (if engine.scopes.isRoot then some decl.name else engine.declaring) = some name
      at declaring
    split at declaring
    · exact Option.some.inj declaring ▸ undotted
    · exact plain.declaring name declaring
  have begins : Follows qualifier _ _ _ := follows_value? proper inside hosts decl.value values
  obtain ⟨follows, plain'⟩ := begins yields'
  refine ⟨yields_initial.mpr ⟨annotated, value, between.qualify qualifier,
    hosts.typeOf?_qualify proper isType, ?_, rfl, rfl⟩,
    plain'.known, plain'.forward, fun _ same => by cases same⟩
  have declaring : (if (engine.qualify qualifier).scopes.isRoot then
      some (engine.scopes.named qualifier decl.name) else (engine.qualify qualifier).declaring) =
      (if engine.scopes.isRoot then some decl.name else engine.declaring).map
        (qualifier.use []) := by
    change (if engine.scopes.isRoot then _ else _) = _
    cases root : engine.scopes.isRoot with
    | true =>
        rw [Scopes.named_of_isRoot root]
        rfl
    | false => rfl
  rw [declaring]
  exact follows

/-! ### Results -/

/-- What a function returns does not depend on its name. -/
theorem follows_commonReturn (plain : engine.Plain) (header header' : FunctionHeader)
    (terms : List Term) :
    Follows qualifier (commonReturn header terms) (commonReturn header' terms) engine := by
  unfold commonReturn
  split
  · refine Follows.bind ?_ fun _ _ _ plain => follows_pure plain _
    intro _ _ yields
    obtain rfl := yields_update.mp yields
    exact ⟨yields_update.mpr (Engine.qualify_constrainAll _), Engine.plain_constrainAll _ plain⟩
  · split
    · exact follows_pure plain _
    · split
      · exact follows_pure plain _
      · exact follows_fail _ _

theorem follows_conclusion (plain : engine.Plain) (header header' : FunctionHeader)
    (declared : Option Ty) (before : Term) (terms : List Term) :
    Follows qualifier (conclusion header declared before terms)
      (conclusion header' declared before terms) engine := by
  have results : Follows qualifier (result header declared terms)
      (result header' declared terms) engine := by
    cases declared with
    | some type => exact follows_pure plain _
    | none => exact follows_commonReturn plain header header' terms
  refine results.bind ?_
  intro after _ _ plain
  change Follows qualifier (if after = before then _ else _) (if after = before then _ else _) _
  split
  · exact follows_pure plain _
  · exact (follows_constrain plain _ _).bind fun _ _ _ plain => follows_pure plain _

end Infer

/-! ### Statements -/

theorem Variable.follows_walk (proper : qualifier.Proper) (plain : engine.Plain)
    (hosts : engine.scopes.Hosts hidden) {decl decl' : Variable} (undotted : Undotted decl.name)
    (values : ∀ mention ∈ Expr.mentions? decl.value, Undotted mention.1)
    (ends : decl.walk.Ends engine decl' engine') :
    let named (decl : Variable) : Variable := { decl with
      name := engine.scopes.named qualifier decl.name
      value := decl.value.map (·.qualify qualifier hidden) }
    (named decl).walk.Ends (engine.qualify qualifier) (named decl') (engine'.qualify qualifier) ∧
      engine'.Plain := by
  intro named
  obtain ⟨known, between, term, begins, declares, rfl⟩ := Variable.ends_walk.mp ends
  obtain ⟨follows, plain⟩ := follows_initial proper plain hosts undotted values begins
  obtain ⟨_, _, last, _, yields, rfl, _⟩ := yields_initial.mp begins
  have same : last.scopes = engine.scopes := (stays_value? yields).1.scopes
  have hosts : last.scopes.Hosts hidden := same ▸ hosts
  have declaring : Follows qualifier _ _ _ := follows_declare plain hosts undotted
    (decl.value.map (·.qualify qualifier hidden)) known
  obtain ⟨follows', plain⟩ := declaring declares
  refine ⟨Variable.ends_walk.mpr ⟨known, _, term, follows, ?_, rfl⟩, plain⟩
  change Yields (Infer.declare { decl with
    name := last.scopes.named qualifier decl.name, value := _ } known) _ _ _ at follows'
  have named_eq : last.scopes.named qualifier decl.name = engine.scopes.named qualifier decl.name :=
    congrArg (Scopes.named qualifier · decl.name) same
  rw [named_eq] at follows'
  exact follows'

theorem Stmt.follows_prototype (proper : qualifier.Proper) (plain : engine.Plain)
    (hosts : engine.scopes.Hosts hidden) {header : FunctionHeader} {found : Stmt}
    (undotted : SmallLang.Undotted header.name)
    (ends : (Stmt.function header none).walk.Ends engine found engine') :
    ∃ note, found = .function { header with resolved := note } none ∧
      (Stmt.function { header with name := engine.scopes.named qualifier header.name }
          none).walk.Ends (engine.qualify qualifier)
        (.function { header with
          name := engine.scopes.named qualifier header.name, resolved := note } none)
        (engine'.qualify qualifier) ∧ engine'.Plain := by
  obtain ⟨declared, term, yields, rfl⟩ := Stmt.ends_prototype.mp ends
  obtain ⟨follows, plain⟩ := Infer.follows_function proper plain hosts undotted yields
  exact ⟨some term, rfl, Stmt.ends_prototype.mpr ⟨declared, term, follows, rfl⟩, plain⟩

theorem Stmt.follows_function (proper : qualifier.Proper) (plain : engine.Plain)
    (hosts : engine.scopes.Hosts hidden) {header : FunctionHeader} {body : List Stmt} {found : Stmt}
    (undotted : SmallLang.Undotted header.name)
    (params : ∀ param ∈ header.parameters, SmallLang.Undotted param.name)
    {inside : List String}
    (opened : inside = header.parameters.map (·.name) ++ engine.scopes.within [header.name] hidden)
    (walks : ∀ {start last : Engine} {part : List Stmt}, start.Plain → start.scopes.Hosts inside →
      start.scopes.isRoot = false → (Stmt.walkAll body).Ends start part last →
      (Stmt.walkAll (Stmt.qualifyAll qualifier inside body)).Ends (start.qualify qualifier)
        (Stmt.qualifyAll qualifier inside part) (last.qualify qualifier) ∧ last.Plain)
    (ends : (Stmt.function header (some body)).walk.Ends engine found engine') :
    ∃ note part, found = .function { header with resolved := note } (some part) ∧
      (Stmt.function { header with name := engine.scopes.named qualifier header.name }
          (some (Stmt.qualifyAll qualifier inside body))).walk.Ends (engine.qualify qualifier)
        (.function { header with
          name := engine.scopes.named qualifier header.name, resolved := note }
          (some (Stmt.qualifyAll qualifier inside part)))
        (engine'.qualify qualifier) ∧ engine'.Plain := by
  obtain ⟨declared, before, between, start, part, last, term, yields, yields', walked, concludes,
    rfl⟩ := Stmt.ends_function.mp ends
  obtain ⟨follows, plain⟩ := Infer.follows_function proper plain hosts undotted yields
  have hosts := (hosts_function hosts undotted yields).push
  obtain ⟨follows', plain⟩ := follows_parameters proper _ plain.enter hosts rfl params yields'
  have hosts := hosts_parameters yields' hosts rfl params
  obtain ⟨walked', plain⟩ := walks plain (opened ▸ hosts) (grows_parameters yields').isRoot walked
  obtain ⟨follows'', plain⟩ := follows_conclusion plain.leave header
    { header with name := engine.scopes.named qualifier header.name } declared before _ concludes
  exact ⟨some term, part, rfl, Stmt.ends_function.mpr ⟨declared, before, _, _, _, _, term, follows,
    follows', walked', follows'', rfl⟩, plain⟩

/-- What a statement declares is declared after it, and hides a name further in. -/
theorem Stmt.hosts_of_walk {s part : Stmt} (parsed : s.Parsed)
    (undotted : ∀ name ∈ s.declared?, SmallLang.Undotted name) (hosts : engine.scopes.Hosts hidden)
    (ends : s.walk.Ends engine part engine') :
    engine'.scopes.Hosts (engine.scopes.within s.declared?.toList hidden) := by
  have rebound := Stmt.rebound_access [] s hidden parsed.bare
  by_cases undeclared : s.declared? = none
  · rw [undeclared, rebound.scopes_eq undeclared ends hosts.sane]
    rwa [Option.toList_none, Scopes.within_nil]
  cases s with
  | declare decl =>
      obtain ⟨_, ends', _⟩ := Stmt.ends_declare.mp ends
      obtain ⟨known, between, term, initial, declares, _⟩ := Variable.ends_walk.mp ends'
      obtain ⟨_, _, last, _, yields, rfl, _⟩ := yields_initial.mp initial
      have same : last.scopes = engine.scopes := (stays_value? yields).1.scopes
      have hosts : (Engine.scopes { last with declaring := none }).Hosts hidden := same ▸ hosts
      have declared := hosts_declare hosts (undotted decl.name rfl) declares
      change engine'.scopes.Hosts (last.scopes.within _ hidden) at declared
      rwa [same] at declared
  | function header body =>
      cases body with
      | none =>
          obtain ⟨_, _, yields, _⟩ := Stmt.ends_prototype.mp ends
          exact hosts_function hosts (undotted header.name rfl) yields
      | some body =>
          obtain ⟨_, _, between, start, _, last, _, yields, yields', ends', yields'', _⟩ :=
            Stmt.ends_function.mp ends
          have sane := ((grows_function yields).sane hosts.sane).push
          have opened := grows_parameters yields'
          obtain ⟨⟨_, _, grows⟩, _, _⟩ := Stmt.passes_walkAll body ends' (opened.sane sane)
          have left := (opened.andThen grows).leave.1
          rw [(stays_conclusion yields'').1.scopes, left]
          exact hosts_function hosts (undotted header.name rfl) yields
  | _ => exact absurd rfl undeclared

theorem Appearance.undotted_ofMentions {mentions : List (String × Position)}
    (undotted : ∀ appearance ∈ ofMentions hidden mentions, Undotted appearance.name) :
    ∀ mention ∈ mentions, Undotted mention.1 :=
  fun mention present => undotted ⟨mention.1, mention.2, hidden⟩ (List.mem_map_of_mem present)

theorem Stmt.undotted_declared {s : Stmt}
    (undotted : ∀ appearance ∈ s.appearances hidden, SmallLang.Undotted appearance.name) :
    ∀ name ∈ s.declared?, SmallLang.Undotted name := by
  intro name declared
  cases s with
  | declare decl =>
      cases declared
      exact undotted _ List.mem_cons_self
  | function header body =>
      cases declared
      cases body <;> exact undotted _ List.mem_cons_self
  | _ => cases declared

mutual

/-- A statement with new names is walked as it was. -/
theorem Stmt.follows_walk (proper : qualifier.Proper) : ∀ (s : Stmt) {hidden : List String}
    {engine engine' : Engine} {part : Stmt}, s.Parsed →
      (∀ appearance ∈ s.appearances hidden, SmallLang.Undotted appearance.name) → engine.Plain →
      engine.scopes.Hosts hidden → (s.declared?.isSome → engine.scopes.isRoot = false) →
      s.walk.Ends engine part engine' →
      (s.qualify qualifier hidden).walk.Ends (engine.qualify qualifier)
        (part.qualify qualifier hidden) (engine'.qualify qualifier) ∧ engine'.Plain
  | .expr e, _, _, _, _, _, undotted, plain, hosts, _, whole => by
      obtain ⟨rfl, term, yields⟩ := ends_still.mp whole
      obtain ⟨follows, plain⟩ :=
        e.follows_infer proper plain hosts (Appearance.undotted_ofMentions undotted) yields
      exact ⟨ends_still.mpr ⟨rfl, term, follows⟩, plain⟩
  | .comment _, _, _, _, _, _, _, plain, _, _, whole
  | .use _, _, _, _, _, _, _, plain, _, _, whole => by
      obtain ⟨rfl, _, yields⟩ := ends_still.mp whole
      obtain ⟨rfl, rfl⟩ := yields_pure.mp yields
      exact ⟨ends_still.mpr ⟨rfl, _, yields_pure.mpr ⟨rfl, rfl⟩⟩, plain⟩
  | .returns value, _, _, _, _, _, undotted, plain, hosts, _, whole => by
      obtain ⟨rfl, term, yields⟩ := Stmt.ends_returns.mp whole
      obtain ⟨follows, plain⟩ :=
        follows_returns proper plain hosts (Appearance.undotted_ofMentions undotted) yields
      exact ⟨Stmt.ends_returns.mpr ⟨rfl, term, follows⟩, plain⟩
  | .declare decl, _, engine, _, _, _, undotted, plain, hosts, inner, whole => by
      obtain ⟨undotted, values⟩ := List.forall_mem_cons.mp undotted
      obtain ⟨decl', ends, rfl⟩ := Stmt.ends_declare.mp whole
      obtain ⟨follows, plain⟩ := Variable.follows_walk proper plain hosts undotted
        (Appearance.undotted_ofMentions values) ends
      simp only [Scopes.named_of_not_isRoot (inner rfl)] at follows
      exact ⟨Stmt.ends_declare.mpr ⟨_, follows, rfl⟩, plain⟩
  | .function header none, _, _, _, _, _, undotted, plain, hosts, inner, whole => by
      obtain ⟨note, rfl, follows, plain⟩ := Stmt.follows_prototype proper plain hosts
        (undotted _ List.mem_cons_self) whole
      simp only [Scopes.named_of_not_isRoot (inner rfl)] at follows
      exact ⟨follows, plain⟩
  | .function header (some body), hidden, engine, _, _, parsed, undotted, plain, hosts, inner,
      whole => by
      obtain ⟨named, undotted⟩ := List.forall_mem_cons.mp undotted
      obtain ⟨params, bodies⟩ := List.forall_mem_append.mp undotted
      have opened : header.parameters.map (·.name) ++ header.name :: hidden =
          header.parameters.map (·.name) ++ engine.scopes.within [header.name] hidden := by
        rw [Scopes.within_of_not_isRoot (inner rfl)]
        rfl
      obtain ⟨note, part, rfl, follows, plain⟩ := Stmt.follows_function proper plain hosts named
        (fun param present => params _ (List.mem_map_of_mem present)) opened
        (fun plain hosts inner ends =>
          Stmt.follows_walkAll proper body parsed.2.2 bodies plain hosts inner ends) whole
      simp only [Scopes.named_of_not_isRoot (inner rfl)] at follows
      exact ⟨follows, plain⟩
  | .branch condition body alternate, hidden, _, _, _, ⟨parsed, parsed'⟩, undotted, plain, hosts,
      _, whole => by
      rw [Stmt.appearances, List.forall_mem_append, List.forall_mem_append] at undotted
      obtain ⟨between, part, last, alternate', yields, ends, ends', rfl⟩ :=
        Stmt.ends_branch.mp whole
      obtain ⟨follows, plain⟩ :=
        follows_condition proper plain hosts (Appearance.undotted_ofMentions undotted.1) yields
      have hosts : between.scopes.Hosts hidden := (stays_condition yields).scopes ▸ hosts
      obtain ⟨follows', plain⟩ := Stmt.follows_walkAll proper body parsed undotted.2.1
        plain.push hosts.push rfl ends
      have left : last.pop.scopes = between.scopes := (Stmt.forward_block ends hosts.sane).2
      obtain ⟨follows'', plain⟩ := Alternate.follows_walk proper alternate parsed' undotted.2.2
        plain.pop (left ▸ hosts) ends'
      exact ⟨Stmt.ends_branch.mpr ⟨_, _, _, _, follows, follows', follows'', rfl⟩, plain⟩
  | .loop condition body, hidden, _, _, _, parsed, undotted, plain, hosts, _, whole => by
      rw [Stmt.appearances, List.forall_mem_append] at undotted
      obtain ⟨between, part, last, yields, ends, rfl, rfl⟩ := Stmt.ends_loop.mp whole
      obtain ⟨follows, plain⟩ :=
        follows_condition proper plain hosts (Appearance.undotted_ofMentions undotted.1) yields
      have hosts : between.scopes.Hosts hidden := (stays_condition yields).scopes ▸ hosts
      obtain ⟨follows', plain⟩ := Stmt.follows_walkAll proper body parsed undotted.2
        plain.push hosts.push rfl ends
      exact ⟨Stmt.ends_loop.mpr ⟨_, _, _, follows, follows', rfl, rfl⟩, plain.pop⟩
  | .switch subject arms, hidden, _, _, _, parsed, undotted, plain, hosts, _, whole => by
      rw [Stmt.appearances, List.forall_mem_append] at undotted
      obtain ⟨term, between, arms', yields, ends, rfl⟩ := Stmt.ends_switch.mp whole
      obtain ⟨follows, plain⟩ :=
        subject.follows_infer proper plain hosts (Appearance.undotted_ofMentions undotted.1) yields
      have hosts : between.scopes.Hosts hidden := (Expr.stays_infer _ yields).scopes ▸ hosts
      obtain ⟨follows', plain⟩ :=
        Arm.follows_walkAll proper _ arms parsed undotted.2 plain hosts ends
      exact ⟨Stmt.ends_switch.mpr ⟨term, _, _, follows, follows', rfl⟩, plain⟩
termination_by structural part => part

theorem Alternate.follows_walk (proper : qualifier.Proper) : ∀ (alternate : Alternate)
    {hidden : List String} {engine engine' : Engine} {part : Alternate}, alternate.Parsed →
      (∀ appearance ∈ alternate.appearances hidden, SmallLang.Undotted appearance.name) →
      engine.Plain → engine.scopes.Hosts hidden → alternate.walk.Ends engine part engine' →
      (alternate.qualify qualifier hidden).walk.Ends (engine.qualify qualifier)
        (part.qualify qualifier hidden) (engine'.qualify qualifier) ∧ engine'.Plain
  | .none, _, _, _, _, _, _, plain, _, whole => by
      obtain ⟨rfl, rfl⟩ := Alternate.ends_none.mp whole
      exact ⟨Alternate.ends_none.mpr ⟨rfl, rfl⟩, plain⟩
  | .elseBranch condition body alternate, hidden, _, _, _, ⟨parsed, parsed'⟩, undotted, plain,
      hosts, whole => by
      rw [Alternate.appearances, List.forall_mem_append, List.forall_mem_append] at undotted
      obtain ⟨between, part, last, alternate', yields, ends, ends', rfl⟩ :=
        Alternate.ends_elseBranch.mp whole
      obtain ⟨follows, plain⟩ :=
        follows_condition proper plain hosts (Appearance.undotted_ofMentions undotted.1) yields
      have hosts : between.scopes.Hosts hidden := (stays_condition yields).scopes ▸ hosts
      obtain ⟨follows', plain⟩ := Stmt.follows_walkAll proper body parsed undotted.2.1
        plain.push hosts.push rfl ends
      have left : last.pop.scopes = between.scopes := (Stmt.forward_block ends hosts.sane).2
      obtain ⟨follows'', plain⟩ := Alternate.follows_walk proper alternate parsed' undotted.2.2
        plain.pop (left ▸ hosts) ends'
      exact ⟨Alternate.ends_elseBranch.mpr ⟨_, _, _, _, follows, follows', follows'', rfl⟩, plain⟩
  | .otherwise body, _, _, _, _, parsed, undotted, plain, hosts, whole => by
      obtain ⟨part, last, ends, rfl, rfl⟩ := Alternate.ends_otherwise.mp whole
      obtain ⟨follows, plain⟩ := Stmt.follows_walkAll proper body parsed undotted
        plain.push hosts.push rfl ends
      exact ⟨Alternate.ends_otherwise.mpr ⟨_, _, follows, rfl, rfl⟩, plain.pop⟩
termination_by structural part => part

theorem Arm.follows_walk (proper : qualifier.Proper) (subject : Option Term) : ∀ (arm : Arm)
    {hidden : List String} {engine engine' : Engine} {part : Arm}, arm.Parsed →
      (∀ appearance ∈ arm.appearances hidden, SmallLang.Undotted appearance.name) →
      engine.Plain → engine.scopes.Hosts hidden → (arm.walk subject).Ends engine part engine' →
      ((arm.qualify qualifier hidden).walk subject).Ends (engine.qualify qualifier)
        (part.qualify qualifier hidden) (engine'.qualify qualifier) ∧ engine'.Plain
  | .value pattern body, hidden, _, _, _, parsed, undotted, plain, hosts, whole => by
      rw [Arm.appearances, List.forall_mem_append] at undotted
      obtain ⟨between, part, last, yields, ends, rfl, rfl⟩ := Arm.ends_value.mp whole
      obtain ⟨follows, plain⟩ :=
        follows_pattern proper plain hosts subject (Appearance.undotted_ofMentions undotted.1)
          yields
      have hosts : between.scopes.Hosts hidden := (stays_pattern yields).scopes ▸ hosts
      obtain ⟨follows', plain⟩ := Stmt.follows_walkAll proper body parsed undotted.2
        plain.push hosts.push rfl ends
      exact ⟨Arm.ends_value.mpr ⟨_, _, _, follows, follows', rfl, rfl⟩, plain.pop⟩
  | .otherwise body, _, _, _, _, parsed, undotted, plain, hosts, whole => by
      obtain ⟨part, last, ends, rfl, rfl⟩ := Arm.ends_otherwise.mp whole
      obtain ⟨follows, plain⟩ := Stmt.follows_walkAll proper body parsed undotted
        plain.push hosts.push rfl ends
      exact ⟨Arm.ends_otherwise.mpr ⟨_, _, follows, rfl, rfl⟩, plain.pop⟩
termination_by structural part => part

theorem Stmt.follows_walkAll (proper : qualifier.Proper) : ∀ (body : List Stmt)
    {hidden : List String}, Stmt.AllParsed body →
      (∀ appearance ∈ Stmt.allAppearances hidden body, SmallLang.Undotted appearance.name) →
      ∀ {engine engine' : Engine} {part : List Stmt}, engine.Plain →
      engine.scopes.Hosts hidden → engine.scopes.isRoot = false →
      (Stmt.walkAll body).Ends engine part engine' →
      (Stmt.walkAll (Stmt.qualifyAll qualifier hidden body)).Ends (engine.qualify qualifier)
        (Stmt.qualifyAll qualifier hidden part) (engine'.qualify qualifier) ∧ engine'.Plain
  | [], _, _, _, _, _, _, plain, _, _, whole => by
      obtain ⟨rfl, rfl⟩ := Stmt.ends_nil.mp whole
      exact ⟨Stmt.ends_nil.mpr ⟨rfl, rfl⟩, plain⟩
  | first :: rest, _, ⟨parsed, parsed'⟩, undotted, engine, _, _, plain, hosts, inner, whole => by
      obtain ⟨undotted, undotted'⟩ := List.forall_mem_append.mp undotted
      obtain ⟨first', between, rest', ends, ends', rfl⟩ := Stmt.ends_cons.mp whole
      have passes := Stmt.passes_walk first ends hosts.sane
      obtain ⟨_, _, grows⟩ := passes.grows
      have hosts' := Stmt.hosts_of_walk parsed (Stmt.undotted_declared undotted) hosts ends
      rw [Scopes.within_of_not_isRoot inner] at hosts'
      obtain ⟨follows, plain⟩ :=
        Stmt.follows_walk proper first parsed undotted plain hosts (fun _ => inner) ends
      obtain ⟨follows', plain⟩ := Stmt.follows_walkAll proper rest parsed' undotted' plain hosts'
        (grows.isRoot.trans inner) ends'
      refine ⟨Stmt.ends_cons.mpr ⟨_, _, _, follows, follows', ?_⟩, plain⟩
      rw [Stmt.qualifyAll, passes.alike.declared?_eq]
termination_by structural part => part

theorem Arm.follows_walkAll (proper : qualifier.Proper) (subject : Option Term) :
    ∀ (arms : List Arm) {hidden : List String} {engine engine' : Engine} {part : List Arm},
      Arm.AllParsed arms →
      (∀ appearance ∈ Arm.allAppearances hidden arms, SmallLang.Undotted appearance.name) →
      engine.Plain → engine.scopes.Hosts hidden →
      (Arm.walkAll subject arms).Ends engine part engine' →
      (Arm.walkAll subject (Arm.qualifyAll qualifier hidden arms)).Ends (engine.qualify qualifier)
        (Arm.qualifyAll qualifier hidden part) (engine'.qualify qualifier) ∧ engine'.Plain
  | [], _, _, _, _, _, _, plain, _, whole => by
      obtain ⟨rfl, rfl⟩ := Arm.ends_nil.mp whole
      exact ⟨Arm.ends_nil.mpr ⟨rfl, rfl⟩, plain⟩
  | first :: rest, _, engine, _, _, ⟨parsed, parsed'⟩, undotted, plain, hosts, whole => by
      obtain ⟨undotted, undotted'⟩ := List.forall_mem_append.mp undotted
      obtain ⟨first', between, rest', ends, ends', rfl⟩ := Arm.ends_cons.mp whole
      have same := (Arm.forward_walk ends hosts.sane).2
      obtain ⟨follows, plain⟩ :=
        Arm.follows_walk proper subject first parsed undotted plain hosts ends
      obtain ⟨follows', plain⟩ :=
        Arm.follows_walkAll proper subject rest parsed' undotted' plain (same ▸ hosts) ends'
      exact ⟨Arm.ends_cons.mpr ⟨_, _, _, follows, follows', rfl⟩, plain⟩
termination_by structural part => part

end

end SmallLang
