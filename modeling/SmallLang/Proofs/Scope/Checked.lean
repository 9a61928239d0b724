import SmallLang.Proofs.Inference.Program
import SmallLang.Proofs.Scope.Clean
import SmallLang.Proofs.Scope.Scoping
import SmallLang.Proofs.Typing.Names

/-!
# Checking a well-scoped program

Where every name is visible and every declaration has its type, a check goes on to the end and
complains of nothing but types that do not fit.
-/

set_option autoImplicit false

namespace SmallLang

open Check

theorem Scopes.unseen_insert {scopes : Scopes} {Γ : Env Unit} {name : String} {symbol : Symbol}
    (unseen : ∀ other, Γ.Free other → scopes.innermost.lookup other = none) :
    ∀ other, (Γ.declare name ()).Free other →
      (scopes.insert name symbol).innermost.lookup other = none := by
  intro other free
  have vacant := free.2
  rw [Env.block_declare] at vacant
  rw [lookup_innermost_insert]
  by_cases same : other = name
  · simp [same] at vacant
  · rw [if_neg same] at vacant ⊢
    exact unseen other ⟨free.1, vacant⟩

namespace Check

/-- A context has every visible name, and inside a block nothing that would be in the way of a
declaration. -/
structure Context.Shows (context : Context) (root : Bool) (Γ : Env Unit) : Prop where
  sane : context.scopes.Sane
  isRoot : context.scopes.isRoot = root
  found : ∀ name, Γ.Sees name → context.Finds name
  unseen : root = false → ∀ name, Γ.Free name → context.scopes.innermost.lookup name = none

namespace Context.Shows

variable {context context' : Context} {root : Bool} {Γ : Env Unit} {name : String}

theorem congr (shows : context.Shows root Γ) (scopes : context'.scopes = context.scopes) :
    context'.Shows root Γ where
  sane := scopes ▸ shows.sane
  isRoot := scopes ▸ shows.isRoot
  found name sees := by
    rw [Finds, scopes]
    exact shows.found name sees
  unseen inner name free := by
    rw [scopes]
    exact shows.unseen inner name free

theorem findsAll (shows : context.Shows root Γ) {names : List String} (sees : Γ.SeesAll names) :
    context.FindsAll names :=
  fun name present => shows.found name (sees name present)

theorem enter (shows : context.Shows root Γ) : context.enter.Shows false Γ.enter where
  sane := shows.sane.push
  isRoot := rfl
  found name sees := by
    obtain ⟨symbol, found⟩ := shows.found name (Env.sees_enter.mp sees)
    exact ⟨symbol, (Scopes.resolve?_push context.scopes name).trans found⟩
  unseen _ _ _ := rfl

theorem insert (shows : context.Shows false Γ) {symbol : Symbol}
    (notType : Ty.isTypeName name = false) (new : ∀ type, symbol ≠ .builtin type) :
    { context with scopes := context.scopes.insert name symbol }.Shows false
      (Γ.declare name ()) where
  sane := shows.sane.insert notType new
  isRoot := (Scopes.isRoot_insert _ _ _).trans shows.isRoot
  found other sees := by
    rw [Finds, Scopes.resolve?_insert]
    by_cases same : other = name
    · exact ⟨symbol, if_pos same⟩
    · rw [if_neg same]
      exact shows.found other ((Env.sees_declare.mp sees).resolve_left same)
  unseen inner := Scopes.unseen_insert (shows.unseen inner)

/-- In the root scope, what is declared ahead of its turn is visible already. -/
theorem announced (shows : context.Shows true Γ) (sees : Γ.Sees name) :
    context.Shows true (Γ.declare name ()) where
  sane := shows.sane
  isRoot := shows.isRoot
  found other sees' := by
    cases Env.sees_declare.mp sees' with
    | inl same => exact shows.found other (same ▸ sees)
    | inr before => exact shows.found other before
  unseen inner := Bool.noConfusion inner

theorem define (shows : context.Shows false Γ) (free : Γ.Free name) {symbol : Symbol}
    (new : ∀ type, symbol ≠ .builtin type) (position : Position) :
    Clean (context.define name symbol position) (·.Shows false (Γ.declare name ())) := by
  have defined : context.scopes.define name symbol position =
      .ok (context.scopes.insert name symbol) :=
    Scopes.define_eq_ok_iff.mpr ⟨free.1, shows.unseen rfl name free, rfl⟩
  rw [Context.define, defined]
  exact clean_pure (shows.insert free.1 new)

end Context.Shows

section Parts

variable {context : Context} {root : Bool} {Γ : Env Unit}

theorem clean_parameters : ∀ {parameters : List Parameter} {context : Context} {Γ Γ' : Env Unit},
    Parameter.Scoped Γ parameters Γ' → context.Shows false Γ →
      Clean (Check.parameters context parameters) (·.Shows false Γ')
  | [], _, _, _, .nil, shows => clean_pure shows
  | param :: rest, context, Γ, _, .cons isType free later, shows => by
      obtain ⟨type, known⟩ := Option.isSome_iff_exists.mp isType
      have first : Clean (parameter context param) (·.Shows false (Γ.declare param.name ())) := by
        apply (clean_ofExcept (shows.sane.typeOf_eq_ok_iff.mpr known)).andThen
        intro type
        exact shows.define free (fun _ same => Symbol.noConfusion same) _
      exact first.bind fun _ shown => clean_parameters later shown

theorem clean_condition {e : Expr} (finds : context.FindsAll e.names) :
    Clean (condition context e) fun _ => True :=
  (e.clean_check finds).andThen fun type =>
    clean_requireSame typeMismatch_ofKnownTypes _ type _

theorem clean_pattern {e : Expr} (finds : context.FindsAll e.names) (subject : Option Ty) :
    Clean (pattern context subject e) fun _ => True :=
  (e.clean_check finds).andThen fun type =>
    clean_requireSame typeMismatch_ofKnownTypes subject type _

theorem clean_returns : ∀ {value : Option Expr}, context.FindsAll (Expr.names? value) →
    Clean (returns context value) fun _ => True
  | none, _ => clean_requireSame typeMismatch_ofKnownTypes _ _ _
  | some e, finds =>
      (e.clean_check finds).andThen fun type =>
        clean_requireSame typeMismatch_ofKnownTypes _ type _

theorem clean_check? : ∀ {value : Option Expr}, context.FindsAll (Expr.names? value) →
    Clean (Expr.check? context value) fun _ => True
  | none, _ => clean_pure trivial
  | some e, finds => e.clean_check finds

end Parts

end Check

section Declarations

variable {context : Context} {root : Bool} {Γ : Env Unit}

theorem type?_isSome_of_notes {note : Option Term} (notes : Notes Term.IsType note) :
    (note.bind Term.type?).isSome := by
  obtain ⟨term, rfl, isType⟩ := notes
  cases term with
  | concrete => rfl
  | pending => cases isType

/-- What inference has noted in a variable with a type or a value is a type. -/
theorem Variable.resolvedType?_isSome {decl : Variable}
    (founded : decl.typeName.isSome ∨ decl.value.isSome)
    (noted : (Stmt.declare decl).Noted Term.IsType) : decl.resolvedType?.isSome := by
  cases founded with
  | inl typed =>
      obtain ⟨typeName, written⟩ := Option.isSome_iff_exists.mp typed
      obtain ⟨type, _, resolved⟩ := noted.1 typeName written
      rw [resolvedType?, resolved]
      rfl
  | inr valued => exact type?_isSome_of_notes (noted.2 valued)

theorem Scopes.Sane.exists_typeOf? {scopes : Scopes} (sane : scopes.Sane)
    {written : Option TypeName} (known : ∀ typeName ∈ written, typeName.type?.isSome) :
    ∃ found, scopes.typeOf? written = .ok found :=
  ⟨_, sane.typeOf?_eq_ok_iff.mpr ⟨known, rfl⟩⟩

theorem Check.clean_declaration {decl : Variable} (shows : context.Shows root Γ)
    (founded : decl.typeName.isSome ∨ decl.value.isSome)
    (written : ∀ typeName ∈ decl.typeName, typeName.type?.isSome)
    (sees : Γ.SeesAll (Expr.names? decl.value)) (free : Γ.Free decl.name)
    (noted : (Stmt.declare decl).Noted Term.IsType) (declared : root = true → Γ.Sees decl.name) :
    Clean (declaration context decl) (·.Shows root (Γ.declare decl.name ())) := by
  have anchored : { context with anchor := decl.position }.Shows root Γ := shows.congr rfl
  obtain ⟨type, resolved⟩ :=
    Option.isSome_iff_exists.mp (Variable.resolvedType?_isSome founded noted)
  have given : ¬ (decl.typeName.isNone && decl.value.isNone) = true := by
    rw [Bool.and_eq_true, Option.isNone_iff_eq_none, Option.isNone_iff_eq_none]
    intro missing
    rw [missing.1, missing.2] at founded
    simp at founded
  unfold declaration
  rw [if_neg given]
  obtain ⟨annotated, isType⟩ := shows.sane.exists_typeOf? written
  apply (clean_ofExcept isType).andThen
  intro annotated
  apply (clean_check? (anchored.findsAll sees)).andThen
  intro value
  apply (clean_requireSame typeMismatch_ofKnownTypes _ _ _).andThen
  intro _
  unfold declareVariable
  cases root with
  | true =>
      have typed : decl.isTyped = true := by
        rw [Variable.isTyped, resolved]
        exact Bool.or_true _
      rw [anchored.isRoot, typed]
      exact clean_pure (anchored.announced (declared rfl))
  | false =>
      rw [anchored.isRoot]
      have expected : ∃ type, variableType { context with anchor := decl.position } decl
          (annotated.or decl.resolvedType?) value = .ok type := by
        rw [variableType, resolved]
        cases annotated with
        | none => exact ⟨type, rfl⟩
        | some type => exact ⟨type, rfl⟩
      obtain ⟨type, known⟩ := expected
      apply (clean_ofExcept known).andThen
      intro type
      exact anchored.define free (fun _ same => Symbol.noConfusion same) _

theorem FunctionHeader.exists_returnType {header : FunctionHeader} {scopes : Scopes}
    (sane : scopes.Sane) (written : ∀ typeName ∈ header.returns, typeName.type?.isSome)
    (noted : Notes Term.IsType header.resolved) :
    ∃ type, header.returnType scopes = .ok type := by
  unfold returnType
  cases stated : header.returns with
  | none =>
      obtain ⟨type, resolved⟩ := Option.isSome_iff_exists.mp (type?_isSome_of_notes noted)
      exact ⟨type, by rw [show header.resolvedType? = some type from resolved]⟩
  | some typeName =>
      obtain ⟨type, known⟩ := Option.isSome_iff_exists.mp (written typeName stated)
      exact ⟨type, sane.typeOf_eq_ok_iff.mpr known⟩

theorem FunctionHeader.exists_symbol {header : FunctionHeader} {scopes : Scopes}
    (sane : scopes.Sane) (known : header.parameterTypes?.isSome)
    (written : ∀ typeName ∈ header.returns, typeName.type?.isSome)
    (noted : Notes Term.IsType header.resolved) :
    ∃ parameters result, header.symbol scopes = .ok (.function parameters result) := by
  obtain ⟨parameters, areTypes⟩ := Option.isSome_iff_exists.mp known
  obtain ⟨type, returns⟩ := exists_returnType sane written noted
  refine ⟨parameters, .concrete type, ?_⟩
  unfold symbol
  rw [sane.typesOf_eq_ok_iff.mpr areTypes, returns]
  rfl

theorem Check.clean_function {header : FunctionHeader} (shows : context.Shows root Γ)
    (known : header.parameterTypes?.isSome)
    (written : ∀ typeName ∈ header.returns, typeName.type?.isSome) (free : Γ.Free header.name)
    (noted : Notes Term.IsType header.resolved) (declared : root = true → Γ.Sees header.name) :
    Clean (Check.function context header) (·.Shows root (Γ.declare header.name ())) := by
  have anchored : { context with anchor := header.position }.Shows root Γ := shows.congr rfl
  unfold Check.function
  cases root with
  | true =>
      rw [if_pos anchored.isRoot]
      exact clean_pure (anchored.announced (declared rfl))
  | false =>
      rw [if_neg (by rw [anchored.isRoot]; exact Bool.noConfusion)]
      obtain ⟨parameters, result, symbol⟩ := header.exists_symbol shows.sane known written noted
      apply (clean_ofExcept symbol).bind
      intro _ same
      rw [same]
      exact anchored.define free (fun _ same => Symbol.noConfusion same) _

theorem Check.clean_functionBody {header : FunctionHeader} {inside : Env Unit}
    (shows : context.Shows root Γ)
    (written : ∀ typeName ∈ header.returns, typeName.type?.isSome)
    (noted : Notes Term.IsType header.resolved)
    (taken : Parameter.Scoped Γ.enter header.parameters inside) :
    Clean (functionBody context header) (·.Shows false inside) := by
  obtain ⟨type, returns⟩ := header.exists_returnType shows.sane written noted
  apply (clean_ofExcept returns).andThen
  intro result
  exact clean_parameters taken (shows.enter.congr rfl)

end Declarations

section Statements

mutual

/-- The check of a well-scoped statement with types in all its declarations finds nothing wrong
with names. -/
theorem Stmt.clean_check : ∀ {s : Stmt} {context : Context} {root : Bool} {Γ Γ' : Env Unit},
    s.Scoped Γ Γ' → s.Noted Term.IsType → context.Shows root Γ →
      (root = true → Γ.SeesAll s.declares) → Clean (s.check context) (·.Shows root Γ')
  | .expr e, _, _, _, _, .expr sees, _, shows, _ =>
      (e.clean_check (shows.findsAll sees)).andThen fun _ => clean_pure shows
  | .comment _, _, _, _, _, .comment _, _, shows, _ => clean_pure shows
  | .use _, _, _, _, _, .use _, _, shows, _ => clean_pure shows
  | .returns _, _, _, _, _, .returns sees, _, shows, _ =>
      (clean_returns (shows.findsAll sees)).andThen fun _ => clean_pure shows
  | .declare decl, _, _, _, _, .declare founded written sees free, noted, shows, declared =>
      clean_declaration shows founded written sees free noted fun root =>
        declared root decl.name List.mem_cons_self
  | .function header none, _, _, _, _, .prototype known written free, noted, shows, declared =>
      clean_function shows known written free noted.1 fun root =>
        declared root header.name List.mem_cons_self
  | .function header (some body), _, _, _, _, .function known written free taken valid, noted,
      shows, declared => by
      have announced := clean_function shows known written free noted.1 fun root =>
        declared root header.name List.mem_cons_self
      apply announced.bind
      intro context shown
      apply (clean_functionBody shown written noted.1 taken).bind
      intro inside opened
      apply (Stmt.clean_checkAll valid noted.2.2.2 opened Bool.noConfusion).andThen
      intro last
      exact clean_pure (shown.congr rfl)
  | .branch condition body alternate, _, _, _, _, .branch sees valid others, noted, shows, _ => by
      apply (clean_condition (shows.findsAll sees)).andThen
      intro _
      apply (Stmt.clean_checkAll valid noted.1 shows.enter Bool.noConfusion).andThen
      intro last
      exact Alternate.clean_check others noted.2 (shows.congr rfl)
  | .loop condition body, _, _, _, _, .loop sees valid, noted, shows, _ => by
      apply (clean_condition (shows.findsAll sees)).andThen
      intro _
      apply (Stmt.clean_checkAll valid noted shows.enter Bool.noConfusion).andThen
      intro last
      exact clean_pure (shows.congr rfl)
  | .switch subject arms, _, _, _, _, .switch sees valid, noted, shows, _ => by
      apply (subject.clean_check (shows.findsAll sees)).andThen
      intro type
      exact Arm.clean_checkAll valid noted shows type
  | .merged body, _, _, _, _, .merged valid, noted, shows, declared =>
      Stmt.clean_checkAll valid noted shows declared
termination_by structural part => part

theorem Alternate.clean_check : ∀ {alternate : Alternate} {context : Context} {root : Bool}
    {Γ : Env Unit}, alternate.Scoped Γ → alternate.Noted Term.IsType → context.Shows root Γ →
      Clean (alternate.check context) (·.Shows root Γ)
  | .none, _, _, _, .none, _, shows => clean_pure shows
  | .elseBranch condition body alternate, _, _, _, .elseBranch sees valid others, noted, shows => by
      apply (clean_condition (shows.findsAll sees)).andThen
      intro _
      apply (Stmt.clean_checkAll valid noted.1 shows.enter Bool.noConfusion).andThen
      intro last
      exact Alternate.clean_check others noted.2 (shows.congr rfl)
  | .otherwise body, _, _, _, .otherwise valid, noted, shows => by
      apply (Stmt.clean_checkAll valid noted shows.enter Bool.noConfusion).andThen
      intro last
      exact clean_pure (shows.congr rfl)
termination_by structural part => part

theorem Arm.clean_check : ∀ {arm : Arm} {context : Context} {root : Bool} {Γ : Env Unit},
    arm.Scoped Γ → arm.Noted Term.IsType → context.Shows root Γ → ∀ (subject : Option Ty),
      Clean (arm.check context subject) (·.Shows root Γ)
  | .value pattern body, _, _, _, .value sees valid, noted, shows, subject => by
      apply (clean_pattern (shows.findsAll sees) subject).andThen
      intro _
      apply (Stmt.clean_checkAll valid noted shows.enter Bool.noConfusion).andThen
      intro last
      exact clean_pure (shows.congr rfl)
  | .otherwise body, _, _, _, .otherwise valid, noted, shows, _ => by
      apply (Stmt.clean_checkAll valid noted shows.enter Bool.noConfusion).andThen
      intro last
      exact clean_pure (shows.congr rfl)
termination_by structural part => part

theorem Stmt.clean_checkAll : ∀ {body : List Stmt} {context : Context} {root : Bool}
    {Γ Γ' : Env Unit}, Stmt.AllScoped Γ body Γ' → Stmt.AllNoted Term.IsType body →
      context.Shows root Γ → (root = true → Γ.SeesAll (Stmt.allDeclares body)) →
      Clean (Stmt.checkAll context body) (·.Shows root Γ')
  | [], _, _, _, _, .nil, _, shows, _ => clean_pure shows
  | first :: rest, _, _, _, _, .cons valid later, noted, shows, declared => by
      apply (Stmt.clean_check valid noted.1 shows fun root =>
        (Env.seesAll_append.mp (declared root)).1).bind
      intro context shown
      refine Stmt.clean_checkAll later noted.2 shown ?_
      intro root name present
      exact valid.widens.sees ((Env.seesAll_append.mp (declared root)).2 name present)
termination_by structural part => part

theorem Arm.clean_checkAll : ∀ {arms : List Arm} {context : Context} {root : Bool}
    {Γ : Env Unit}, Arm.AllScoped Γ arms → Arm.AllNoted Term.IsType arms →
      context.Shows root Γ → ∀ (subject : Option Ty),
      Clean (Arm.checkAll context subject arms) (·.Shows root Γ)
  | [], _, _, _, .nil, _, shows, _ => clean_pure shows
  | first :: rest, _, _, _, .cons valid later, noted, shows, subject => by
      apply (Arm.clean_check valid noted.1 shows subject).bind
      intro context shown
      exact Arm.clean_checkAll later noted.2 shown subject
termination_by structural part => part

end

end Statements

section Hoisting

/-- While declarations are taken ahead of their turn, the root scope has those of the block, and
nothing else that would be in their way. -/
structure Check.Context.Opens (context : Context) (Γ : Env Unit) : Prop where
  sane : context.scopes.Sane
  isRoot : context.scopes.isRoot = true
  found : ∀ name, Γ.block name = some () → context.Finds name
  unseen : ∀ name, Γ.Free name → context.scopes.innermost.lookup name = none

variable {context : Context} {Γ : Env Unit}

theorem Check.Context.Opens.define (opens : context.Opens Γ) {name : String}
    (free : Γ.Free name) {symbol : Symbol} (new : ∀ type, symbol ≠ .builtin type)
    (position : Position) :
    Clean (context.define name symbol position) (·.Opens (Γ.declare name ())) := by
  have defined : context.scopes.define name symbol position =
      .ok (context.scopes.insert name symbol) :=
    Scopes.define_eq_ok_iff.mpr ⟨free.1, opens.unseen name free, rfl⟩
  rw [Context.define, defined]
  refine clean_pure ⟨opens.sane.insert free.1 new, ?_, ?_, Scopes.unseen_insert opens.unseen⟩
  · exact (Scopes.isRoot_insert _ _ _).trans opens.isRoot
  · intro other declared
    rw [Finds, Scopes.resolve?_insert]
    rw [Env.block_declare] at declared
    by_cases same : other = name
    · exact ⟨symbol, if_pos same⟩
    · rw [if_neg same] at declared ⊢
      exact opens.found other declared

theorem Check.clean_hoist_function {header : FunctionHeader} (opens : context.Opens Γ)
    (known : header.parameterTypes?.isSome)
    (written : ∀ typeName ∈ header.returns, typeName.type?.isSome) (free : Γ.Free header.name)
    (noted : Notes Term.IsType header.resolved) (body : Option (List Stmt)) :
    Clean ((Stmt.function header body).hoist context) (·.Opens (Γ.declare header.name ())) := by
  obtain ⟨parameters, result, symbol⟩ := header.exists_symbol opens.sane known written noted
  apply (clean_ofExcept symbol).bind
  intro _ same
  rw [same]
  exact opens.define free (fun _ same => Symbol.noConfusion same) _

theorem Check.clean_hoist_variable {decl : Variable} (opens : context.Opens Γ)
    (founded : decl.typeName.isSome ∨ decl.value.isSome)
    (written : ∀ typeName ∈ decl.typeName, typeName.type?.isSome) (free : Γ.Free decl.name)
    (noted : (Stmt.declare decl).Noted Term.IsType) :
    Clean ((Stmt.declare decl).hoist context) (·.Opens (Γ.declare decl.name ())) := by
  obtain ⟨type, resolved⟩ :=
    Option.isSome_iff_exists.mp (Variable.resolvedType?_isSome founded noted)
  have typed : decl.isTyped = true := by
    rw [Variable.isTyped, resolved]
    exact Bool.or_true _
  have declared : ∃ type, decl.declaredType context.scopes = .ok type := by
    unfold Variable.declaredType
    cases stated : decl.typeName with
    | none => exact ⟨type, by rw [resolved]⟩
    | some typeName =>
        obtain ⟨type, known⟩ := Option.isSome_iff_exists.mp (written typeName stated)
        exact ⟨type, opens.sane.typeOf_eq_ok_iff.mpr known⟩
  obtain ⟨type, declared⟩ := declared
  rw [Stmt.hoist, if_pos typed]
  apply (clean_ofExcept declared).andThen
  intro type
  exact opens.define free (fun _ same => Symbol.noConfusion same) _

mutual

theorem Stmt.clean_hoist : ∀ {s : Stmt} {context : Context} {Γ Γ' : Env Unit}, s.Scoped Γ Γ' →
    s.Noted Term.IsType → context.Opens Γ → Clean (s.hoist context) (·.Opens Γ')
  | .expr _, _, _, _, .expr _, _, opens | .comment _, _, _, _, .comment _, _, opens
  | .use _, _, _, _, .use _, _, opens | .returns _, _, _, _, .returns _, _, opens
  | .branch .., _, _, _, .branch .., _, opens | .loop .., _, _, _, .loop .., _, opens
  | .switch .., _, _, _, .switch .., _, opens => clean_pure opens
  | .declare _, _, _, _, .declare founded written _ free, noted, opens =>
      clean_hoist_variable opens founded written free noted
  | .function _ none, _, _, _, .prototype known written free, noted, opens =>
      clean_hoist_function opens known written free noted.1 none
  | .function _ (some body), _, _, _, .function known written free _ _, noted, opens =>
      clean_hoist_function opens known written free noted.1 (some body)
  | .merged _, _, _, _, .merged valid, noted, opens => Stmt.clean_hoistAll valid noted opens
termination_by structural s => s

theorem Stmt.clean_hoistAll : ∀ {body : List Stmt} {context : Context} {Γ Γ' : Env Unit},
    Stmt.AllScoped Γ body Γ' → Stmt.AllNoted Term.IsType body → context.Opens Γ →
      Clean (Stmt.hoistAll context body) (·.Opens Γ')
  | [], _, _, _, .nil, _, opens => clean_pure opens
  | _ :: _, _, _, _, .cons valid later, noted, opens =>
      (Stmt.clean_hoist valid noted.1 opens).bind fun _ shown =>
        Stmt.clean_hoistAll later noted.2 shown
termination_by structural body => body

end

theorem Check.Context.opens_start (names : List String) :
    Context.start.Opens (.announcingNames names) where
  sane := Scopes.sane_start
  isRoot := rfl
  found _ declared := nomatch declared
  unseen name free := by
    have unknown : Ty.ofName? name = none :=
      Option.isNone_iff_eq_none.mp (Option.isSome_eq_false_iff.mp free.1)
    rw [Scopes.innermost_of_isRoot rfl]
    change Scopes.start.resolve? name = none
    rw [Scopes.resolve?_start, unknown]
    rfl

/-- When all declarations are taken, everything that they announce is there. -/
theorem Check.Context.Opens.shows {names : List String} {last : Env Unit}
    (opens : context.Opens last) (widens : (Env.announcingNames names).Widens last names) :
    context.Shows true (.announcingNames names) where
  sane := opens.sane
  isRoot := opens.isRoot
  found name sees := by
    cases sees with
    | inl isType =>
        obtain ⟨type, known⟩ := Option.isSome_iff_exists.mp isType
        exact ⟨.builtin type, (opens.sane name type).mpr known⟩
    | inr announced =>
        have present : name ∈ names := by
          by_contra missing
          simp [Env.lookup, Env.announcingNames, missing] at announced
        apply opens.found name
        rw [widens.block, if_pos present]
  unseen inner := Bool.noConfusion inner

end Hoisting

end SmallLang
