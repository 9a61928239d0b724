import SmallLang.Proofs.Inference.Sparing
import SmallLang.Proofs.Scope.Checked

/-!
# Walking without placeholders

The walk over a well-scoped program with types in all its declarations adds no placeholder,
wherever it stops.
-/

set_option autoImplicit false

namespace SmallLang

section Statements

open Infer

variable {engine : Engine} {Γ : Env Unit}

theorem Infer.Decides.sure {work : Infer Term} (decides : Decides work engine)
    (sure : engine.Sure Γ) : Spares work engine fun _ engine' => engine'.Sure Γ :=
  decides.imp fun _ _ given => given.2 ▸ sure

theorem Infer.spares_condition (sure : engine.Sure Γ) {e : Expr} (sees : Γ.SeesAll e.names) :
    Spares (condition e) engine fun _ engine' => engine'.Sure Γ := by
  apply (e.decides_infer sure sees).bind
  intro term isType
  apply (spares_constrain sure.empty isType (Term.isType_concrete .bool)).imp
  intro _ last same
  rw [same]
  exact sure

theorem Infer.spares_pattern (sure : engine.Sure Γ) {e : Expr} (sees : Γ.SeesAll e.names)
    {subject : Option Term} (given : ∀ term ∈ subject, term.IsType) :
    Spares (pattern subject e) engine fun _ engine' => engine'.Sure Γ := by
  apply (e.decides_infer sure sees).bind
  intro term isType
  cases subject with
  | none => exact spares_pure sure.empty sure
  | some wanted =>
      apply (spares_constrain sure.empty (given wanted rfl) isType).imp
      intro _ last same
      rw [same]
      exact sure

theorem Infer.spares_value? (sure : engine.Sure Γ) {value : Option Expr}
    (sees : Γ.SeesAll (Expr.names? value)) :
    Spares (value? value) engine fun found engine' =>
      (found.isSome = value.isSome ∧ ∀ term ∈ found, term.IsType) ∧ engine' = engine := by
  cases value with
  | none => exact spares_pure sure.empty ⟨⟨rfl, fun _ none => nomatch none⟩, rfl⟩
  | some e =>
      apply (e.decides_infer sure sees).bind
      intro term isType
      refine spares_pure sure.empty ⟨⟨rfl, ?_⟩, rfl⟩
      intro found same
      cases same
      exact isType

theorem Infer.spares_returns (sure : engine.Sure Γ) {value : Option Expr}
    (sees : Γ.SeesAll (Expr.names? value)) :
    Spares (returns value) engine fun _ engine' => engine'.Sure Γ := by
  apply (spares_value? sure sees).bind
  intro found between _ given
  rw [given.2]
  have isType : (found.getD (.concrete .void)).IsType := by
    cases found with
    | none => exact Term.isType_concrete .void
    | some term => exact given.1.2 term rfl
  have returned := sure.addReturn isType
  apply (spares_update returned.empty).bind
  intro _ last empty same
  rw [same]
  exact spares_pure returned.empty returned

theorem Infer.spares_define (sure : engine.Sure Γ) (name : String) {symbol : Symbol} {type : Ty}
    (typed : symbol.term? = some (.concrete type)) (position : Position) :
    Spares (define name symbol position) engine fun _ engine' =>
      engine'.Sure (Γ.declare name ()) := by
  unfold Spares define
  cases defined : engine.scopes.define name symbol position with
  | error error => exact sure.empty
  | ok scopes =>
      obtain ⟨notType, _, rfl⟩ := Scopes.define_eq_ok_iff.mp defined
      have inserted := sure.insert notType typed
      exact ⟨inserted.empty, inserted⟩

theorem Infer.spares_parameter (sure : engine.Sure Γ) (param : Parameter) :
    Spares (parameter param) engine fun _ engine' => engine'.Sure (Γ.declare param.name ()) := by
  apply (spares_ofExcept sure.empty).bind
  intro type between _ given
  rw [given.2]
  have typed : (Symbol.variable (.concrete type) true).term? = some (.concrete type) := rfl
  apply (spares_define sure param.name typed _).bind
  intro _ last empty sure
  exact spares_pure empty sure

theorem Infer.spares_parameters : ∀ {parameters : List Parameter} {engine : Engine}
    {Γ Γ' : Env Unit}, Parameter.Scoped Γ parameters Γ' → engine.Sure Γ →
      Spares (Infer.parameters parameters) engine fun _ engine' => engine'.Sure Γ'
  | [], _, _, _, .nil, sure => spares_pure sure.empty sure
  | param :: rest, engine, Γ, _, .cons _ _ later, sure => by
      apply (spares_parameter sure param).bind
      intro _ between _ sure
      exact Infer.spares_parameters later sure

/-- A term is there, and is a type. -/
theorem Infer.spares_orFresh (empty : engine.table = .empty) {known : Option Term}
    (given : ∃ type, known = some (.concrete type)) :
    Spares (orFresh known) engine fun term engine' =>
      (∃ type, term = .concrete type) ∧ engine' = engine := by
  obtain ⟨type, rfl⟩ := given
  exact spares_pure empty ⟨⟨type, rfl⟩, rfl⟩

theorem Scopes.isSome_of_typeOf? {scopes : Scopes} {written : Option TypeName} {found : Option Ty}
    (known : scopes.typeOf? written = .ok found) : found.isSome = written.isSome := by
  cases written with
  | none =>
      cases known
      rfl
  | some typeName =>
      unfold typeOf? at known
      cases isType : scopes.typeOf typeName with
      | error error => simp [isType] at known
      | ok type =>
          simp only [isType] at known
          cases known
          rfl

theorem Infer.spares_initial (sure : engine.Sure Γ) {decl : Variable}
    (founded : decl.typeName.isSome ∨ decl.value.isSome)
    (sees : Γ.SeesAll (Expr.names? decl.value)) :
    Spares (initial decl) engine fun known engine' =>
      (∃ type, known = some (.concrete type)) ∧ engine'.Sure Γ := by
  have anchored : { engine with anchor := decl.position }.Sure Γ := sure.congr rfl rfl rfl rfl rfl
  apply (spares_update anchored.empty).bind
  intro _ between _ same
  rw [same]
  apply (spares_ofExcept anchored.empty).bind
  intro annotated between _ isType
  rw [isType.2]
  have declares : Engine.Sure { engine with
      anchor := decl.position
      declaring := if engine.scopes.isRoot then some decl.name else engine.declaring } Γ :=
    sure.congr rfl rfl rfl rfl rfl
  have valued : Spares (declaring decl.name (value? decl.value))
      { engine with anchor := decl.position } fun found engine' =>
        (found.isSome = decl.value.isSome ∧ ∀ term ∈ found, term.IsType) ∧ engine'.Sure Γ := by
    apply spares_declaring
    apply (spares_value? declares sees).imp
    intro found last given
    rw [given.2]
    exact ⟨given.1, sure.congr rfl rfl rfl rfl rfl⟩
  apply valued.bind
  intro value last empty given
  refine spares_pure empty ⟨?_, given.2⟩
  cases annotated with
  | some type => exact ⟨type, rfl⟩
  | none =>
      have missing := Scopes.isSome_of_typeOf? isType.1
      rw [← missing] at founded
      have present : value.isSome := given.1.1 ▸ founded.resolve_left Bool.noConfusion
      obtain ⟨term, rfl⟩ := Option.isSome_iff_exists.mp present
      obtain ⟨type, rfl⟩ := (given.1.2 term rfl).exists_type
      exact ⟨type, rfl⟩

theorem Infer.spares_settleForward (sure : engine.Sure Γ) (name : String) (term : Term) :
    Spares (update (·.settleForward name term)) engine fun _ engine' => engine'.Sure Γ :=
  ⟨(sure.settleForward name term).empty, sure.settleForward name term⟩

theorem Infer.spares_declare (sure : engine.Sure Γ) (decl : Variable) {known : Option Term}
    (given : ∃ type, known = some (.concrete type)) :
    Spares (declare decl known) engine fun _ engine' => engine'.Sure (Γ.declare decl.name ()) := by
  apply (spares_orFresh sure.empty given).bind
  intro term between _ found
  rw [found.2]
  obtain ⟨type, rfl⟩ := found.1
  have typed : (Symbol.variable (.concrete type) decl.mutable).term? = some (.concrete type) := rfl
  apply (spares_define sure decl.name typed _).bind
  intro _ last _ sure
  apply (spares_settleForward sure decl.name (.concrete type)).bind
  intro _ final empty settled
  exact spares_pure empty settled

theorem Infer.exists_knownResult {header : FunctionHeader}
    (noted : Notes Term.IsType header.resolved) (declared : Option Ty) :
    ∃ type, knownResult header declared = some (.concrete type) := by
  cases declared with
  | some type => exact ⟨type, rfl⟩
  | none =>
      simp only [knownResult]
      split
      · exact ⟨.void, rfl⟩
      · obtain ⟨term, resolved, isType⟩ := noted
        obtain ⟨type, rfl⟩ := Term.IsType.exists_type isType
        exact ⟨type, by rw [FunctionHeader.resolvedType?, resolved]; rfl⟩

theorem Infer.spares_function (sure : engine.Sure Γ) {header : FunctionHeader}
    (noted : Notes Term.IsType header.resolved) :
    Spares (Infer.function header) engine fun found engine' =>
      found.2.IsType ∧ engine'.Sure (Γ.declare header.name ()) := by
  have anchored : { engine with anchor := header.position }.Sure Γ :=
    sure.congr rfl rfl rfl rfl rfl
  apply (spares_update anchored.empty).bind
  intro _ between _ same
  rw [same]
  apply (spares_ofExcept anchored.empty).bind
  intro parameters between _ given
  rw [given.2]
  apply (spares_ofExcept anchored.empty).bind
  intro declared between _ given
  rw [given.2]
  apply (spares_orFresh anchored.empty (exists_knownResult noted declared)).bind
  intro term between _ found
  rw [found.2]
  obtain ⟨type, rfl⟩ := found.1
  have typed : (Symbol.function parameters (.concrete type)).term? = some (.concrete type) := rfl
  apply (spares_define anchored header.name typed _).bind
  intro _ last _ sure
  apply (spares_settleForward sure header.name (.concrete type)).bind
  intro _ final empty settled
  exact spares_pure empty ⟨Term.isType_concrete type, settled⟩

/-- Where all that a function returns is known, so is its result. -/
theorem Infer.spares_conclusion (sure : engine.Sure Γ) (header : FunctionHeader)
    (declared : Option Ty) {before : Term} (isType : before.IsType) {terms : List Term}
    (areTypes : ∀ term ∈ terms, term.IsType) :
    Spares (conclusion header declared before terms) engine fun _ engine' =>
      engine'.Sure Γ := by
  have found : Decides (result header declared terms) engine := by
    cases declared with
    | some type => exact spares_pure sure.empty ⟨Term.isType_concrete type, rfl⟩
    | none =>
        have none : terms.find? Term.isPending = none :=
          List.find?_eq_none.mpr fun term present => by
            rw [areTypes term present]
            exact Bool.noConfusion
        simp only [result, commonReturn, none]
        split
        · exact spares_pure sure.empty ⟨Term.isType_concrete .void, rfl⟩
        · split
          · exact spares_pure sure.empty ⟨Term.isType_concrete _, rfl⟩
          · exact spares_fail sure.empty
  apply found.bind
  intro after isType'
  rw [isType']
  by_cases same : after = before
  · rw [if_pos same]
    exact spares_pure sure.empty sure
  · rw [if_neg same]
    apply (spares_constrain sure.empty isType isType').bind
    intro _ last empty same
    exact spares_pure empty (same ▸ sure)

/-- After a block, everything around it is as it was. -/
theorem Engine.Sure.block (sure : engine.Sure Γ) {body : List Stmt} {last : Env Unit}
    (inside : Walk.Spares (Stmt.walkAll body) engine.push (·.Sure last)) :
    Walk.Spares (Walk.inScope (Stmt.walkAll body)) engine (·.Sure Γ) := by
  refine ⟨inside.1, ?_⟩
  intro term ends
  have walked : (Stmt.walkAll body).Ends engine.push (Stmt.walkAll body engine.push).part
      (Stmt.walkAll body engine.push).engine := ⟨term, by rw [← ends]; rfl⟩
  obtain ⟨⟨_, _, grows⟩, _, _⟩ := Stmt.passes_walkAll body walked sure.sane.push
  exact sure.leaveBlock grows (inside.2 term ends)

theorem Variable.spares_walk (sure : engine.Sure Γ) {decl : Variable}
    (founded : decl.typeName.isSome ∨ decl.value.isSome)
    (sees : Γ.SeesAll (Expr.names? decl.value)) :
    Walk.Spares decl.walk engine (·.Sure (Γ.declare decl.name ())) := by
  apply Walk.spares_after
  apply (spares_initial sure founded sees).imp
  intro known between given
  apply Walk.spares_still
  exact spares_declare given.2 decl given.1

theorem FunctionHeader.spares_walkAlone (sure : engine.Sure Γ) {header : FunctionHeader}
    (noted : Notes Term.IsType header.resolved) :
    Walk.Spares header.walkAlone engine (·.Sure (Γ.declare header.name ())) := by
  apply Walk.spares_after
  apply (spares_function sure noted).imp
  intro _ between given
  apply Walk.spares_still
  exact spares_pure given.2.empty given.2

/-- After a function inference is as sure of the names around it as before. -/
theorem Engine.Sure.leave (sure : engine.Sure Γ) {engine' : Engine} {returned : List Term}
    {last : Env Unit} (grows : engine.enter.Grows engine' returned) (inside : engine'.Sure last) :
    engine'.leave.Sure Γ where
  sane := grows.leave.1 ▸ sure.sane
  found name sees := by
    rw [lookup?, grows.leave.1, show engine'.leave.known = engine.known from grows.learns.known]
    exact sure.found name sees
  types name symbol found := by
    rw [lookup?, grows.leave.1, show engine'.leave.known = engine.known from grows.learns.known]
      at found
    exact sure.types name symbol found
  frames := by
    intro frame present
    exact inside.frames frame (List.mem_of_mem_tail present)
  forward := inside.forward
  empty := inside.empty

theorem FunctionHeader.spares_walk (sure : engine.Sure Γ) {header : FunctionHeader}
    {body : List Stmt} {inside last : Env Unit} (noted : Notes Term.IsType header.resolved)
    (taken : Parameter.Scoped (Γ.declare header.name ()).enter header.parameters inside)
    (walked : ∀ {engine : Engine}, engine.Sure inside →
      Walk.Spares (Stmt.walkAll body) engine (·.Sure last)) :
    Walk.Spares (header.walk body (Stmt.walkAll body)) engine
      (·.Sure (Γ.declare header.name ())) := by
  apply Walk.spares_after
  apply (spares_function sure noted).imp
  intro found inner given
  obtain ⟨declared, before⟩ := found
  have opened : Walk.Spares (Walk.after (Infer.parameters header.parameters) body fun _ =>
      Stmt.walkAll body) inner.enter (·.Sure last) :=
    Walk.spares_after ((spares_parameters taken given.2.enterFunction).imp fun _ _ sure =>
      walked sure)
  cases outcome : (Walk.after (Infer.parameters header.parameters) body (fun _ =>
      Stmt.walkAll body) inner.enter).outcome with
  | error error =>
      simp only [Walk.Spares, outcome]
      refine ⟨opened.1, ?_⟩
      intro _ same
      cases same
  | ok term =>
      have ends : (Walk.after (Infer.parameters header.parameters) body fun _ =>
          Stmt.walkAll body).Ends inner.enter _ _ := ⟨term, by rw [← outcome]⟩
      obtain ⟨_, start, yields, walked⟩ := Walk.ends_after.mp ends
      have grows := grows_parameters yields
      obtain ⟨⟨_, _, grows'⟩, _, _⟩ :=
        Stmt.passes_walkAll body walked (grows.sane given.2.sane.push)
      have sure := opened.2 term outcome
      have left := given.2.leave (grows.andThen grows') sure
      simp only [Walk.Spares, outcome]
      have concluded := spares_conclusion left header declared given.1 sure.returned
      exact Walk.spares_after (concluded.imp fun _ _ sure =>
        Walk.spares_still (spares_pure sure.empty sure))

mutual

theorem Stmt.spares_walk : ∀ {s : Stmt} {engine : Engine} {Γ Γ' : Env Unit}, s.Scoped Γ Γ' →
    s.Noted Term.IsType → engine.Sure Γ → Walk.Spares s.walk engine (·.Sure Γ')
  | .expr e, _, _, _, .expr sees, _, sure =>
      Walk.spares_still ((e.decides_infer sure sees).sure sure)
  | .comment _, _, _, _, .comment _, _, sure | .use _, _, _, _, .use _, _, sure =>
      Walk.spares_still (spares_pure sure.empty sure)
  | .returns _, _, _, _, .returns sees, _, sure => Walk.spares_still (spares_returns sure sees)
  | .declare _, _, _, _, .declare founded _ sees _, _, sure =>
      (Variable.spares_walk sure founded sees).map
  | .function _ none, _, _, _, .prototype .., noted, sure =>
      (FunctionHeader.spares_walkAlone sure noted.1).within
  | .function header (some body), _, _, _, .function _ _ _ taken valid, noted, sure =>
      (FunctionHeader.spares_walk sure noted.1 taken fun sure =>
        Stmt.spares_walkAll valid noted.2.2.2 sure).within
  | .branch condition body alternate, _, _, _, .branch sees valid others, noted, sure => by
      apply Walk.spares_after
      apply (spares_condition sure sees).imp
      intro _ between sure
      have inside := sure.block (Stmt.spares_walkAll valid noted.1 sure.enter)
      exact (inside.both fun _ _ sure => Alternate.spares_walk others noted.2 sure).within
  | .loop condition body, _, _, _, .loop sees valid, noted, sure => by
      apply Walk.spares_after
      apply (spares_condition sure sees).imp
      intro _ between sure
      exact (sure.block (Stmt.spares_walkAll valid noted sure.enter)).within
  | .switch subject arms, _, _, _, .switch sees valid, noted, sure => by
      apply Walk.spares_after
      apply (subject.decides_infer sure sees).imp
      intro term between given
      have sure' := given.2 ▸ sure
      exact (Arm.spares_walkAll valid noted sure' given.1).within
  | .merged body, _, _, _, .merged valid, noted, sure =>
      (Stmt.spares_walkAll valid noted sure).within
termination_by structural s => s

theorem Alternate.spares_walk : ∀ {alternate : Alternate} {engine : Engine} {Γ : Env Unit},
    alternate.Scoped Γ → alternate.Noted Term.IsType → engine.Sure Γ →
      Walk.Spares alternate.walk engine (·.Sure Γ)
  | .none, _, _, .none, _, sure => Walk.spares_still (spares_pure sure.empty sure)
  | .elseBranch condition body alternate, _, _, .elseBranch sees valid others, noted, sure => by
      apply Walk.spares_after
      apply (spares_condition sure sees).imp
      intro _ between sure
      have inside := sure.block (Stmt.spares_walkAll valid noted.1 sure.enter)
      exact (inside.both fun _ _ sure => Alternate.spares_walk others noted.2 sure).within
  | .otherwise body, _, _, .otherwise valid, noted, sure =>
      (sure.block (Stmt.spares_walkAll valid noted sure.enter)).within
termination_by structural alternate => alternate

theorem Arm.spares_walk : ∀ {arm : Arm} {subject : Term} {engine : Engine} {Γ : Env Unit},
    arm.Scoped Γ → arm.Noted Term.IsType → engine.Sure Γ → subject.IsType →
      Walk.Spares (arm.walk (some subject)) engine (·.Sure Γ)
  | .value pattern body, subject, _, _, .value sees valid, noted, sure, isType => by
      apply Walk.spares_after
      apply (spares_pattern sure sees _).imp
      · intro _ between sure
        exact (sure.block (Stmt.spares_walkAll valid noted sure.enter)).within
      · intro term same
        cases same
        exact isType
  | .otherwise body, _, _, _, .otherwise valid, noted, sure, _ =>
      (sure.block (Stmt.spares_walkAll valid noted sure.enter)).within
termination_by structural arm => arm

theorem Stmt.spares_walkAll : ∀ {body : List Stmt} {engine : Engine} {Γ Γ' : Env Unit},
    Stmt.AllScoped Γ body Γ' → Stmt.AllNoted Term.IsType body → engine.Sure Γ →
      Walk.Spares (Stmt.walkAll body) engine (·.Sure Γ')
  | [], _, _, _, .nil, _, sure => Walk.spares_still (spares_pure sure.empty sure)
  | _ :: _, _, _, _, .cons valid later, noted, sure =>
      ((Stmt.spares_walk valid noted.1 sure).both fun _ _ sure =>
        Stmt.spares_walkAll later noted.2 sure).within
termination_by structural body => body

theorem Arm.spares_walkAll : ∀ {arms : List Arm} {subject : Term} {engine : Engine}
    {Γ : Env Unit}, Arm.AllScoped Γ arms → Arm.AllNoted Term.IsType arms → engine.Sure Γ →
      subject.IsType → Walk.Spares (Arm.walkAll (some subject) arms) engine (·.Sure Γ)
  | [], _, _, _, .nil, _, sure, _ => Walk.spares_still (spares_pure sure.empty sure)
  | _ :: _, _, _, _, .cons valid later, noted, sure, isType =>
      ((Arm.spares_walk valid noted.1 sure isType).both fun _ _ sure =>
        Arm.spares_walkAll later noted.2 sure isType).within
termination_by structural arms => arms

end

end Statements

section Programs

open Infer

/-- Where nothing has a placeholder, constraints give none. -/
theorem Table.unify_empty (constraints : List Constraint) :
    Table.empty.unify constraints = .empty := by
  induction constraints with
  | nil => rfl
  | cons first rest ih =>
      have kept : Table.empty.require first = .empty := by
        have size := size_require .empty first
        cases unified : Table.empty.require first with
        | mk slots =>
            rw [unified] at size
            exact congrArg Table.mk (Array.eq_empty_of_size_eq_zero size)
      rw [Table.unify, List.foldl_cons, kept]
      exact ih

theorem Variable.exists_announced {decl : Variable}
    (founded : decl.typeName.isSome ∨ decl.value.isSome)
    (written : ∀ typeName ∈ decl.typeName, typeName.type?.isSome)
    (noted : (Stmt.declare decl).Noted Term.IsType) :
    ∃ binding, (decl.name, some binding) ∈ (Stmt.declare decl).announced := by
  have resolved := resolvedType?_isSome founded noted
  have stated : ∃ type, decl.statedType? = some type := by
    unfold statedType?
    cases given : decl.typeName with
    | none => exact Option.isSome_iff_exists.mp resolved
    | some typeName => exact Option.isSome_iff_exists.mp (written typeName given)
  obtain ⟨type, stated⟩ := stated
  refine ⟨.value type decl.mutable, ?_⟩
  rw [Stmt.announced, resolved, Bool.or_true, if_pos rfl, stated]
  exact List.mem_cons_self

theorem FunctionHeader.exists_announced {header : FunctionHeader}
    (known : header.parameterTypes?.isSome)
    (written : ∀ typeName ∈ header.returns, typeName.type?.isSome)
    (noted : Notes Term.IsType header.resolved) (body : Option (List Stmt)) :
    ∃ binding, (header.name, some binding) ∈ (Stmt.function header body).announced := by
  have result : ∃ type, header.resultType? = some type := by
    unfold resultType?
    cases given : header.returns with
    | none =>
        obtain ⟨type, resolved⟩ := Option.isSome_iff_exists.mp (type?_isSome_of_notes noted)
        exact ⟨type, by rw [show header.resolvedType? = some type from resolved]; rfl⟩
    | some typeName => exact Option.isSome_iff_exists.mp (written typeName given)
  obtain ⟨parameters, known⟩ := Option.isSome_iff_exists.mp known
  obtain ⟨type, result⟩ := result
  refine ⟨.function parameters type, ?_⟩
  rw [Stmt.announced, binding?_eq_some known result]
  exact List.mem_cons_self

mutual

/-- What well-scoped statements declare is announced with its type, once that is noted. -/
theorem Stmt.Scoped.announces : ∀ {s : Stmt} {Γ Γ' : Env Unit}, s.Scoped Γ Γ' →
    s.Noted Term.IsType → ∀ name ∈ s.declares, ∃ binding, (name, some binding) ∈ s.announced
  | .expr _, _, _, .expr _, _, _, present | .comment _, _, _, .comment _, _, _, present
  | .use _, _, _, .use _, _, _, present | .returns _, _, _, .returns _, _, _, present
  | .branch .., _, _, .branch .., _, _, present | .loop .., _, _, .loop .., _, _, present
  | .switch .., _, _, .switch .., _, _, present => nomatch present
  | .declare decl, _, _, .declare founded written _ _, noted, name, present => by
      rw [List.mem_singleton.mp present]
      exact Variable.exists_announced founded written noted
  | .function header none, _, _, .prototype known written _, noted, name, present => by
      rw [List.mem_singleton.mp present]
      exact FunctionHeader.exists_announced known written noted.1 none
  | .function header (some body), _, _, .function known written _ _ _, noted, name, present => by
      rw [List.mem_singleton.mp present]
      exact FunctionHeader.exists_announced known written noted.1 (some body)
  | .merged _, _, _, .merged valid, noted, name, present =>
      Stmt.AllScoped.announces valid noted name present
termination_by structural s => s

theorem Stmt.AllScoped.announces : ∀ {body : List Stmt} {Γ Γ' : Env Unit},
    Stmt.AllScoped Γ body Γ' → Stmt.AllNoted Term.IsType body →
      ∀ name ∈ Stmt.allDeclares body, ∃ binding, (name, some binding) ∈ Stmt.allAnnounced body
  | [], _, _, .nil, _, _, present => nomatch present
  | _ :: _, _, _, .cons valid later, noted, name, present => by
      rcases List.mem_append.mp present with early | late
      · obtain ⟨binding, announced⟩ := Stmt.Scoped.announces valid noted.1 name early
        exact ⟨binding, List.mem_append_left _ announced⟩
      · obtain ⟨binding, announced⟩ := Stmt.AllScoped.announces later noted.2 name late
        exact ⟨binding, List.mem_append_right _ announced⟩
termination_by structural body => body

end

/-- An engine that has learnt a program finds all that the program declares. -/
theorem Engine.sure_learn {program : Program} {last : Env Unit}
    (valid : Stmt.AllScoped (.announcingNames (Stmt.allDeclares program)) program last)
    (noted : Stmt.AllNoted Term.IsType program) :
    (start.learn program).Sure (.announcingNames (Stmt.allDeclares program)) := by
  have known : (start.learn program).known =
      (Scope.ofAnnounced (Stmt.allAnnounced program)).reverse ++ [] :=
    noteAllSettled_eq Scopes.sane_start program [] noted
  rw [List.append_nil] at known
  have looks : ∀ name, (start.learn program).lookup? name =
      ((Ty.ofName? name).map Symbol.builtin).or
        ((Scope.ofAnnounced (Stmt.allAnnounced program)).reverse.lookup name) := by
    intro name
    rw [lookup?, known]
    exact congrArg (Option.or · _) (Scopes.resolve?_start name)
  refine ⟨Scopes.sane_start, ?_, ?_, List.forall_mem_nil _, rfl, rfl⟩
  · intro name sees
    rw [looks]
    apply Option.isSome_iff_exists.mp
    rw [Option.isSome_or, Bool.or_eq_true]
    cases sees with
    | inl isType =>
        left
        rw [Option.isSome_map]
        exact isType
    | inr declared =>
        right
        have present : name ∈ Stmt.allDeclares program := by
          by_contra missing
          simp [Env.lookup, Env.announcingNames, missing] at declared
        obtain ⟨binding, announced⟩ := valid.announces noted name present
        by_contra missing
        rw [Option.not_isSome_iff_eq_none, Scope.lookup_eq_none_iff, List.map_reverse,
          List.mem_reverse, List.mem_map] at missing
        exact missing ⟨(name, binding.symbol), Scope.mem_ofAnnounced.mpr ⟨binding, announced, rfl⟩,
          rfl⟩
  · intro name symbol found
    rw [looks] at found
    intro term typed
    rcases Option.or_eq_some_iff.mp found with isType | ⟨_, looked⟩
    · obtain ⟨type, _, rfl⟩ := Option.map_eq_some_iff.mp isType
      cases typed
    · obtain ⟨before, after, split, _⟩ := List.lookup_eq_some_iff.mp looked
      have present : (name, symbol) ∈ Scope.ofAnnounced (Stmt.allAnnounced program) := by
        rw [← List.mem_reverse, split]
        simp
      obtain ⟨binding, _, rfl⟩ := Scope.mem_ofAnnounced.mp present
      cases binding with
      | function parameters result =>
          cases typed
          rfl
      | value type mutable =>
          cases typed
          rfl

theorem Infer.spares_walk {program : Program} {engine : Engine} {holds : Engine → Prop}
    (spares : Walk.Spares (Stmt.walkAll program) engine holds) :
    Spares (Infer.walk program) engine fun _ _ => True := by
  unfold Spares Infer.walk
  dsimp only
  cases outcome : (Stmt.walkAll program engine).outcome with
  | error error => exact spares.1
  | ok term => exact ⟨spares.1, trivial⟩

/-- A run over a well-scoped program with types in all its declarations adds no placeholder. -/
theorem Program.WellScoped.spares_run {program : Program} (valid : program.WellScoped)
    (noted : Stmt.AllNoted Term.IsType program) (order : ForwardOrder) :
    Spares (Infer.run order program) .start fun _ _ => True := by
  obtain ⟨last, valid⟩ := valid
  have sure := Engine.sure_learn valid noted
  have learnt : Spares (update (·.learn program)) .start fun _ engine' =>
      engine' = Engine.start.learn program := ⟨rfl, rfl⟩
  apply learnt.bind
  intro _ engine _ same
  rw [same]
  apply (Infer.spares_walk (Stmt.spares_walkAll valid noted sure)).bind
  intro walked engine empty _
  have settled : Spares (requireSettled order) engine fun _ _ => True := by
    apply spares_get_bind
    split
    · exact spares_pure empty trivial
    · exact spares_fail empty
  apply settled.bind
  intro _ engine empty _
  have swept : (engine.sweep).table = .empty := by
    rw [Engine.sweep, empty]
    exact Table.unify_empty _
  have sweeps : Spares (update (·.sweep)) engine fun _ _ => True := ⟨swept, trivial⟩
  apply sweeps.bind
  intro _ engine empty _
  exact (spares_ofExcept empty).imp fun _ _ _ => trivial

end Programs

end SmallLang
