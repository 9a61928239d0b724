import SmallLang.Proofs.Typing.Complete
import SmallLang.Proofs.Typing.Contexts
import SmallLang.Proofs.Typing.Sound

/-!
# The check decides the typing rules

A program passes its check without a complaint exactly if it is well typed. What lets a single
complaint-free call speak for everything below it is that the check of an expression ends
without a type only after a complaint, in every context that a check gets to.
-/

set_option autoImplicit false

namespace SmallLang

open Check

section Hoisting

variable {context : Context} {ρ : Option Ty} {done : List (String × Option Binding)}

/-- What is announced can be declared in the root scope: everything is known, and each name is
free and announced once. -/
structure Announceable (announced : List (String × Option Binding)) : Prop where
  distinct : (announced.map Prod.fst).Nodup
  known : ∀ entry ∈ announced, Ty.isTypeName entry.1 = false ∧ entry.2.isSome

theorem Announceable.left {announced more : List (String × Option Binding)}
    (announceable : Announceable (announced ++ more)) : Announceable announced where
  distinct := by
    have distinct := announceable.distinct
    rw [List.map_append] at distinct
    exact (List.nodup_append.mp distinct).1
  known := fun entry present => announceable.known entry (List.mem_append_left more present)

theorem Announceable.not_mem (announceable : Announceable done) {name : String}
    (missing : (Env.announcing done).outer name = none) : name ∉ done.map Prod.fst := by
  rw [← Scope.lookup_eq_none_iff]
  cases entry : done.lookup name with
  | none => rfl
  | some binding? =>
      have known : (name, binding?) ∈ done := by
        obtain ⟨before, after, rfl, _⟩ := List.lookup_eq_some_iff.mp entry
        simp
      obtain ⟨binding, rfl⟩ := Option.isSome_iff_exists.mp (announceable.known _ known).2
      simp [Env.announcing, entry] at missing

theorem outer_announcing_append {name other : String} {binding : Binding}
    (new : name ∉ done.map Prod.fst) :
    (Env.announcing (done ++ [(name, some binding)])).outer other =
      if other = name then some binding else (Env.announcing done).outer other := by
  simp only [Env.announcing, List.lookup_append, Scope.lookup_cons, List.lookup_nil]
  by_cases same : other = name
  · rw [same, Scope.lookup_eq_none_iff.mpr new]
    simp
  · simp [same]

/-- Some check of the root scope hoists what is announced: it passes exactly if that can be
declared, and then the scopes know it. -/
structure Hoists (check : Check Context) (ρ : Option Ty)
    (done announced : List (String × Option Binding)) : Prop where
  sound : ∀ {last}, Silent check last →
    Announceable (done ++ announced) ∧ last.Stands true ρ (.announcing (done ++ announced))
  complete : Announceable (done ++ announced) → ∃ last, Silent check last

theorem hoists_define (stands : context.Stands true ρ (.announcing done))
    (announceable : Announceable done) (name : String) (binding : Binding)
    (position : Position) :
    Hoists (context.define name binding.symbol position) ρ done [(name, some binding)] where
  sound := by
    intro last silent
    obtain ⟨notType, unseen, rfl⟩ := silent_define.mp silent
    obtain ⟨_, outside⟩ := stands.free notType unseen
    have new := announceable.not_mem (outside rfl)
    constructor
    · constructor
      · rw [List.map_append, List.nodup_append]
        refine ⟨announceable.distinct, List.nodup_singleton name, ?_⟩
        rintro _ earlier _ same rfl
        rw [List.mem_singleton.mp same] at earlier
        exact new earlier
      · intro entry present
        rw [List.mem_append, List.mem_singleton] at present
        cases present with
        | inl earlier => exact announceable.known entry earlier
        | inr same => exact same ▸ ⟨notType, rfl⟩
    · have grown := @Context.Stands.insert _ _ _ _ _ binding stands notType
      have same : (Env.announcing (done ++ [(name, some binding)])).lookup =
          ((Env.announcing done).declare name binding).lookup := by
        funext other
        rw [Env.lookup_declare]
        exact outer_announcing_append new
      refine ⟨⟨?_, ?_⟩, grown.returns, grown.isRoot, nofun⟩
      · rw [same]
        exact grown.describes.look_eq
      · rw [same]
        exact grown.describes.apart
  complete := by
    intro later
    refine ⟨_, silent_define.mpr ⟨(later.known (name, some binding) (by simp)).1, ?_, rfl⟩⟩
    have distinct := later.distinct
    rw [List.map_append, List.nodup_append] at distinct
    have new : name ∉ done.map Prod.fst := fun earlier =>
      distinct.2.2 name earlier name (List.mem_singleton.mpr rfl) rfl
    have outside : (Env.announcing done).outer name = none := by
      simp [Env.announcing, Scope.lookup_eq_none_iff.mpr new]
    exact stands.unseen ⟨(later.known (name, some binding) (by simp)).1, rfl⟩ fun _ => outside

theorem Variable.declaredType_eq_ok_iff {scopes : Scopes} {Γ : Env Binding}
    (describes : Γ.Describes scopes.resolve?) {decl : Variable} {type : Ty} :
    decl.declaredType scopes = .ok type ↔ decl.statedType? = some type := by
  unfold Variable.declaredType Variable.statedType?
  cases decl.typeName with
  | some typeName => exact describes.sane.typeOf_eq_ok_iff
  | none => cases decl.resolvedType? <;> simp

theorem Hoists.of_unknown {check : Check Context} {name : String}
    (fails : ∀ last, ¬ Silent check last) : Hoists check ρ done [(name, none)] where
  sound := fun silent => absurd silent (fails _)
  complete := fun announceable => by
    have known := (announceable.known (name, none) (by simp)).2
    cases known

theorem Hoists.of_pure (stands : context.Stands true ρ (.announcing done))
    (announceable : Announceable done) : Hoists (pure context) ρ done [] where
  sound := by
    intro last silent
    rw [List.append_nil]
    exact ⟨announceable, silent_pure.mp silent ▸ stands⟩
  complete := fun _ => ⟨context, silent_pure.mpr rfl⟩

theorem hoists_function (stands : context.Stands true ρ (.announcing done))
    (announceable : Announceable done) (header : FunctionHeader) (body : Option (List Stmt)) :
    Hoists ((Stmt.function header body).hoist context) ρ done
      (Stmt.function header body).announced := by
  rw [Stmt.hoist, Stmt.announced]
  have binding_iff : ∀ symbol, header.symbol context.scopes = .ok symbol ↔
      ∃ binding, header.binding? = some binding ∧ symbol = binding.symbol := by
    intro symbol
    rw [FunctionHeader.symbol_eq_ok_iff stands.describes, FunctionHeader.binding?]
    cases header.parameterTypes? <;> cases header.resultType? <;> simp
  cases known : header.binding? with
  | none =>
      apply Hoists.of_unknown
      simp [binding_iff, known]
  | some binding =>
      have symbol := (binding_iff _).mpr ⟨binding, known, rfl⟩
      have hoists := hoists_define stands announceable header.name binding header.position
      constructor
      · intro last silent
        simp only [silent_bind, silent_ofExcept, symbol, Except.ok.injEq,
          exists_eq_left'] at silent
        exact hoists.sound silent
      · intro later
        simp only [silent_bind, silent_ofExcept, symbol, Except.ok.injEq, exists_eq_left']
        exact hoists.complete later

theorem hoists_variable (stands : context.Stands true ρ (.announcing done))
    (announceable : Announceable done) (decl : Variable) :
    Hoists ((Stmt.declare decl).hoist context) ρ done (Stmt.declare decl).announced := by
  rw [Stmt.hoist, Stmt.announced]
  split
  · next isTyped =>
      rw [if_pos (show (decl.typeName.isSome || decl.resolvedType?.isSome) = true from isTyped)]
      cases known : decl.statedType? with
      | none =>
          apply Hoists.of_unknown
          simp [Variable.declaredType_eq_ok_iff stands.describes, known]
      | some type =>
          have declared := (Variable.declaredType_eq_ok_iff stands.describes).mpr known
          have hoists := hoists_define stands announceable decl.name (.value type decl.mutable)
            decl.position
          constructor
          · intro last silent
            simp only [silent_bind, silent_ofExcept, declared, Except.ok.injEq,
              exists_eq_left'] at silent
            exact hoists.sound silent
          · intro later
            simp only [silent_bind, silent_ofExcept, declared, Except.ok.injEq,
              exists_eq_left']
            exact hoists.complete later
  · next untyped =>
      rw [if_neg (show ¬ (decl.typeName.isSome || decl.resolvedType?.isSome) = true from untyped)]
      exact .of_pure stands announceable

mutual

theorem Stmt.hoists : ∀ (s : Stmt) {context : Context} {done : List (String × Option Binding)},
    context.Stands true ρ (.announcing done) → Announceable done →
      Hoists (s.hoist context) ρ done s.announced
  | .function header body, _, _, stands, announceable =>
      hoists_function stands announceable header body
  | .declare decl, _, _, stands, announceable => hoists_variable stands announceable decl
  | .merged body, _, _, stands, announceable => Stmt.hoistsAll body stands announceable
  | .expr _, _, _, stands, announceable | .comment _, _, _, stands, announceable
  | .use _, _, _, stands, announceable | .parameter _, _, _, stands, announceable
  | .returns _, _, _, stands, announceable | .branch .., _, _, stands, announceable
  | .loop .., _, _, stands, announceable | .switch .., _, _, stands, announceable
  | .arm _, _, _, stands, announceable => .of_pure stands announceable

theorem Stmt.hoistsAll : ∀ (body : List Stmt) {context : Context}
    {done : List (String × Option Binding)},
    context.Stands true ρ (.announcing done) → Announceable done →
      Hoists (Stmt.hoistAll context body) ρ done (Stmt.allAnnounced body)
  | [], _, _, stands, announceable => .of_pure stands announceable
  | first :: rest, context, done, stands, announceable => by
      have hoists := Stmt.hoists first stands announceable
      rw [Stmt.hoistAll, Stmt.allAnnounced]
      constructor
      · intro last silent
        obtain ⟨next, silent, silent'⟩ := silent_bind.mp silent
        obtain ⟨announceable', stands'⟩ := hoists.sound silent
        rw [← List.append_assoc]
        exact (Stmt.hoistsAll rest stands' announceable').sound silent'
      · intro later
        rw [← List.append_assoc] at later
        obtain ⟨next, silent⟩ := hoists.complete later.left
        obtain ⟨announceable', stands'⟩ := hoists.sound silent
        obtain ⟨last, silent'⟩ := (Stmt.hoistsAll rest stands' announceable').complete later
        exact ⟨last, silent_bind.mpr ⟨next, silent, silent'⟩⟩

end

end Hoisting

theorem stands_start : Context.start.Stands true none (.announcing []) where
  describes := {
    look_eq := by
      intro name
      show Scopes.start.resolve? name = _
      rw [Scopes.resolve?_start]
      simp [Env.lookup, Env.announcing]
    apart := fun _ _ => rfl }
  returns := rfl
  isRoot := rfl
  block := nofun

theorem Announceable.awaits {announced : List (String × Option Binding)}
    (announceable : Announceable announced) :
    (Env.announcing announced).Awaits announced where
  distinct := announceable.distinct
  known := by
    intro name binding? present
    obtain ⟨binding, rfl⟩ := Option.isSome_iff_exists.mp (announceable.known _ present).2
    refine ⟨binding, rfl, ?_⟩
    simp [Env.announcing, Scope.lookup_of_mem announceable.distinct present]
  unseen := fun _ _ _ => rfl

theorem Program.check_eq_ok_nil_iff_silent (program : Program) :
    program.check = .ok [] ↔ ∃ context last, Silent (Stmt.hoistAll .start program) context ∧
      Silent (Stmt.checkAll context program) last := by
  have folded : program.check = .ok [] ↔ ∃ last, Silent (do
      let context ← Stmt.hoistAll .start program
      Stmt.checkAll context program) last := by
    unfold Program.check
    simp only
    split
    · next found same =>
        obtain ⟨value, reports⟩ := found
        rw [same, Except.ok.injEq]
        constructor
        · rintro rfl
          exact ⟨value, rfl⟩
        · rintro ⟨last, same⟩
          exact (Checked.mk.inj (Except.ok.inj same)).2
    · next error same =>
        rw [same]
        simp [Silent]
  rw [folded]
  simp only [silent_bind]
  exact exists_comm

theorem Stmt.TypedAll.announceable {rules : Discipline} {ρ : Option Ty} {Γ Γ' : Env Binding}
    {body : List Stmt} {returned : List Ty}
    (typed : Stmt.TypedAll rules ρ Γ body Γ' returned) :
    Announceable (Stmt.allAnnounced body) where
  distinct := (List.nodup_append.mp typed.adds.distinct).1
  known := by
    intro entry present
    have named : entry.1 ∈ (Stmt.allAnnounced body).map Prod.fst :=
      List.mem_map.mpr ⟨entry, present, rfl⟩
    exact ⟨(typed.adds.free entry.1 (List.mem_append_left _ named)).1,
      typed.announced_isSome entry present⟩

theorem Stmt.TypedAll.knows {rules : Discipline} {ρ : Option Ty} {Γ Γ' : Env Binding}
    {body : List Stmt} {returned : List Ty}
    (typed : Stmt.TypedAll rules ρ Γ body Γ' returned) :
    (Env.announcing (Stmt.allAnnounced body)).Knows (Stmt.allAnnounced body)
      (Stmt.allUnannounced body) where
  known := typed.announceable.awaits.known
  unknown := by
    intro name declared
    have new : name ∉ (Stmt.allAnnounced body).map Prod.fst := fun announced =>
      (List.nodup_append.mp typed.adds.distinct).2.2 name announced name declared rfl
    simp [Env.announcing, Scope.lookup_eq_none_iff.mpr new]

/-- The check has nothing to complain of exactly if the program is well typed. -/
theorem Program.check_eq_ok_nil_iff (program : Program) :
    program.check = .ok [] ↔ program.WellTyped .plain := by
  rw [Program.check_eq_ok_nil_iff_silent]
  have hoists := Stmt.hoistsAll program stands_start ⟨.nil, nofun⟩
  constructor
  · rintro ⟨context, last, silent, silent'⟩
    obtain ⟨announceable, stands⟩ := hoists.sound silent
    obtain ⟨Γ', returned, typed, _⟩ :=
      Stmt.typedAll_of_silent stands program (fun _ => announceable.awaits) silent'
    exact ⟨Γ', returned, typed⟩
  · rintro ⟨Γ', returned, typed⟩
    obtain ⟨context, silent⟩ := hoists.complete typed.announceable
    obtain ⟨_, stands⟩ := hoists.sound silent
    obtain ⟨last, silent', _⟩ :=
      Stmt.silentAll_of_typed stands program (fun _ => typed.knows) typed
    exact ⟨context, last, silent, silent'⟩

/-- A program that passes its check without a complaint obeys the typing rules at every depth,
and the other way round. Wherever a check gets to, an expression is left without a type only
after a complaint. -/
theorem Program.check_decides_typing (program : Program) :
    (program.check = .ok [] ↔ program.WellTyped .plain) ∧
      ∀ context : Context, context.Reachable → ∀ (e : Expr) (found : Checked (Option Ty)),
        e.check context = .ok found → found.value = none → found.reports ≠ [] := by
  constructor
  · exact program.check_eq_ok_nil_iff
  · intro context reachable e found ends missing
    exact Expr.reports_ne_nil_of_value_eq_none reachable ends missing

/-- A program that calls a recursive function ahead of its declaration is well typed, and a
name that nobody declared is complained of before it is left without a type. -/
theorem Program.check_decides_typing_forward_call :
    Program.WellTyped .plain
      [.declare ⟨"x", true, none, some (.call (.identifier "f" .null) [.number "1"]), .null,
          some (.concrete .int)⟩,
        .function ⟨"f", [⟨"n", "int", .null⟩], none, [], .null, some (.concrete (.sized .w8))⟩
          (some [.branch (.binary .less (.identifier "n" .null) (.number "2"))
              [.returns (some (.identifier "n" .null))] .none,
            .returns (some (.call (.identifier "f" .null) [.identifier "n" .null]))])] ∧
      ∀ found : Checked (Option Ty),
        (Expr.member .null "size").check .start = .ok found → found.value = none →
          found.reports ≠ [] := by
  constructor
  · exact (Program.check_decides_typing _).1.mp (by decide +kernel)
  · exact (Program.check_decides_typing []).2 .start .start (.member .null "size")

end SmallLang
