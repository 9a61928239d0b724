import SmallLang.Module.Qualifier
import SmallLang.Proofs.Parse.Shape
import SmallLang.Proofs.Tree.Alike
import SmallLang.Proofs.Typing.Returned

/-!
# Typing up to widths

A program stays well typed when the integers that its variables hold and its functions return
change their widths.
-/

set_option autoImplicit false

namespace SmallLang

namespace Env

variable {β γ : Type} {Γ : Env β} {Δ : Env γ}

/-- Every name that is new to the block of the first environment is new to that of the
second. -/
def Covers (Γ : Env β) (Δ : Env γ) : Prop :=
  ∀ name, Γ.block name = none → Δ.block name = none

theorem Covers.enter (Γ : Env β) (Δ : Env γ) : Γ.enter.Covers Δ.enter :=
  fun _ _ => rfl

theorem Covers.declare (covers : Γ.Covers Δ) (name : String) (binding : β) (meaning : γ) :
    (Γ.declare name binding).Covers (Δ.declare name meaning) := by
  intro other new
  rw [block_declare] at new ⊢
  split at new
  · cases new
  · next differs => rw [if_neg differs, covers other new]

theorem Covers.free {name : String} (covers : Γ.Covers Δ) (free : Γ.Free name) : Δ.Free name :=
  ⟨free.1, covers name free.2⟩

end Env

/-- Two bindings that differ at most in the widths of integers: of what a variable holds, or of
what a function returns. -/
inductive Binding.SameKind : Binding → Binding → Prop where
  | value {type type' : Ty} {mutable : Bool} :
      type.kind = type'.kind → SameKind (.value type mutable) (.value type' mutable)
  | function (parameters : List Ty) {result result' : Ty} :
      result.kind = result'.kind →
        SameKind (.function parameters result) (.function parameters result')

/-- Two environments in which each name stands for the same, up to widths. -/
def Env.LooksAlike (Γ Δ : Env Binding) : Prop :=
  ∀ name, Option.Rel Binding.SameKind (Γ.lookup name) (Δ.lookup name)

/-- Two environments that look alike, where what is new to the block of the first is new to that
of the second. -/
structure Env.SameKind (Γ Δ : Env Binding) : Prop where
  looks : Γ.LooksAlike Δ
  covers : Γ.Covers Δ

namespace Binding

variable {binding binding' : Binding}

theorem SameKind.refl : ∀ binding : Binding, binding.SameKind binding
  | .value _ _ => .value rfl
  | .function parameters _ => .function parameters rfl

theorem SameKind.kind_eq (same : binding.SameKind binding') :
    binding.type.kind = binding'.type.kind := by
  cases same with
  | value same | function _ same => exact same

theorem SameKind.isConstant_eq (same : binding.SameKind binding') :
    binding.isConstant = binding'.isConstant := by
  cases same <;> rfl

end Binding

namespace Env

variable {Γ Δ : Env Binding} {name : String} {binding binding' : Binding}

theorem LooksAlike.refl (Γ : Env Binding) : Γ.LooksAlike Γ := by
  intro name
  cases Γ.lookup name with
  | none => exact .none
  | some binding => exact .some (.refl binding)

theorem LooksAlike.exists_lookup (same : Γ.LooksAlike Δ) (inScope : Γ.lookup name = some binding) :
    ∃ binding', Δ.lookup name = some binding' ∧ binding.SameKind binding' := by
  have both := same name
  rw [inScope] at both
  generalize Δ.lookup name = found at both
  cases both with
  | some same => exact ⟨_, rfl, same⟩

theorem LooksAlike.enter (same : Γ.LooksAlike Δ) : Γ.enter.LooksAlike Δ.enter := by
  intro name
  rw [lookup_enter, lookup_enter]
  exact same name

theorem LooksAlike.declare (same : Γ.LooksAlike Δ) (name : String)
    (kind : binding.SameKind binding') :
    (Γ.declare name binding).LooksAlike (Δ.declare name binding') := by
  intro other
  rw [lookup_declare, lookup_declare]
  split
  · exact .some kind
  · exact same other

theorem SameKind.refl (Γ : Env Binding) : Γ.SameKind Γ := ⟨.refl Γ, fun _ => id⟩

theorem LooksAlike.inside (same : Γ.LooksAlike Δ) : Γ.enter.SameKind Δ.enter :=
  ⟨same.enter, .enter Γ Δ⟩

theorem SameKind.enter (same : Γ.SameKind Δ) : Γ.enter.SameKind Δ.enter := same.looks.inside

theorem SameKind.declare (same : Γ.SameKind Δ) (name : String) (kind : binding.SameKind binding') :
    (Γ.declare name binding).SameKind (Δ.declare name binding') :=
  ⟨same.looks.declare name kind, same.covers.declare name _ _⟩

theorem SameKind.free (same : Γ.SameKind Δ) (free : Γ.Free name) : Δ.Free name :=
  same.covers.free free

end Env

theorem forall₂_kind_iff {parameters types : List Ty} :
    List.Forall₂ (fun parameter type => parameter.kind = type.kind) parameters types ↔
      parameters.map Ty.kind = types.map Ty.kind := by
  rw [← List.forall₂_eq_eq_eq, List.forall₂_map_left_iff, List.forall₂_map_right_iff]


section Expressions

variable {Γ Δ : Env Binding}

theorem Ty.isNumeric_congr {type type' : Ty} (same : type.kind = type'.kind) :
    type.isNumeric = type'.isNumeric := by
  unfold Ty.isNumeric
  rw [same]

mutual

/-- A typed expression has a type of the same kind where only widths have changed. -/
theorem Expr.HasType.sameKind (same : Γ.LooksAlike Δ) : ∀ {e : Expr} {type : Ty},
    e.HasType Γ type → ∃ type', e.HasType Δ type' ∧ type.kind = type'.kind
  | _, _, .symbol symbol inScope => by
      obtain ⟨binding', inScope', kind⟩ := same.exists_lookup inScope
      exact ⟨binding'.type, .symbol symbol inScope', kind.kind_eq⟩
  | .call callee arguments, _, @Expr.HasType.call _ _ _ _ parameters types result symbol inScope
      typed fits => by
      obtain ⟨binding', inScope', kind⟩ := same.exists_lookup inScope
      obtain ⟨types', typed', kinds⟩ := Expr.HaveTypes.sameKind same typed
      cases kind with
      | @function _ _ result' kind =>
          refine ⟨result', .call symbol inScope' typed' ?_, kind⟩
          rw [forall₂_kind_iff] at fits ⊢
          rw [fits, kinds]
  | _, _, .arithmetic arithmetic notDivide typed typed' numeric kinds => by
      obtain ⟨first, left, kind⟩ := Expr.HasType.sameKind same typed
      obtain ⟨second, right, kind'⟩ := Expr.HasType.sameKind same typed'
      refine ⟨first, .arithmetic arithmetic notDivide left right ?_ ?_, kind⟩
      · rw [← Ty.isNumeric_congr kind, numeric]
      · rw [← kind, kinds, kind']
  | _, _, .divide typed typed' numeric numeric' => by
      obtain ⟨first, left, kind⟩ := Expr.HasType.sameKind same typed
      obtain ⟨second, right, kind'⟩ := Expr.HasType.sameKind same typed'
      refine ⟨.float, .divide left right ?_ ?_, rfl⟩
      · rw [← Ty.isNumeric_congr kind, numeric]
      · rw [← Ty.isNumeric_congr kind', numeric']
  | _, _, .comparison comparison typed typed' kinds notNull => by
      obtain ⟨first, left, kind⟩ := Expr.HasType.sameKind same typed
      obtain ⟨second, right, kind'⟩ := Expr.HasType.sameKind same typed'
      refine ⟨.bool, .comparison comparison left right ?_ ?_, rfl⟩
      · rw [← kind, kinds, kind']
      · rw [← kind]
        exact notNull
  | _, _, .connective logical typed typed' isBool isBool' => by
      obtain ⟨first, left, kind⟩ := Expr.HasType.sameKind same typed
      obtain ⟨second, right, kind'⟩ := Expr.HasType.sameKind same typed'
      exact ⟨.bool, .connective logical left right (kind ▸ isBool) (kind' ▸ isBool'), rfl⟩
  | _, _, .negate typed numeric => by
      obtain ⟨type', typed', kind⟩ := Expr.HasType.sameKind same typed
      refine ⟨type', .negate typed' ?_, kind⟩
      rw [← Ty.isNumeric_congr kind, numeric]
  | _, _, .not typed isBool => by
      obtain ⟨type', typed', kind⟩ := Expr.HasType.sameKind same typed
      exact ⟨type', .not typed' (kind ▸ isBool), kind⟩
  | _, _, .step inScope notConstant numeric => by
      obtain ⟨binding', inScope', kind⟩ := same.exists_lookup inScope
      refine ⟨binding'.type, .step inScope' ?_ ?_, kind.kind_eq⟩
      · rw [← kind.isConstant_eq, notConstant]
      · rw [← Ty.isNumeric_congr kind.kind_eq, numeric]
  | _, _, .number text => ⟨_, .number text, rfl⟩
  | _, _, .string value => ⟨_, .string value, rfl⟩
  | _, _, .boolean value => ⟨_, .boolean value, rfl⟩
  | _, _, .null => ⟨_, .null, rfl⟩

theorem Expr.HaveTypes.sameKind (same : Γ.LooksAlike Δ) : ∀ {expressions : List Expr}
    {types : List Ty}, Expr.HaveTypes Γ expressions types →
      ∃ types', Expr.HaveTypes Δ expressions types' ∧ types.map Ty.kind = types'.map Ty.kind
  | _, _, .nil => ⟨[], .nil, rfl⟩
  | _, _, .cons typed typedRest => by
      obtain ⟨type', typed', kind⟩ := Expr.HasType.sameKind same typed
      obtain ⟨types', typedRest', kinds⟩ := Expr.HaveTypes.sameKind same typedRest
      refine ⟨type' :: types', .cons typed' typedRest', ?_⟩
      rw [List.map_cons, List.map_cons, kind, kinds]

end

theorem Expr.HasType?.sameKind (same : Γ.LooksAlike Δ) {value : Option Expr} {found : Option Ty}
    (typed : HasType? Γ value found) :
    ∃ found', HasType? Δ value found' ∧ found.map Ty.kind = found'.map Ty.kind := by
  cases typed with
  | none => exact ⟨Option.none, .none, rfl⟩
  | some typed =>
      obtain ⟨type', typed', kind⟩ := typed.sameKind same
      exact ⟨Option.some type', .some typed', congrArg Option.some kind⟩

end Expressions

/-- A type of some kind is noted. -/
def NotesKind (note : Option Term) (kind : Kind) : Prop :=
  ∃ type, note = some (.concrete type) ∧ type.kind = kind

/-- Two notes of types of one kind. -/
def NotesSameKind (note note' : Option Term) : Prop :=
  ∃ kind, NotesKind note kind ∧ NotesKind note' kind

section Statements

variable {Γ Γ' Δ : Env Binding}

theorem Parameter.Declared.sameKind {Γ' : Env Binding} {parameters : List Parameter}
    (declared : Parameter.Declared Γ parameters Γ') : ∀ {Δ : Env Binding}, Γ.SameKind Δ →
      ∃ Δ', Parameter.Declared Δ parameters Δ' ∧ Γ'.SameKind Δ' := by
  induction declared with
  | nil => exact fun same => ⟨_, .nil, same⟩
  | cons isType free _ ih =>
      intro Δ same
      obtain ⟨Δ', declared, same'⟩ := ih (same.declare _ (.refl _))
      exact ⟨Δ', .cons isType (same.free free) declared, same'⟩

theorem Ty.exists_of_map_kind {found found' : Option Ty} {type : Ty}
    (kinds : found.map Ty.kind = found'.map Ty.kind) (known : found = some type) :
    ∃ type', found' = some type' ∧ type.kind = type'.kind := by
  rw [known, Option.map_some, eq_comm, Option.map_eq_some_iff] at kinds
  obtain ⟨type', known', kind⟩ := kinds
  exact ⟨type', known', kind.symm⟩

theorem NotesSameKind.map_kind {note note' : Option Term} (same : NotesSameKind note note') :
    (note.bind Term.type?).map Ty.kind = (note'.bind Term.type?).map Ty.kind := by
  obtain ⟨kind, ⟨type, rfl, ofKind⟩, type', rfl, ofKind'⟩ := same
  exact congrArg some (ofKind.trans ofKind'.symm)

/-- The type that is stated of a variable changes its width with what is noted. -/
theorem Variable.map_kind_statedType? (decl : Variable) {note : Option Term}
    (same : NotesSameKind decl.resolved note) : decl.statedType?.map Ty.kind =
      (Variable.statedType? { decl with resolved := note }).map Ty.kind := by
  unfold statedType?
  cases decl.typeName with
  | some typeName => rfl
  | none => exact same.map_kind

/-- The type that is stated of what a function returns changes its width with what is noted. -/
theorem FunctionHeader.map_kind_resultType? (header : FunctionHeader) {note : Option Term}
    (same : NotesSameKind header.resolved note) : header.resultType?.map Ty.kind =
      (FunctionHeader.resultType? { header with resolved := note }).map Ty.kind := by
  unfold resultType?
  cases header.returns with
  | some typeName => rfl
  | none =>
      simp only [Option.map_or]
      exact congrArg (Option.or · _) same.map_kind

theorem Variable.Typed.sameKind {decl : Variable} {type : Ty} {note : Option Term}
    (typed : decl.Typed .plain Γ type) (looks : Γ.LooksAlike Δ)
    (same : NotesSameKind decl.resolved note) :
    ∃ type', Variable.Typed .plain Δ { decl with resolved := note } type' ∧
      type.kind = type'.kind := by
  obtain ⟨founded, known, value, valued, follows, agree, _⟩ := typed
  obtain ⟨value', valued', kinds⟩ := valued.sameKind looks
  have stated := decl.map_kind_statedType? same
  have follows' : (decl.statedType?.or value).map Ty.kind =
      ((Variable.statedType? { decl with resolved := note }).or value').map Ty.kind := by
    rw [Option.map_or, Option.map_or, stated, kinds]
  obtain ⟨type', follows', kind⟩ := Ty.exists_of_map_kind follows' follows
  refine ⟨type', ⟨founded, known, value', valued', follows', ?_, trivial⟩, kind⟩
  intro other isStated found isFound
  obtain ⟨other', isStated', kind⟩ := Ty.exists_of_map_kind stated.symm isStated
  obtain ⟨found', isFound', kind'⟩ := Ty.exists_of_map_kind kinds.symm isFound
  rw [kind, kind', agree other' isStated' found' isFound']

theorem Stmt.Typed.free {rules : Discipline} {ρ : Option Ty} {s : Stmt} {returned : List Ty}
    (typed : s.Typed rules ρ Γ Γ' returned) : ∀ name ∈ s.declared?, Γ.Free name := by
  cases typed with
  | declare _ free | prototype _ _ free _ | function _ _ free _ _ _ =>
      rintro _ ⟨⟩
      exact free
  | _ => nofun

mutual

/-- A typed statement stays so where widths have changed, in its notes and in the environment. -/
theorem Stmt.Typed.sameKind : ∀ {s s' : Stmt} {ρ ρ' : Option Ty} {Γ Γ' Δ : Env Binding}
    {returned : List Ty}, s.Typed .plain ρ Γ Γ' returned → s.Alike NotesSameKind s' →
      s.bare.Parsed → ρ.map Ty.kind = ρ'.map Ty.kind → Γ.LooksAlike Δ →
      (∀ name ∈ s.declared?, Δ.Free name) →
      ∃ Δ' returned', s'.Typed .plain ρ' Δ Δ' returned' ∧ Γ'.LooksAlike Δ' ∧
        (Γ.Covers Δ → Γ'.Covers Δ')
  | _, _, _, _, _, _, _, _, .expr typed, .expr _, _, _, looks, _ => by
      obtain ⟨_, typed', _⟩ := typed.sameKind looks
      exact ⟨_, _, .expr typed', looks, id⟩
  | _, _, _, _, _, _, _, _, .comment text, .comment _, _, _, looks, _ =>
      ⟨_, _, .comment text, looks, id⟩
  | _, _, _, _, _, _, _, _, .use used, .use _, _, _, looks, _ => ⟨_, _, .use used, looks, id⟩
  | _, _, _, _, _, _, _, _, .returns typed fits, .returns _, _, results, looks, _ => by
      obtain ⟨found', typed', kinds⟩ := typed.sameKind looks
      refine ⟨_, _, .returns typed' fun result known => ?_, looks, id⟩
      obtain ⟨result', known', kind⟩ := Ty.exists_of_map_kind results.symm known
      rw [kind, fits result' known', ← Option.getD_map Ty.kind, ← Option.getD_map Ty.kind, kinds]
  | .declare decl, _, _, _, _, _, _, _, .declare typed _, .declare same, _, _, looks, free => by
      obtain ⟨type', typed', kind⟩ := typed.sameKind looks same
      exact ⟨_, _, .declare typed' (free _ rfl), looks.declare _ (.value kind),
        fun covers => covers.declare _ _ _⟩
  | .function header none, _, _, _, _, _, _, _, .prototype known states _ _, .prototype same, _, _,
      looks, free => by
      obtain ⟨result', states', kind⟩ :=
        Ty.exists_of_map_kind (header.map_kind_resultType? same) states
      exact ⟨_, _, .prototype known states' (free _ rfl) trivial,
        looks.declare _ (.function _ kind),
        fun covers => covers.declare _ _ _⟩
  | .function header (some _), _, _, _, _, _, _, _,
    @Stmt.Typed.function _ _ _ _ _ _ _ parameters _ _
      known states _ taken typed _, .function same alike, parsed, _, looks, free => by
      obtain ⟨result', states', kind⟩ :=
        Ty.exists_of_map_kind (header.map_kind_resultType? same) states
      have declared := looks.declare header.name (.function parameters kind)
      obtain ⟨inside', taken', sameInside⟩ := taken.sameKind declared.inside
      have results : (some _).map Ty.kind = (some result').map Ty.kind := congrArg some kind
      obtain ⟨_, _, typed', _⟩ := Stmt.TypedAll.sameKind typed alike parsed.2.2 results sameInside
      exact ⟨_, _, .function known states' (free _ rfl) taken' typed' trivial, declared,
        fun covers => covers.declare _ _ _⟩
  | .branch _ _ _, _, _, _, _, _, _, _, .branch typed isBool typedBody typedRest,
      .branch alike alike', parsed, results, looks, _ => by
      obtain ⟨_, typed', kind⟩ := typed.sameKind looks
      obtain ⟨_, _, typedBody', _⟩ :=
        Stmt.TypedAll.sameKind typedBody alike parsed.1 results looks.inside
      obtain ⟨_, typedRest'⟩ := Alternate.Typed.sameKind typedRest alike' parsed.2 results looks
      exact ⟨_, _, .branch typed' (kind ▸ isBool) typedBody' typedRest', looks, id⟩
  | .loop _ _, _, _, _, _, _, _, _, .loop typed isBool typedBody, .loop alike, parsed, results,
      looks, _ => by
      obtain ⟨_, typed', kind⟩ := typed.sameKind looks
      obtain ⟨_, _, typedBody', _⟩ :=
        Stmt.TypedAll.sameKind typedBody alike parsed results looks.inside
      exact ⟨_, _, .loop typed' (kind ▸ isBool) typedBody', looks, id⟩
  | .switch _ _, _, _, _, _, _, _, _, .switch typed typedArms, .switch alike, parsed, results,
      looks, _ => by
      obtain ⟨subject', typed', kind⟩ := typed.sameKind looks
      have subjects : (some _).map Ty.kind = (some subject').map Ty.kind := congrArg some kind
      obtain ⟨_, typedArms'⟩ :=
        Arm.TypedAll.sameKind typedArms alike parsed results subjects looks
      exact ⟨_, _, .switch typed' typedArms', looks, id⟩
  | _, _, _, _, _, _, _, _, .arm _, _, parsed, _, _, _ => by cases parsed
  | _, _, _, _, _, _, _, _, .merged _, _, parsed, _, _, _ => by cases parsed
  | _, _, _, _, _, _, _, _, .parameter .., _, parsed, _, _, _ => by cases parsed

theorem Alternate.Typed.sameKind : ∀ {alternate alternate' : Alternate} {ρ ρ' : Option Ty}
    {Γ Δ : Env Binding} {returned : List Ty}, alternate.Typed .plain ρ Γ returned →
      alternate.Alike NotesSameKind alternate' → alternate.bare.Parsed →
      ρ.map Ty.kind = ρ'.map Ty.kind → Γ.LooksAlike Δ →
      ∃ returned', alternate'.Typed .plain ρ' Δ returned'
  | _, _, _, _, _, _, _, .none, .none, _, _, _ => ⟨_, .none⟩
  | _, _, _, _, _, _, _, .elseBranch typed isBool typedBody typedRest, .elseBranch alike alike',
      parsed, results, looks => by
      obtain ⟨_, typed', kind⟩ := typed.sameKind looks
      obtain ⟨_, _, typedBody', _⟩ :=
        Stmt.TypedAll.sameKind typedBody alike parsed.1 results looks.inside
      obtain ⟨_, typedRest'⟩ := Alternate.Typed.sameKind typedRest alike' parsed.2 results looks
      exact ⟨_, .elseBranch typed' (kind ▸ isBool) typedBody' typedRest'⟩
  | _, _, _, _, _, _, _, .otherwise typedBody, .otherwise alike, parsed, results, looks => by
      obtain ⟨_, _, typedBody', _⟩ :=
        Stmt.TypedAll.sameKind typedBody alike parsed results looks.inside
      exact ⟨_, .otherwise typedBody'⟩

theorem Arm.Typed.sameKind : ∀ {arm arm' : Arm} {ρ ρ' subject subject' : Option Ty}
    {Γ Δ : Env Binding} {returned : List Ty}, arm.Typed .plain ρ subject Γ returned →
      arm.Alike NotesSameKind arm' → arm.bare.Parsed → ρ.map Ty.kind = ρ'.map Ty.kind →
      subject.map Ty.kind = subject'.map Ty.kind → Γ.LooksAlike Δ →
      ∃ returned', arm'.Typed .plain ρ' subject' Δ returned'
  | _, _, _, _, _, _, _, _, _, .value typed fits typedBody, .value alike, parsed, results, subjects,
      looks => by
      obtain ⟨_, typed', kind⟩ := typed.sameKind looks
      obtain ⟨_, _, typedBody', _⟩ :=
        Stmt.TypedAll.sameKind typedBody alike parsed results looks.inside
      refine ⟨_, .value typed' (fun wanted known => ?_) typedBody'⟩
      obtain ⟨wanted', known', kind'⟩ := Ty.exists_of_map_kind subjects.symm known
      rw [kind', fits wanted' known', kind]
  | _, _, _, _, _, _, _, _, _, .otherwise typedBody, .otherwise alike, parsed, results, _,
    looks => by
      obtain ⟨_, _, typedBody', _⟩ :=
        Stmt.TypedAll.sameKind typedBody alike parsed results looks.inside
      exact ⟨_, .otherwise typedBody'⟩

theorem Stmt.TypedAll.sameKind : ∀ {body body' : List Stmt} {ρ ρ' : Option Ty}
    {Γ Γ' Δ : Env Binding} {returned : List Ty}, Stmt.TypedAll .plain ρ Γ body Γ' returned →
      Stmt.AllAlike NotesSameKind body body' → Stmt.AllParsed (Stmt.allBare body) →
      ρ.map Ty.kind = ρ'.map Ty.kind → Γ.SameKind Δ →
      ∃ Δ' returned', Stmt.TypedAll .plain ρ' Δ body' Δ' returned' ∧ Γ'.SameKind Δ'
  | _, _, _, _, _, _, _, _, .nil, .nil, _, _, same => ⟨_, _, .nil, same⟩
  | _ :: _, _, _, _, _, _, _, _, .cons typed typedRest, .cons alike alike', parsed, results,
    same => by
      obtain ⟨_, _, typed', looks, covers⟩ := Stmt.Typed.sameKind typed alike parsed.1 results
        same.looks fun name declared => same.free (typed.free name declared)
      obtain ⟨_, _, typedRest', same'⟩ := Stmt.TypedAll.sameKind typedRest alike' parsed.2 results
        ⟨looks, covers same.covers⟩
      exact ⟨_, _, .cons typed' typedRest', same'⟩

theorem Arm.TypedAll.sameKind : ∀ {arms arms' : List Arm} {ρ ρ' subject subject' : Option Ty}
    {Γ Δ : Env Binding} {returned : List Ty}, Arm.TypedAll .plain ρ subject Γ arms returned →
      Arm.AllAlike NotesSameKind arms arms' → Arm.AllParsed (Arm.allBare arms) →
      ρ.map Ty.kind = ρ'.map Ty.kind → subject.map Ty.kind = subject'.map Ty.kind →
      Γ.LooksAlike Δ → ∃ returned', Arm.TypedAll .plain ρ' subject' Δ arms' returned'
  | _, _, _, _, _, _, _, _, _, .nil, .nil, _, _, _, _ => ⟨_, .nil⟩
  | _ :: _, _, _, _, _, _, _, _, _, .cons typed typedRest, .cons alike alike', parsed, results,
      subjects, looks => by
      obtain ⟨_, typed'⟩ := Arm.Typed.sameKind typed alike parsed.1 results subjects looks
      obtain ⟨_, typedRest'⟩ :=
        Arm.TypedAll.sameKind typedRest alike' parsed.2 results subjects looks
      exact ⟨_, .cons typed' typedRest'⟩

end

end Statements

end SmallLang
