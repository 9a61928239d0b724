import SmallLang.Proofs.Inference.Program
import SmallLang.Proofs.Tree.Declarations

/-!
# Known types

After inference every function has a result type, and every variable with a type or a value has a
type, at whatever depth it is declared. What is written in a declaration wins over everything that
else is known of it. No placeholder is left anywhere.
-/

set_option autoImplicit false

namespace SmallLang

section Declarations

variable {allowed : Term → Prop} {related : Option Term → Option Term → Prop} {inner : Stmt}

mutual

/-- What is noted in a statement is noted in each declaration in it. -/
theorem Stmt.Noted.of_mem : ∀ {s : Stmt}, s.Noted allowed → inner ∈ s.declarations →
    inner.Noted allowed
  | .declare _, noted, present => List.mem_singleton.mp present ▸ noted
  | .function _ none, noted, present => List.mem_singleton.mp present ▸ noted
  | .function _ (some _), noted, present => by
      rcases List.mem_cons.mp present with rfl | present
      · exact noted
      · exact Stmt.AllNoted.of_mem noted.2.2.2 present
  | .branch .., noted, present => by
      rcases List.mem_append.mp present with present | present
      · exact Stmt.AllNoted.of_mem noted.1 present
      · exact Alternate.Noted.of_mem noted.2 present
  | .loop .., noted, present => Stmt.AllNoted.of_mem noted present
  | .switch .., noted, present => Arm.AllNoted.of_mem noted present
  | .arm single, noted, present => Arm.Noted.of_mem (a := single) noted present
  | .merged _, noted, present => Stmt.AllNoted.of_mem noted present
  | .expr _, _, present | .comment _, _, present | .use _, _, present | .parameter _, _, present
  | .returns _, _, present => nomatch present

theorem Alternate.Noted.of_mem : ∀ {alternate : Alternate}, alternate.Noted allowed →
    inner ∈ alternate.declarations → inner.Noted allowed
  | .none, _, present => nomatch present
  | .elseBranch .., noted, present => by
      rcases List.mem_append.mp present with present | present
      · exact Stmt.AllNoted.of_mem noted.1 present
      · exact Alternate.Noted.of_mem noted.2 present
  | .otherwise _, noted, present => Stmt.AllNoted.of_mem noted present

theorem Arm.Noted.of_mem : ∀ {a : Arm}, a.Noted allowed → inner ∈ a.declarations →
    inner.Noted allowed
  | .value .., noted, present | .otherwise _, noted, present =>
      Stmt.AllNoted.of_mem noted present

theorem Stmt.AllNoted.of_mem : ∀ {body : List Stmt}, Stmt.AllNoted allowed body →
    inner ∈ Stmt.allDeclarations body → inner.Noted allowed
  | [], _, present => nomatch present
  | _ :: _, noted, present => by
      rcases List.mem_append.mp present with present | present
      · exact Stmt.Noted.of_mem noted.1 present
      · exact Stmt.AllNoted.of_mem noted.2 present

theorem Arm.AllNoted.of_mem : ∀ {arms : List Arm}, Arm.AllNoted allowed arms →
    inner ∈ Arm.allDeclarations arms → inner.Noted allowed
  | [], _, present => nomatch present
  | _ :: _, noted, present => by
      rcases List.mem_append.mp present with present | present
      · exact Arm.Noted.of_mem noted.1 present
      · exact Arm.AllNoted.of_mem noted.2 present

end

mutual

/-- Trees that are alike have declarations that are alike. -/
theorem Stmt.Alike.of_mem : ∀ {s s' : Stmt}, s.Alike related s' → inner ∈ s'.declarations →
    ∃ outer : Stmt, outer.Alike related inner
  | _, _, .declare holds, present => List.mem_singleton.mp present ▸ ⟨_, .declare holds⟩
  | _, _, .prototype holds, present => List.mem_singleton.mp present ▸ ⟨_, .prototype holds⟩
  | _, _, .function holds body, present => by
      rcases List.mem_cons.mp present with rfl | present
      · exact ⟨_, .function holds body⟩
      · exact Stmt.AllAlike.of_mem body present
  | _, _, .branch body alternate, present => by
      rcases List.mem_append.mp present with present | present
      · exact Stmt.AllAlike.of_mem body present
      · exact Alternate.Alike.of_mem alternate present
  | _, _, .loop body, present => Stmt.AllAlike.of_mem body present
  | _, _, .switch arms, present => Arm.AllAlike.of_mem arms present
  | _, _, .arm single, present => Arm.Alike.of_mem single present
  | _, _, .merged body, present => Stmt.AllAlike.of_mem body present
  | _, _, .expr _, present | _, _, .comment _, present | _, _, .use _, present
  | _, _, .parameter _, present | _, _, .returns _, present => nomatch present

theorem Alternate.Alike.of_mem : ∀ {alternate alternate' : Alternate},
    alternate.Alike related alternate' → inner ∈ alternate'.declarations →
      ∃ outer : Stmt, outer.Alike related inner
  | _, _, .none, present => nomatch present
  | _, _, .elseBranch body alternate, present => by
      rcases List.mem_append.mp present with present | present
      · exact Stmt.AllAlike.of_mem body present
      · exact Alternate.Alike.of_mem alternate present
  | _, _, .otherwise body, present => Stmt.AllAlike.of_mem body present

theorem Arm.Alike.of_mem : ∀ {arm arm' : Arm}, arm.Alike related arm' →
    inner ∈ arm'.declarations → ∃ outer : Stmt, outer.Alike related inner
  | _, _, .value body, present | _, _, .otherwise body, present =>
      Stmt.AllAlike.of_mem body present

theorem Stmt.AllAlike.of_mem : ∀ {body body' : List Stmt}, Stmt.AllAlike related body body' →
    inner ∈ Stmt.allDeclarations body' → ∃ outer : Stmt, outer.Alike related inner
  | _, _, .nil, present => nomatch present
  | _, _, .cons first rest, present => by
      rcases List.mem_append.mp present with present | present
      · exact Stmt.Alike.of_mem first present
      · exact Stmt.AllAlike.of_mem rest present

theorem Arm.AllAlike.of_mem : ∀ {arms arms' : List Arm}, Arm.AllAlike related arms arms' →
    inner ∈ Arm.allDeclarations arms' → ∃ outer : Stmt, outer.Alike related inner
  | _, _, .nil, present => nomatch present
  | _, _, .cons first rest, present => by
      rcases List.mem_append.mp present with present | present
      · exact Arm.Alike.of_mem first present
      · exact Arm.AllAlike.of_mem rest present

end

end Declarations

theorem Notes.exists_type_of_written {note : Option Term} {written : Option TypeName}
    (notes : Notes Term.IsType note) (states : NotesType written note) :
    ∃ type, note = some (.concrete type) ∧ ∀ typeName ∈ written, typeName.type? = some type := by
  obtain ⟨term, rfl, isType⟩ := notes
  cases term with
  | pending => cases isType
  | concrete type =>
      refine ⟨type, rfl, fun typeName present => ?_⟩
      obtain ⟨other, found, same⟩ := states typeName present
      cases same
      exact found

/-- After inference no placeholder is left in any declaration. Every function, and every variable
with a type or a value, has a type there, and it is the written one if one is written. -/
theorem Program.types_of_infer {program typed : Program} {order : ForwardOrder}
    (inferred : program.infer order = .ok typed) :
    (∀ header body, .function header body ∈ Stmt.allDeclarations typed →
      ∃ type, header.resolved = some (.concrete type) ∧
        ∀ typeName ∈ header.returns, typeName.type? = some type) ∧
    ∀ decl, .declare decl ∈ Stmt.allDeclarations typed →
      (∀ term ∈ decl.resolved, term.IsType) ∧
      (decl.typeName.isSome ∨ decl.value.isSome →
        ∃ type, decl.resolved = some (.concrete type) ∧
          ∀ typeName ∈ decl.typeName, typeName.type? = some type) := by
  have noted := allNoted_of_infer inferred
  obtain ⟨part, last, _, _, settled⟩ := infer_eq_ok_iff.mp inferred
  constructor
  · intro header body present
    cases body with
    | none =>
        have holds := noted.of_mem present
        exact holds.1.exists_type_of_written holds.2.1
    | some body =>
        have holds := noted.of_mem present
        exact holds.1.exists_type_of_written holds.2.1
  · intro decl present
    have holds := noted.of_mem present
    constructor
    · obtain ⟨outer, alike⟩ := settled.of_mem present
      cases alike with
      | declare settles => exact settles.2
    · intro founded
      have notes : Notes Term.IsType decl.resolved := by
        cases written : decl.typeName with
        | some typeName =>
            obtain ⟨type, _, same⟩ := holds.1 typeName written
            exact ⟨.concrete type, same, rfl⟩
        | none =>
            rw [written] at founded
            exact holds.2 (founded.resolve_left nofun)
      exact notes.exists_type_of_written holds.1

namespace MergedSize

/-- A function that calls itself through another one inside it, and returns a variable of a merged
module, with some notes in all declarations. -/
def program (result size : Option Ty) : Program :=
  [.function ⟨"count", [⟨"n", "int", .null⟩], none, [], .null, result.map .concrete⟩ (some
      [.switch (.identifier "n" .null)
        [.value (.number "0")
          [.declare ⟨"first", true, none, some (.identifier "size" .null), .null,
              result.map .concrete⟩,
            .returns (some (.identifier "first" .null))],
         .otherwise
          [.function ⟨"step", [], none, [], .null, result.map .concrete⟩ (some
              [.returns (some (.call (.identifier "count" .null) [.number "0"]))]),
            .returns (some (.binary .add (.call (.identifier "step" .null) []) (.number "1")))]]]),
   .merged [.declare ⟨"size", true, some ⟨"i8", .null⟩, some (.number "8"), .null,
      size.map .concrete⟩]]

end MergedSize

open MergedSize in
/-- A variable that is tied to an `int` before its declaration is an `i8` all the same, where that
is written. -/
theorem Program.types_of_infer_merged_size :
    (program none none).infer .byUse = .ok (program (some .int) (some (.sized .w8))) ∧
      (∀ header body,
        .function header body ∈ Stmt.allDeclarations (program (some .int) (some (.sized .w8))) →
          ∃ type, header.resolved = some (.concrete type) ∧
            ∀ typeName ∈ header.returns, typeName.type? = some type) ∧
      ∀ decl, .declare decl ∈ Stmt.allDeclarations (program (some .int) (some (.sized .w8))) →
        (∀ term ∈ decl.resolved, term.IsType) ∧
        (decl.typeName.isSome ∨ decl.value.isSome →
          ∃ type, decl.resolved = some (.concrete type) ∧
            ∀ typeName ∈ decl.typeName, typeName.type? = some type) := by
  have inferred : (program none none).infer .byUse =
      .ok (program (some .int) (some (.sized .w8))) := by rfl
  exact ⟨inferred, Program.types_of_infer inferred⟩

end SmallLang
