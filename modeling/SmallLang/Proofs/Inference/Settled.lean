import SmallLang.Inference
import SmallLang.Proofs.Inference.Noted

/-!
# Settled programs

Settling replaces each note by the type that the table knows of it, and changes nothing else.
It fails only for a declaration of whose type nothing is known.
-/

set_option autoImplicit false

namespace SmallLang

section Except

variable {α β : Type}

private theorem bind_eq_ok_iff {first : Except Error α} {second : α → Except Error β} {found : β} :
    first >>= second = .ok found ↔ ∃ value, first = .ok value ∧ second value = .ok found := by
  cases first with
  | error error => simp [bind, Except.bind]
  | ok value => simp [bind, Except.bind]

private theorem pure_eq_ok_iff {value found : α} :
    (pure value : Except Error α) = .ok found ↔ value = found :=
  ⟨Except.ok.inj, congrArg Except.ok⟩

private theorem bind_eq_error {first : Except Error α} {second : α → Except Error β}
    {error : Error} (fails : first >>= second = .error error) :
    first = .error error ∨ ∃ value, second value = .error error := by
  cases first with
  | error other =>
      cases fails
      exact .inl rfl
  | ok value => exact .inr ⟨value, fails⟩

end Except

namespace Table

/-- What settling makes of a note: nothing of nothing, and a type of a term. -/
def Settles (table : Table) (note note' : Option Term) : Prop :=
  note' = note.map table.resolve ∧ ∀ term ∈ note', term.isPending = false

theorem settle?_eq_ok_iff {table : Table} {note note' : Option Term} {name : String}
    {position : Position} :
    table.settle? note name position = .ok note' ↔ table.Settles note note' := by
  unfold settle? Settles
  cases note with
  | none =>
      rw [pure_eq_ok_iff, eq_comm]
      constructor
      · rintro rfl
        exact ⟨rfl, nofun⟩
      · exact And.left
  | some term =>
      simp only [bind_eq_ok_iff, pure_eq_ok_iff, settle, Option.map_some]
      cases resolved : table.resolve term with
      | concrete type =>
          constructor
          · rintro ⟨_, ⟨⟩, rfl⟩
            exact ⟨rfl, by simp [Term.isPending]⟩
          · rintro ⟨rfl, _⟩
            exact ⟨_, rfl, rfl⟩
      | pending root =>
          constructor
          · rintro ⟨_, ⟨⟩, _⟩
          · rintro ⟨rfl, known⟩
            simp [Term.isPending] at known

theorem cause_of_settle?_eq_error {table : Table} {note : Option Term} {name : String}
    {position : Position} {error : Error}
    (fails : table.settle? note name position = .error error) :
    ∃ name, error.cause = .unresolvedType name := by
  unfold settle? at fails
  cases note with
  | none => cases fails
  | some term =>
      obtain fails | ⟨_, ⟨⟩⟩ := bind_eq_error fails
      unfold settle at fails
      split at fails
      · cases fails
      · cases fails
        exact ⟨name, rfl⟩

end Table

section

variable {table : Table}

mutual

theorem Stmt.settle_eq_ok_iff : ∀ (s : Stmt) {s' : Stmt},
    s.settle table = .ok s' ↔ s.Alike table.Settles s'
  | .expr e, _ => by
      simp only [Stmt.settle, pure_eq_ok_iff]
      constructor
      · rintro rfl
        exact .expr e
      · rintro ⟨⟩
        rfl
  | .comment text, _ => by
      simp only [Stmt.settle, pure_eq_ok_iff]
      constructor
      · rintro rfl
        exact .comment text
      · rintro ⟨⟩
        rfl
  | .use used, _ => by
      simp only [Stmt.settle, pure_eq_ok_iff]
      constructor
      · rintro rfl
        exact .use used
      · rintro ⟨⟩
        rfl
  | .parameter param, _ => by
      simp only [Stmt.settle, pure_eq_ok_iff]
      constructor
      · rintro rfl
        exact .parameter param
      · rintro ⟨⟩
        rfl
  | .returns value, _ => by
      simp only [Stmt.settle, pure_eq_ok_iff]
      constructor
      · rintro rfl
        exact .returns value
      · rintro ⟨⟩
        rfl
  | .declare decl, _ => by
      simp only [Stmt.settle, bind_eq_ok_iff, pure_eq_ok_iff, Table.settle?_eq_ok_iff]
      constructor
      · rintro ⟨note, settles, rfl⟩
        exact .declare settles
      · rintro (_ | _ | _ | _ | _ | settles)
        exact ⟨_, settles, rfl⟩
  | .function header none, _ => by
      simp only [Stmt.settle, bind_eq_ok_iff, pure_eq_ok_iff, Table.settle?_eq_ok_iff]
      constructor
      · rintro ⟨note, settles, rfl⟩
        exact .prototype settles
      · intro alike
        cases alike with
        | prototype settles => exact ⟨_, settles, rfl⟩
  | .function header (some body), _ => by
      simp only [Stmt.settle, bind_eq_ok_iff, pure_eq_ok_iff, Table.settle?_eq_ok_iff,
        Stmt.settleAll_eq_ok_iff body]
      constructor
      · rintro ⟨note, settles, body', alike, rfl⟩
        exact .function settles alike
      · intro alike
        cases alike with
        | function settles alike => exact ⟨_, settles, _, alike, rfl⟩
  | .branch condition body alternate, _ => by
      simp only [Stmt.settle, bind_eq_ok_iff, pure_eq_ok_iff, Stmt.settleAll_eq_ok_iff body,
        Alternate.settle_eq_ok_iff alternate]
      constructor
      · rintro ⟨body', alike, alternate', alike', rfl⟩
        exact .branch alike alike'
      · intro alike
        cases alike with
        | branch alike alike' => exact ⟨_, alike, _, alike', rfl⟩
  | .loop condition body, _ => by
      simp only [Stmt.settle, bind_eq_ok_iff, pure_eq_ok_iff, Stmt.settleAll_eq_ok_iff body]
      constructor
      · rintro ⟨body', alike, rfl⟩
        exact .loop alike
      · intro alike
        cases alike with
        | loop alike => exact ⟨_, alike, rfl⟩
  | .switch subject arms, _ => by
      simp only [Stmt.settle, bind_eq_ok_iff, pure_eq_ok_iff, Arm.settleAll_eq_ok_iff arms]
      constructor
      · rintro ⟨arms', alike, rfl⟩
        exact .switch alike
      · intro alike
        cases alike with
        | switch alike => exact ⟨_, alike, rfl⟩
  | .arm single, _ => by
      simp only [Stmt.settle, bind_eq_ok_iff, pure_eq_ok_iff, Arm.settle_eq_ok_iff single]
      constructor
      · rintro ⟨single', alike, rfl⟩
        exact .arm alike
      · intro alike
        cases alike with
        | arm alike => exact ⟨_, alike, rfl⟩
  | .merged body, _ => by
      simp only [Stmt.settle, bind_eq_ok_iff, pure_eq_ok_iff, Stmt.settleAll_eq_ok_iff body]
      constructor
      · rintro ⟨body', alike, rfl⟩
        exact .merged alike
      · intro alike
        cases alike with
        | merged alike => exact ⟨_, alike, rfl⟩
termination_by structural s => s

theorem Alternate.settle_eq_ok_iff : ∀ (alternate : Alternate) {alternate' : Alternate},
    alternate.settle table = .ok alternate' ↔ alternate.Alike table.Settles alternate'
  | .none, _ => by
      rw [Alternate.settle, pure_eq_ok_iff]
      constructor
      · rintro rfl
        exact .none
      · rintro ⟨⟩
        rfl
  | .elseBranch condition body alternate, _ => by
      simp only [Alternate.settle, bind_eq_ok_iff, pure_eq_ok_iff, Stmt.settleAll_eq_ok_iff body,
        Alternate.settle_eq_ok_iff alternate]
      constructor
      · rintro ⟨body', alike, alternate', alike', rfl⟩
        exact .elseBranch alike alike'
      · intro alike
        cases alike with
        | elseBranch alike alike' => exact ⟨_, alike, _, alike', rfl⟩
  | .otherwise body, _ => by
      simp only [Alternate.settle, bind_eq_ok_iff, pure_eq_ok_iff, Stmt.settleAll_eq_ok_iff body]
      constructor
      · rintro ⟨body', alike, rfl⟩
        exact .otherwise alike
      · intro alike
        cases alike with
        | otherwise alike => exact ⟨_, alike, rfl⟩
termination_by structural alternate => alternate

theorem Arm.settle_eq_ok_iff : ∀ (arm : Arm) {arm' : Arm},
    arm.settle table = .ok arm' ↔ arm.Alike table.Settles arm'
  | .value pattern body, _ => by
      simp only [Arm.settle, bind_eq_ok_iff, pure_eq_ok_iff, Stmt.settleAll_eq_ok_iff body]
      constructor
      · rintro ⟨body', alike, rfl⟩
        exact .value alike
      · intro alike
        cases alike with
        | value alike => exact ⟨_, alike, rfl⟩
  | .otherwise body, _ => by
      simp only [Arm.settle, bind_eq_ok_iff, pure_eq_ok_iff, Stmt.settleAll_eq_ok_iff body]
      constructor
      · rintro ⟨body', alike, rfl⟩
        exact .otherwise alike
      · intro alike
        cases alike with
        | otherwise alike => exact ⟨_, alike, rfl⟩
termination_by structural arm => arm

theorem Stmt.settleAll_eq_ok_iff : ∀ (body : List Stmt) {body' : List Stmt},
    Stmt.settleAll table body = .ok body' ↔ Stmt.AllAlike table.Settles body body'
  | [], _ => by
      rw [Stmt.settleAll, pure_eq_ok_iff]
      constructor
      · rintro rfl
        exact .nil
      · rintro ⟨⟩
        rfl
  | first :: rest, _ => by
      simp only [Stmt.settleAll, bind_eq_ok_iff, pure_eq_ok_iff, Stmt.settle_eq_ok_iff first,
        Stmt.settleAll_eq_ok_iff rest]
      constructor
      · rintro ⟨first', alike, rest', alike', rfl⟩
        exact .cons alike alike'
      · intro alike
        cases alike with
        | cons alike alike' => exact ⟨_, alike, _, alike', rfl⟩
termination_by structural body => body

theorem Arm.settleAll_eq_ok_iff : ∀ (arms : List Arm) {arms' : List Arm},
    Arm.settleAll table arms = .ok arms' ↔ Arm.AllAlike table.Settles arms arms'
  | [], _ => by
      rw [Arm.settleAll, pure_eq_ok_iff]
      constructor
      · rintro rfl
        exact .nil
      · rintro ⟨⟩
        rfl
  | first :: rest, _ => by
      simp only [Arm.settleAll, bind_eq_ok_iff, pure_eq_ok_iff, Arm.settle_eq_ok_iff first,
        Arm.settleAll_eq_ok_iff rest]
      constructor
      · rintro ⟨first', alike, rest', alike', rfl⟩
        exact .cons alike alike'
      · intro alike
        cases alike with
        | cons alike alike' => exact ⟨_, alike, _, alike', rfl⟩
termination_by structural arms => arms

end

mutual

/-- Settling a statement fails only where the table knows nothing. -/
theorem Stmt.cause_of_settle_eq_error : ∀ (s : Stmt) {error : Error},
    s.settle table = .error error → ∃ name, error.cause = .unresolvedType name
  | .declare decl, _, fails => by
      obtain fails | ⟨_, ⟨⟩⟩ := bind_eq_error fails
      exact Table.cause_of_settle?_eq_error fails
  | .function header none, _, fails => by
      obtain fails | ⟨_, ⟨⟩⟩ := bind_eq_error fails
      exact Table.cause_of_settle?_eq_error fails
  | .function header (some body), _, fails => by
      obtain fails | ⟨_, fails⟩ := bind_eq_error fails
      · exact Table.cause_of_settle?_eq_error fails
      · obtain fails | ⟨_, ⟨⟩⟩ := bind_eq_error fails
        exact Stmt.cause_of_settleAll_eq_error body fails
  | .branch condition body alternate, _, fails => by
      obtain fails | ⟨_, fails⟩ := bind_eq_error fails
      · exact Stmt.cause_of_settleAll_eq_error body fails
      · obtain fails | ⟨_, ⟨⟩⟩ := bind_eq_error fails
        exact Alternate.cause_of_settle_eq_error alternate fails
  | .loop condition body, _, fails => by
      obtain fails | ⟨_, ⟨⟩⟩ := bind_eq_error fails
      exact Stmt.cause_of_settleAll_eq_error body fails
  | .switch subject arms, _, fails => by
      obtain fails | ⟨_, ⟨⟩⟩ := bind_eq_error fails
      exact Arm.cause_of_settleAll_eq_error arms fails
  | .arm single, _, fails => by
      obtain fails | ⟨_, ⟨⟩⟩ := bind_eq_error fails
      exact Arm.cause_of_settle_eq_error single fails
  | .merged body, _, fails => by
      obtain fails | ⟨_, ⟨⟩⟩ := bind_eq_error fails
      exact Stmt.cause_of_settleAll_eq_error body fails
  | .expr _, _, fails | .comment _, _, fails | .use _, _, fails | .parameter _, _, fails
  | .returns _, _, fails => by
      simp only [Stmt.settle] at fails
      cases fails
termination_by structural s => s

theorem Alternate.cause_of_settle_eq_error : ∀ (alternate : Alternate) {error : Error},
    alternate.settle table = .error error → ∃ name, error.cause = .unresolvedType name
  | .none, _, fails => by
      simp only [Alternate.settle] at fails
      cases fails
  | .elseBranch condition body alternate, _, fails => by
      obtain fails | ⟨_, fails⟩ := bind_eq_error fails
      · exact Stmt.cause_of_settleAll_eq_error body fails
      · obtain fails | ⟨_, ⟨⟩⟩ := bind_eq_error fails
        exact Alternate.cause_of_settle_eq_error alternate fails
  | .otherwise body, _, fails => by
      obtain fails | ⟨_, ⟨⟩⟩ := bind_eq_error fails
      exact Stmt.cause_of_settleAll_eq_error body fails
termination_by structural alternate => alternate

theorem Arm.cause_of_settle_eq_error : ∀ (arm : Arm) {error : Error},
    arm.settle table = .error error → ∃ name, error.cause = .unresolvedType name
  | .value pattern body, _, fails | .otherwise body, _, fails => by
      obtain fails | ⟨_, ⟨⟩⟩ := bind_eq_error fails
      exact Stmt.cause_of_settleAll_eq_error body fails
termination_by structural arm => arm

theorem Stmt.cause_of_settleAll_eq_error : ∀ (body : List Stmt) {error : Error},
    Stmt.settleAll table body = .error error → ∃ name, error.cause = .unresolvedType name
  | [], _, fails => by
      simp only [Stmt.settleAll] at fails
      cases fails
  | first :: rest, _, fails => by
      obtain fails | ⟨_, fails⟩ := bind_eq_error fails
      · exact Stmt.cause_of_settle_eq_error first fails
      · obtain fails | ⟨_, ⟨⟩⟩ := bind_eq_error fails
        exact Stmt.cause_of_settleAll_eq_error rest fails
termination_by structural body => body

theorem Arm.cause_of_settleAll_eq_error : ∀ (arms : List Arm) {error : Error},
    Arm.settleAll table arms = .error error → ∃ name, error.cause = .unresolvedType name
  | [], _, fails => by
      simp only [Arm.settleAll] at fails
      cases fails
  | first :: rest, _, fails => by
      obtain fails | ⟨_, fails⟩ := bind_eq_error fails
      · exact Arm.cause_of_settle_eq_error first fails
      · obtain fails | ⟨_, ⟨⟩⟩ := bind_eq_error fails
        exact Arm.cause_of_settleAll_eq_error rest fails
termination_by structural arms => arms

end

end

/-- A type. -/
def Term.IsType (term : Term) : Prop := term.isPending = false

namespace Table

variable {table : Table} {note note' : Option Term}

theorem Settles.notes {allowed : Term → Prop} (settles : table.Settles note note')
    (notes : Notes allowed note) : Notes Term.IsType note' := by
  obtain ⟨rfl, known⟩ := settles
  obtain ⟨term, rfl, _⟩ := notes
  exact ⟨table.resolve term, rfl, known _ rfl⟩

theorem Settles.of_type {type : Ty} (settles : table.Settles note note')
    (noted : note = some (.concrete type)) : note' = some (.concrete type) := by
  rw [settles.1, noted]
  rfl

theorem Settles.notesType {written : Option TypeName} (settles : table.Settles note note')
    (notes : NotesType written note) : NotesType written note' := by
  intro typeName present
  obtain ⟨type, isType, noted⟩ := notes typeName present
  exact ⟨type, isType, settles.of_type noted⟩

/-- Settling again changes nothing, whatever the table. -/
theorem Settles.again (settles : table.Settles note note') (other : Table) :
    other.Settles note' note' := by
  refine ⟨?_, settles.2⟩
  cases note' with
  | none => rfl
  | some term =>
      cases term with
      | concrete type => rfl
      | pending root => cases settles.2 _ rfl

end Table

section

variable {table : Table} {allowed : Term → Prop}

mutual

/-- Settling keeps what a walk guarantees, and leaves only types. -/
theorem Stmt.Noted.settled : ∀ {s s' : Stmt}, s.Alike table.Settles s' →
    s.Noted allowed → s'.Noted Term.IsType
  | _, _, .expr _, _ | _, _, .comment _, _ | _, _, .use _, _ | _, _, .parameter _, _
  | _, _, .returns _, _ => trivial
  | _, _, .declare settles, noted =>
      ⟨settles.notesType noted.1, fun isValued => settles.notes (noted.2 isValued)⟩
  | _, _, .prototype settles, noted =>
      ⟨settles.notes noted.1, settles.notesType noted.2.1, fun unwritten external =>
        settles.of_type (noted.2.2 unwritten external)⟩
  | _, _, .function settles body, noted =>
      ⟨settles.notes noted.1, settles.notesType noted.2.1, fun unwritten none =>
        settles.of_type (noted.2.2.1 unwritten (body.returnCountAll_eq.trans none)),
        Stmt.AllNoted.settled body noted.2.2.2⟩
  | _, _, .branch body alternate, noted =>
      ⟨Stmt.AllNoted.settled body noted.1, Alternate.Noted.settled alternate noted.2⟩
  | _, _, .loop body, noted => Stmt.AllNoted.settled body noted
  | _, _, .switch arms, noted => Arm.AllNoted.settled arms noted
  | _, _, .arm single, noted => Arm.Noted.settled single noted
  | _, _, .merged body, noted => Stmt.AllNoted.settled body noted

theorem Alternate.Noted.settled : ∀ {alternate alternate' : Alternate},
    alternate.Alike table.Settles alternate' → alternate.Noted allowed →
      alternate'.Noted Term.IsType
  | _, _, .none, _ => trivial
  | _, _, .elseBranch body alternate, noted =>
      ⟨Stmt.AllNoted.settled body noted.1, Alternate.Noted.settled alternate noted.2⟩
  | _, _, .otherwise body, noted => Stmt.AllNoted.settled body noted

theorem Arm.Noted.settled : ∀ {arm arm' : Arm}, arm.Alike table.Settles arm' →
    arm.Noted allowed → arm'.Noted Term.IsType
  | _, _, .value body, noted => Stmt.AllNoted.settled body noted
  | _, _, .otherwise body, noted => Stmt.AllNoted.settled body noted

theorem Stmt.AllNoted.settled : ∀ {body body' : List Stmt},
    Stmt.AllAlike table.Settles body body' → Stmt.AllNoted allowed body →
      Stmt.AllNoted Term.IsType body'
  | _, _, .nil, _ => trivial
  | _, _, .cons first rest, noted =>
      ⟨Stmt.Noted.settled first noted.1, Stmt.AllNoted.settled rest noted.2⟩

theorem Arm.AllNoted.settled : ∀ {arms arms' : List Arm},
    Arm.AllAlike table.Settles arms arms' → Arm.AllNoted allowed arms →
      Arm.AllNoted Term.IsType arms'
  | _, _, .nil, _ => trivial
  | _, _, .cons first rest, noted =>
      ⟨Arm.Noted.settled first noted.1, Arm.AllNoted.settled rest noted.2⟩

end

end

end SmallLang
