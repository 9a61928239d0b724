import Mathlib.Data.List.Forall2
import SmallLang.Proofs.Tree.Alike

/-!
# The notes in a tree

The notes in a tree, in the order in which they stand there. Trees that differ at most in
their notes are alike exactly if the notes are related one by one.
-/

set_option autoImplicit false

namespace SmallLang

mutual

/-- The notes in a statement. -/
def Stmt.notes : Stmt → List (Option Term)
  | .declare decl => [decl.resolved]
  | .function header none => [header.resolved]
  | .function header (some body) => header.resolved :: Stmt.allNotes body
  | .branch _ body alternate => Stmt.allNotes body ++ alternate.notes
  | .loop _ body => Stmt.allNotes body
  | .switch _ arms => Arm.allNotes arms
  | .arm single => single.notes
  | .merged body => Stmt.allNotes body
  | .expr _ | .comment _ | .use _ | .parameter _ | .returns _ => []

def Alternate.notes : Alternate → List (Option Term)
  | .none => []
  | .elseBranch _ body alternate => Stmt.allNotes body ++ alternate.notes
  | .otherwise body => Stmt.allNotes body

def Arm.notes : Arm → List (Option Term)
  | .value _ body => Stmt.allNotes body
  | .otherwise body => Stmt.allNotes body

/-- The notes in statements, one after the other. -/
def Stmt.allNotes : List Stmt → List (Option Term)
  | [] => []
  | first :: rest => first.notes ++ Stmt.allNotes rest

/-- The notes in arms, one after the other. -/
def Arm.allNotes : List Arm → List (Option Term)
  | [] => []
  | first :: rest => first.notes ++ Arm.allNotes rest

end

theorem Stmt.mem_allNotes_iff {body : List Stmt} {note : Option Term} :
    note ∈ Stmt.allNotes body ↔ ∃ s ∈ body, note ∈ s.notes := by
  induction body with
  | nil => simp [Stmt.allNotes]
  | cons first rest ih => simp [Stmt.allNotes, ih]

/-- Two notes that need not have anything in common. -/
def Unrelated (_ _ : Option Term) : Prop := True

section Related

variable {related : Option Term → Option Term → Prop}

mutual

theorem Stmt.Alike.notes : ∀ {s s' : Stmt}, s.Alike related s' →
    List.Forall₂ related s.notes s'.notes
  | _, _, .expr _ | _, _, .comment _ | _, _, .use _ | _, _, .parameter _ | _, _, .returns _ => .nil
  | _, _, .declare holds | _, _, .prototype holds => .cons holds .nil
  | _, _, .function holds body => .cons holds (Stmt.AllAlike.allNotes body)
  | _, _, .branch body alternate =>
      List.rel_append (Stmt.AllAlike.allNotes body) (Alternate.Alike.notes alternate)
  | _, _, .loop body | _, _, .merged body => Stmt.AllAlike.allNotes body
  | _, _, .switch arms => Arm.AllAlike.allNotes arms
  | _, _, .arm single => Arm.Alike.notes single

theorem Alternate.Alike.notes : ∀ {alternate alternate' : Alternate},
    alternate.Alike related alternate' →
      List.Forall₂ related alternate.notes alternate'.notes
  | _, _, .none => .nil
  | _, _, .elseBranch body alternate =>
      List.rel_append (Stmt.AllAlike.allNotes body) (Alternate.Alike.notes alternate)
  | _, _, .otherwise body => Stmt.AllAlike.allNotes body

theorem Arm.Alike.notes : ∀ {arm arm' : Arm}, arm.Alike related arm' →
    List.Forall₂ related arm.notes arm'.notes
  | _, _, .value body | _, _, .otherwise body => Stmt.AllAlike.allNotes body

theorem Stmt.AllAlike.allNotes : ∀ {body body' : List Stmt},
    Stmt.AllAlike related body body' →
      List.Forall₂ related (Stmt.allNotes body) (Stmt.allNotes body')
  | _, _, .nil => .nil
  | _, _, .cons first rest =>
      List.rel_append (Stmt.Alike.notes first) (Stmt.AllAlike.allNotes rest)

theorem Arm.AllAlike.allNotes : ∀ {arms arms' : List Arm}, Arm.AllAlike related arms arms' →
    List.Forall₂ related (Arm.allNotes arms) (Arm.allNotes arms')
  | _, _, .nil => .nil
  | _, _, .cons first rest =>
      List.rel_append (Arm.Alike.notes first) (Arm.AllAlike.allNotes rest)

end

private theorem forall₂_append {first first' second second' : List (Option Term)}
    (counts : first.length = first'.length)
    (holds : List.Forall₂ related (first ++ second) (first' ++ second')) :
    List.Forall₂ related first first' ∧ List.Forall₂ related second second' := by
  induction first generalizing first' with
  | nil =>
      obtain rfl : first' = [] := List.length_eq_zero_iff.mp counts.symm
      exact ⟨.nil, holds⟩
  | cons note notes ih =>
      cases first' with
      | nil => cases counts
      | cons note' notes' =>
          rw [List.cons_append, List.cons_append, List.forall₂_cons] at holds
          obtain ⟨holds', holds''⟩ := ih (Nat.succ.inj counts) holds.2
          exact ⟨.cons holds.1 holds', holds''⟩

mutual

/-- Trees that differ at most in their notes are alike if their notes are related. -/
theorem Stmt.Alike.of_notes : ∀ {s s' : Stmt}, s.Alike Unrelated s' →
    List.Forall₂ related s.notes s'.notes → s.Alike related s'
  | _, _, .expr e, _ => .expr e
  | _, _, .comment text, _ => .comment text
  | _, _, .use used, _ => .use used
  | _, _, .parameter param, _ => .parameter param
  | _, _, .returns value, _ => .returns value
  | _, _, .declare _, .cons holds _ => .declare holds
  | _, _, .prototype _, .cons holds _ => .prototype holds
  | _, _, .function _ body, .cons holds notes =>
      .function holds (Stmt.AllAlike.of_allNotes body notes)
  | _, _, .branch body alternate, holds => by
      obtain ⟨notes, notes'⟩ := forall₂_append body.allNotes.length_eq holds
      exact .branch (Stmt.AllAlike.of_allNotes body notes)
        (Alternate.Alike.of_notes alternate notes')
  | _, _, .loop body, notes => .loop (Stmt.AllAlike.of_allNotes body notes)
  | _, _, .switch arms, notes => .switch (Arm.AllAlike.of_allNotes arms notes)
  | _, _, .arm single, notes => .arm (Arm.Alike.of_notes single notes)
  | _, _, .merged body, notes => .merged (Stmt.AllAlike.of_allNotes body notes)

theorem Alternate.Alike.of_notes : ∀ {alternate alternate' : Alternate},
    alternate.Alike Unrelated alternate' →
      List.Forall₂ related alternate.notes alternate'.notes → alternate.Alike related alternate'
  | _, _, .none, _ => .none
  | _, _, .elseBranch body alternate, holds => by
      obtain ⟨notes, notes'⟩ := forall₂_append body.allNotes.length_eq holds
      exact .elseBranch (Stmt.AllAlike.of_allNotes body notes)
        (Alternate.Alike.of_notes alternate notes')
  | _, _, .otherwise body, notes => .otherwise (Stmt.AllAlike.of_allNotes body notes)

theorem Arm.Alike.of_notes : ∀ {arm arm' : Arm}, arm.Alike Unrelated arm' →
    List.Forall₂ related arm.notes arm'.notes → arm.Alike related arm'
  | _, _, .value body, notes => .value (Stmt.AllAlike.of_allNotes body notes)
  | _, _, .otherwise body, notes => .otherwise (Stmt.AllAlike.of_allNotes body notes)

theorem Stmt.AllAlike.of_allNotes : ∀ {body body' : List Stmt},
    Stmt.AllAlike Unrelated body body' →
      List.Forall₂ related (Stmt.allNotes body) (Stmt.allNotes body') →
      Stmt.AllAlike related body body'
  | _, _, .nil, _ => .nil
  | _, _, .cons first rest, holds => by
      obtain ⟨notes, notes'⟩ := forall₂_append first.notes.length_eq holds
      exact .cons (Stmt.Alike.of_notes first notes) (Stmt.AllAlike.of_allNotes rest notes')

theorem Arm.AllAlike.of_allNotes : ∀ {arms arms' : List Arm},
    Arm.AllAlike Unrelated arms arms' →
      List.Forall₂ related (Arm.allNotes arms) (Arm.allNotes arms') →
      Arm.AllAlike related arms arms'
  | _, _, .nil, _ => .nil
  | _, _, .cons first rest, holds => by
      obtain ⟨notes, notes'⟩ := forall₂_append first.notes.length_eq holds
      exact .cons (Arm.Alike.of_notes first notes) (Arm.AllAlike.of_allNotes rest notes')

end

private theorem mem_parts {α β : Type} {first second : List α} {holds : α → β → Prop}
    (all : ∀ note ∈ first ++ second, ∃ note', holds note note') :
    (∀ note ∈ first, ∃ note', holds note note') ∧ ∀ note ∈ second, ∃ note', holds note note' :=
  ⟨fun note present => all note (List.mem_append_left second present),
    fun note present => all note (List.mem_append_right first present)⟩

mutual

/-- Where each note has a related one, some tree is alike. -/
theorem Stmt.exists_alike : ∀ (s : Stmt), (∀ note ∈ s.notes, ∃ note', related note note') →
    ∃ s', s.Alike related s'
  | .expr e, _ => ⟨_, .expr e⟩
  | .comment text, _ => ⟨_, .comment text⟩
  | .use used, _ => ⟨_, .use used⟩
  | .parameter param, _ => ⟨_, .parameter param⟩
  | .returns value, _ => ⟨_, .returns value⟩
  | .declare _, all => by
      obtain ⟨note', holds⟩ := all _ (List.mem_singleton.mpr rfl)
      exact ⟨_, .declare holds⟩
  | .function _ none, all => by
      obtain ⟨note', holds⟩ := all _ (List.mem_singleton.mpr rfl)
      exact ⟨_, .prototype holds⟩
  | .function _ (some body), all => by
      obtain ⟨note', holds⟩ := all _ (List.mem_cons_self ..)
      obtain ⟨body', alike⟩ := Stmt.exists_allAlike body fun note present =>
        all note (List.mem_cons_of_mem _ present)
      exact ⟨_, .function holds alike⟩
  | .branch _ body alternate, all => by
      obtain ⟨body', alike⟩ := Stmt.exists_allAlike body (mem_parts all).1
      obtain ⟨alternate', alike'⟩ := Alternate.exists_alike alternate (mem_parts all).2
      exact ⟨_, .branch alike alike'⟩
  | .loop _ body, all => by
      obtain ⟨body', alike⟩ := Stmt.exists_allAlike body all
      exact ⟨_, .loop alike⟩
  | .switch _ arms, all => by
      obtain ⟨arms', alike⟩ := Arm.exists_allAlike arms all
      exact ⟨_, .switch alike⟩
  | .arm single, all => by
      obtain ⟨single', alike⟩ := Arm.exists_alike single all
      exact ⟨_, .arm alike⟩
  | .merged body, all => by
      obtain ⟨body', alike⟩ := Stmt.exists_allAlike body all
      exact ⟨_, .merged alike⟩

theorem Alternate.exists_alike : ∀ (alternate : Alternate),
    (∀ note ∈ alternate.notes, ∃ note', related note note') →
      ∃ alternate', alternate.Alike related alternate'
  | .none, _ => ⟨_, .none⟩
  | .elseBranch _ body alternate, all => by
      obtain ⟨body', alike⟩ := Stmt.exists_allAlike body (mem_parts all).1
      obtain ⟨alternate', alike'⟩ := Alternate.exists_alike alternate (mem_parts all).2
      exact ⟨_, .elseBranch alike alike'⟩
  | .otherwise body, all => by
      obtain ⟨body', alike⟩ := Stmt.exists_allAlike body all
      exact ⟨_, .otherwise alike⟩

theorem Arm.exists_alike : ∀ (arm : Arm), (∀ note ∈ arm.notes, ∃ note', related note note') →
    ∃ arm', arm.Alike related arm'
  | .value _ body, all => by
      obtain ⟨body', alike⟩ := Stmt.exists_allAlike body all
      exact ⟨_, .value alike⟩
  | .otherwise body, all => by
      obtain ⟨body', alike⟩ := Stmt.exists_allAlike body all
      exact ⟨_, .otherwise alike⟩

theorem Stmt.exists_allAlike : ∀ (body : List Stmt),
    (∀ note ∈ Stmt.allNotes body, ∃ note', related note note') →
      ∃ body', Stmt.AllAlike related body body'
  | [], _ => ⟨_, .nil⟩
  | first :: rest, all => by
      obtain ⟨first', alike⟩ := Stmt.exists_alike first (mem_parts all).1
      obtain ⟨rest', alike'⟩ := Stmt.exists_allAlike rest (mem_parts all).2
      exact ⟨_, .cons alike alike'⟩

theorem Arm.exists_allAlike : ∀ (arms : List Arm),
    (∀ note ∈ Arm.allNotes arms, ∃ note', related note note') →
      ∃ arms', Arm.AllAlike related arms arms'
  | [], _ => ⟨_, .nil⟩
  | first :: rest, all => by
      obtain ⟨first', alike⟩ := Arm.exists_alike first (mem_parts all).1
      obtain ⟨rest', alike'⟩ := Arm.exists_allAlike rest (mem_parts all).2
      exact ⟨_, .cons alike alike'⟩

end

end Related

mutual

theorem Stmt.bare_alike : ∀ (s : Stmt), s.bare.Alike Unrelated s
  | .expr e => .expr e
  | .comment text => .comment text
  | .use used => .use used
  | .parameter param => .parameter param
  | .returns value => .returns value
  | .declare decl => @Stmt.Alike.declare Unrelated { decl with resolved := none } _ trivial
  | .function header none =>
      @Stmt.Alike.prototype Unrelated { header with resolved := none } _ trivial
  | .function header (some body) =>
      @Stmt.Alike.function Unrelated { header with resolved := none } _ _ _ trivial
        (Stmt.allBare_allAlike body)
  | .branch _ body alternate =>
      .branch (Stmt.allBare_allAlike body) (Alternate.bare_alike alternate)
  | .loop _ body => .loop (Stmt.allBare_allAlike body)
  | .switch _ arms => .switch (Arm.allBare_allAlike arms)
  | .arm single => .arm (Arm.bare_alike single)
  | .merged body => .merged (Stmt.allBare_allAlike body)

theorem Alternate.bare_alike : ∀ (alternate : Alternate), alternate.bare.Alike Unrelated alternate
  | .none => .none
  | .elseBranch _ body alternate =>
      .elseBranch (Stmt.allBare_allAlike body) (Alternate.bare_alike alternate)
  | .otherwise body => .otherwise (Stmt.allBare_allAlike body)

theorem Arm.bare_alike : ∀ (arm : Arm), arm.bare.Alike Unrelated arm
  | .value _ body => .value (Stmt.allBare_allAlike body)
  | .otherwise body => .otherwise (Stmt.allBare_allAlike body)

theorem Stmt.allBare_allAlike : ∀ (body : List Stmt),
    Stmt.AllAlike Unrelated (Stmt.allBare body) body
  | [] => .nil
  | first :: rest => .cons (Stmt.bare_alike first) (Stmt.allBare_allAlike rest)

theorem Arm.allBare_allAlike : ∀ (arms : List Arm), Arm.AllAlike Unrelated (Arm.allBare arms) arms
  | [] => .nil
  | first :: rest => .cons (Arm.bare_alike first) (Arm.allBare_allAlike rest)

end

end SmallLang
