import Mathlib.Algebra.GroupWithZero.Nat
import SmallLang.Source.Line

/-!
# Offsets and lines

A text is cut after each newline in one way only. An offset inside the text lies in exactly one of
the pieces, as far behind its first byte as the pieces in front of it leave over.
-/

set_option autoImplicit false

namespace SmallLang.Source

/-- The pieces of a text that is cut after each newline. No piece is empty, and none but the last
may lack the newline. -/
inductive Cuts : List Char → List (List Char) → Prop where
  | nothing : Cuts [] []
  | last {line : List Char} : line ≠ [] → '\n' ∉ line → Cuts line [line]
  | newline {line rest : List Char} {pieces : List (List Char)} :
      '\n' ∉ line → Cuts rest pieces → Cuts (line ++ '\n' :: rest) ((line ++ ['\n']) :: pieces)

/-- The place of an offset among pieces: the piece that holds it, numbered from 1, and what the
pieces in front of that one leave of the offset. -/
def Place.Holds (place : Place) (pieces : List (List Char)) (offset : Nat) : Prop :=
  ∃ before after, pieces = before ++ place.text :: after ∧ place.number = before.length + 1 ∧
    place.column < Text.byteLength place.text ∧
    (before.map Text.byteLength).sum + place.column = offset

section Lines

variable {line : List Char}

theorem lines_of_not_mem (filled : line ≠ []) (whole : '\n' ∉ line) : lines line = [line] := by
  induction line with
  | nil => exact absurd rfl filled
  | cons c rest ih =>
      obtain ⟨other, whole⟩ := not_or.mp (mt List.mem_cons.mpr whole)
      rw [lines, if_neg (Ne.symm other)]
      cases rest with
      | nil => rfl
      | cons d rest => rw [ih (List.cons_ne_nil d rest) whole]

theorem lines_append (whole : '\n' ∉ line) (rest : List Char) :
    lines (line ++ '\n' :: rest) = (line ++ ['\n']) :: lines rest := by
  induction line with
  | nil => simp [lines]
  | cons c line ih =>
      obtain ⟨other, whole⟩ := not_or.mp (mt List.mem_cons.mpr whole)
      rw [List.cons_append, lines, if_neg (Ne.symm other), ih whole]
      rfl

end Lines

theorem cuts_lines (text : List Char) : Cuts text (lines text) := by
  by_cases newline : '\n' ∈ text
  · obtain ⟨line, rest, splits, whole⟩ := List.eq_append_cons_of_mem newline
    have shorter : rest.length < text.length := by simp [splits]; omega
    rw [splits, lines_append whole]
    exact .newline whole (cuts_lines rest)
  · cases text with
    | nil => exact .nothing
    | cons c rest =>
        rw [lines_of_not_mem (List.cons_ne_nil c rest) newline]
        exact .last (List.cons_ne_nil c rest) newline
termination_by text.length

theorem Cuts.eq_lines {text : List Char} {pieces : List (List Char)} (cuts : Cuts text pieces) :
    pieces = lines text := by
  induction cuts with
  | nothing => rfl
  | last filled whole => rw [lines_of_not_mem filled whole]
  | newline whole _ ih => rw [lines_append whole, ih]

theorem Cuts.sum_byteLength {text : List Char} {pieces : List (List Char)}
    (cuts : Cuts text pieces) : (pieces.map Text.byteLength).sum = Text.byteLength text := by
  induction cuts with
  | nothing => rfl
  | last => simp
  | newline _ _ ih => simp [ih, Nat.add_assoc]

section Places

variable {pieces : List (List Char)} {number offset : Nat}

theorem placeIn_eq_none_iff :
    placeIn number pieces offset = none ↔ (pieces.map Text.byteLength).sum ≤ offset := by
  induction pieces generalizing number offset with
  | nil => simp [placeIn]
  | cons line later ih =>
      rw [placeIn, List.map_cons, List.sum_cons]
      split
      · next inside =>
          simp only [reduceCtorEq, false_iff]
          omega
      · next outside =>
          rw [ih]
          omega

theorem placeIn_eq_some_iff {place : Place} :
    placeIn number pieces offset = some place ↔
      ∃ before after, pieces = before ++ place.text :: after ∧
        place.number = number + before.length ∧ place.column < Text.byteLength place.text ∧
        (before.map Text.byteLength).sum + place.column = offset := by
  induction pieces generalizing number offset with
  | nil => simp [placeIn]
  | cons line later ih =>
      rw [placeIn]
      constructor
      · intro found
        split at found
        · next inside =>
            cases found
            exact ⟨[], later, rfl, rfl, inside, Nat.zero_add _⟩
        · next outside =>
            obtain ⟨before, after, rfl, counts, inside, adds⟩ := ih.mp found
            refine ⟨line :: before, after, rfl, ?_, inside, ?_⟩
            · rw [counts, List.length_cons]
              omega
            · rw [List.map_cons, List.sum_cons]
              omega
      · rintro ⟨before, after, splits, counts, inside, adds⟩
        cases before with
        | nil =>
            obtain ⟨rfl, rfl⟩ := List.cons.inj splits
            obtain ⟨first, text, column⟩ := place
            obtain rfl : first = number := counts
            obtain rfl : column = offset := (Nat.zero_add column).symm.trans adds
            rw [if_pos inside]
        | cons first before =>
            obtain ⟨rfl, rest⟩ := List.cons.inj splits
            rw [List.map_cons, List.sum_cons] at adds
            rw [List.length_cons] at counts
            rw [if_neg (by omega), ih]
            exact ⟨before, after, rest, by omega, inside, by omega⟩

end Places

/-- An offset has a place unless it is at or past the end of the text, and the place is the one
piece that holds it. -/
theorem place?_exact (content : String) (offset : Nat) :
    ∃ pieces, Cuts content.toList pieces ∧
      (∀ others, Cuts content.toList others → others = pieces) ∧
      (place? content offset = none ↔ content.utf8ByteSize ≤ offset) ∧
      ∀ place, place? content offset = some place ↔ place.Holds pieces offset := by
  have cuts := cuts_lines content.toList
  have size : ((lines content.toList).map Text.byteLength).sum = content.utf8ByteSize := by
    rw [cuts.sum_byteLength, Text.byteLength_eq, String.ofList_toList]
  refine ⟨lines content.toList, cuts, fun _ => Cuts.eq_lines, ?_, fun place => ?_⟩
  · rw [place?, placeIn_eq_none_iff, size]
  · rw [place?, placeIn_eq_some_iff, Place.Holds]
    simp only [Nat.add_comm 1]

end SmallLang.Source
