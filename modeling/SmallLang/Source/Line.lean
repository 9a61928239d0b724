import SmallLang.Text.Measure

/-!
# Lines

A text is cut after each newline. A byte offset lies in one of the pieces, or at or
past the end of the text.
-/

set_option autoImplicit false

namespace SmallLang.Source

/-- The pieces of a text, each with the newline that ends it. Only the last may lack one. -/
def lines : List Char → List (List Char)
  | [] => []
  | c :: rest =>
      if c = '\n' then [c] :: lines rest
      else match lines rest with
        | [] => [[c]]
        | line :: later => (c :: line) :: later

/-- A line that holds a given offset: its number from 1, its text with the newline, and
the offset counted from its first byte. -/
structure Place where
  number : Nat
  text : List Char
  column : Nat
  deriving DecidableEq, Repr

/-- The piece that holds byte `offset`, where the first piece has number `number`. -/
def placeIn (number : Nat) : List (List Char) → Nat → Option Place
  | [], _ => none
  | line :: later, offset =>
      if offset < Text.byteLength line then some ⟨number, line, offset⟩
      else placeIn (number + 1) later (offset - Text.byteLength line)

/-- The line that holds byte `offset`, or `none` at and past the end of the text. -/
def place? (content : String) (offset : Nat) : Option Place :=
  placeIn 1 (lines content.toList) offset

end SmallLang.Source
