/-!
# String literals

The body of a string literal, as it stands between the quotes, and the text it denotes.
-/

set_option autoImplicit false

namespace SmallLang.Literal

/-- The characters up to the closing quote. A backslash keeps the next character from
closing the literal, but a newline cannot follow one. `none` if the literal is not closed. -/
def body? : List Char → Option (List Char)
  | [] => none
  | '"' :: _ => some []
  | '\\' :: c :: rest => if c = '\n' then none else (body? rest).map ('\\' :: c :: ·)
  | c :: rest => (body? rest).map (c :: ·)

def hexValue? (c : Char) : Option Nat :=
  if '0' ≤ c ∧ c ≤ '9' then some (c.toNat - 48)
  else if 'a' ≤ c ∧ c ≤ 'f' then some (c.toNat - 87)
  else if 'A' ≤ c ∧ c ≤ 'F' then some (c.toNat - 55)
  else none

/-- The character that a letter stands for after a backslash. -/
def escape? : Char → Option Char
  | 'n' => some '\n'
  | 't' => some '\t'
  | 'r' => some '\r'
  | '\\' => some '\\'
  | '"' => some '"'
  | '0' => some (Char.ofNat 0)
  | _ => none

/-- The text that a body denotes. `\x` takes one or two hexadecimal digits and is the
character of that number; without a digit there is no text. Any other letter that is no
escape keeps its backslash. -/
def text? : List Char → Option (List Char)
  | [] => some []
  | ['\\', 'x'] => none
  | ['\\', 'x', digit] => (hexValue? digit).map fun value => [Char.ofNat value]
  | '\\' :: 'x' :: high :: low :: rest =>
      match hexValue? high, hexValue? low with
      | none, _ => none
      | some h, none => (text? (low :: rest)).map (Char.ofNat h :: ·)
      | some h, some l => (text? rest).map (Char.ofNat (16 * h + l) :: ·)
  | '\\' :: c :: rest =>
      match escape? c with
      | some denoted => (text? rest).map (denoted :: ·)
      | none => (text? rest).map ('\\' :: c :: ·)
  | c :: rest => (text? rest).map (c :: ·)

end SmallLang.Literal
