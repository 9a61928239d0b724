/-!
# Numbers as they may be written

Which texts denote a number: an integer of 64 bits, or a decimal fraction with an optional
exponent.
-/

set_option autoImplicit false

namespace SmallLang.Number

/-- A text without one sign in front, and whether the sign was a minus. -/
def splitSign : List Char → Bool × List Char
  | '-' :: rest => (true, rest)
  | '+' :: rest => (false, rest)
  | text => (false, text)

def isDigits (text : List Char) : Bool := !text.isEmpty && text.all Char.isDigit

def digitsValue (digits : List Char) : Nat :=
  digits.foldl (fun value digit => 10 * value + (digit.toNat - 48)) 0

/-- How many integers from zero on 64 bits can hold, with a sign: 2 to the power of 63. -/
def integerLimit : Nat := 9223372036854775808

/-- Whether a text is an integer that 64 bits can hold. Below zero there is one more. -/
def isInteger (text : List Char) : Bool :=
  let (negative, digits) := splitSign text
  isDigits digits && digitsValue digits < if negative then integerLimit + 1 else integerLimit

/-- Whether a text is an exponent, or there is none. -/
def isExponent : List Char → Bool
  | [] => true
  | mark :: rest => (mark == 'e' || mark == 'E') && isDigits (splitSign rest).2

/-- Whether a text is a fraction: digits around a point, on one side at least, and an
optional exponent. -/
def isFraction (text : List Char) : Bool :=
  let digits := (splitSign text).2
  let whole := digits.takeWhile Char.isDigit
  match digits.dropWhile Char.isDigit with
  | '.' :: rest =>
      let part := rest.takeWhile Char.isDigit
      !(whole.isEmpty && part.isEmpty) && isExponent (rest.dropWhile Char.isDigit)
  | _ => false

/-- Whether a text is a number. A point makes it a fraction. -/
def isValid (text : String) : Bool :=
  if text.toList.contains '.' then isFraction text.toList else isInteger text.toList

end SmallLang.Number
