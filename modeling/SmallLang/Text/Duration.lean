/-!
# Durations

A duration is written in the largest unit of which it has at least one, with as many
decimals as it needs.
-/

set_option autoImplicit false

namespace SmallLang.Text

/-- The digits of a part of one unit, where `places` digits make a whole. No zeros stand at
the end. -/
def decimals (places part : Nat) : List Char :=
  let digits := Nat.toDigits 10 part
  let padded := List.replicate (places - digits.length) '0' ++ digits
  (padded.reverse.dropWhile (· == '0')).reverse

/-- A number of nanoseconds in a unit that has as many of them as a one with so many zeros. -/
def inUnit (places : Nat) (unit : String) (nanoseconds : Nat) : String :=
  let size := Nat.pow 10 places
  let whole := toString (nanoseconds / size)
  match decimals places (nanoseconds % size) with
  | [] => whole ++ unit
  | digits => whole ++ "." ++ String.ofList digits ++ unit

def duration (nanoseconds : Nat) : String :=
  if 1000000000 ≤ nanoseconds then inUnit 9 "s" nanoseconds
  else if 1000000 ≤ nanoseconds then inUnit 6 "ms" nanoseconds
  else if 1000 ≤ nanoseconds then inUnit 3 "µs" nanoseconds
  else inUnit 0 "ns" nanoseconds

end SmallLang.Text
