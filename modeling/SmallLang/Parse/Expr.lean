import SmallLang.Keyword
import SmallLang.Parse.Number
import SmallLang.Parse.State

/-!
# Expressions

An expression is an operand and the operators that follow it. Calls, members, `++` and
`--` apply at once to all that was read; a binary operator applies if it binds tighter than
the level asked for, and then takes the operators to its right that bind tighter than it.
-/

set_option autoImplicit false

namespace SmallLang.Parse

/-- The binary operator that a token is, if it binds tighter than a level. -/
def operatorAbove? (power : Power) (token : Token) : Option BinaryOperator :=
  match token.kind with
  | .operator =>
      (BinaryOperator.ofSymbol? token.value).filter fun operator =>
        power.rank < operator.power.rank
  | _ => none

/-- The operand that a single token is: a literal or a name. -/
def atom? (token : Token) : Option Expr :=
  match token.kind with
  | .number => some (.number token.value)
  | .string => some (.string token.value)
  | .identifier => some (.identifier token.value token.position)
  | .keyword =>
      match Keyword.ofText? token.value with
      | some .true => some (.boolean true)
      | some .false => some (.boolean false)
      | some .null => some .null
      | _ => none
  | _ => none

def prefixOperator? (token : Token) : Option PrefixOperator :=
  if token.isOperator "-" then some .negate
  else if token.isOperator "!" then some .not
  else none

def postfixOperator? (token : Token) : Option PostfixOperator :=
  if token.isOperator "++" then some .increment
  else if token.isOperator "--" then some .decrement
  else none

mutual

/-- An expression whose binary operators bind tighter than `power`, to a bounded depth. -/
def expressionWithin : Nat → Power → Parse Expr
  | 0, _ => exhausted
  | depth + 1, power => do
      let left ← operandWithin depth
      operatorsWithin depth power left

/-- An operand: an atom, an expression in parentheses, or a prefix operator with what
follows it. -/
def operandWithin : Nat → Parse Expr
  | 0 => exhausted
  | depth + 1 => do
      let token ← current
      if token.kind == .number && !Number.isValid token.value then
        fail ⟨.malformedNumber token.value, token.position⟩
      else if let some atom := atom? token then
        consume
        return atom
      else if token.isDelimiter "(" then
        consume
        skipTrivia
        let inner ← expressionWithin depth .lowest
        skipTrivia
        let _ ← expect .delimiter ")"
        return inner
      else if let some operator := prefixOperator? token then
        consume
        return .prefixed operator (← expressionWithin depth .unary)
      else expected "expression"

/-- The operators that follow what was read so far. -/
def operatorsWithin : Nat → Power → Expr → Parse Expr
  | 0, _, _ => exhausted
  | depth + 1, power, left => do
      let token ← current
      if let some operator := postfixOperator? token then
        consume
        operatorsWithin depth power (.postfixed operator left)
      else if token.isOperator "." then
        consume
        let property ← identifier "property name after `.`"
        operatorsWithin depth power (.member left property)
      else if token.isDelimiter "(" then
        consume
        let arguments ← list (expressionWithin depth .lowest)
        operatorsWithin depth power (.call left arguments)
      else if let some operator := operatorAbove? power token then
        consume
        skipTrivia
        let right ← expressionWithin depth operator.power
        operatorsWithin depth power (.binary operator left right)
      else return left

end

/-- An expression whose binary operators bind tighter than `power`. No token is passed more
than twice on the way down. -/
def expression (power : Power) : Parse Expr := do
  expressionWithin (2 * (← get).rest.length + 2) power

end SmallLang.Parse
