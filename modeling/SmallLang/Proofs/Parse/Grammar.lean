import SmallLang.Proofs.Parse.Unbounded

/-!
# The grammar of expressions

Expressions by recursive descent, with a procedure for each level. A binary level is made of
operands of the next tighter level, and groups them from the left. The unary level is a prefix
operator before another unary expression, or else a primary expression and what is applied to it.
Here no operator is compared with a level: each level has its own operators, and is made of the next
tighter one only.
-/

set_option autoImplicit false

namespace SmallLang.Parse.Grammar

/-- The operator among some that a token is. -/
def oneOf? (operators : List BinaryOperator) (token : Token) : Option BinaryOperator :=
  if token.kind = .operator then
    operators.find? fun operator => operator.symbol == token.value
  else none

/-- The operators of one level, each with its right operand, to a bounded number. -/
def foldsWithin (operators : List BinaryOperator) (operand : Parse Expr) :
    Nat → Expr → Parse Expr
  | 0, _ => exhausted
  | depth + 1, left => do
      match oneOf? operators (← current) with
      | some operator =>
          consume
          skipTrivia
          let right ← operand
          foldsWithin operators operand depth (.binary operator left right)
      | none => return left

/-- A binary level: an operand, and then each operator of this level with another operand. -/
def level (operators : List BinaryOperator) (operand : Parse Expr) : Parse Expr := do
  let left ← operand
  foldsWithin operators operand ((← get).rest.length + 1) left

section Levels

variable (unary : Parse Expr)

def multiplicative : Parse Expr := level [.multiply, .divide] unary

def additive : Parse Expr := level [.add, .subtract] (multiplicative unary)

def relational : Parse Expr :=
  level [.less, .greater, .lessEquals, .greaterEquals] (additive unary)

def equality : Parse Expr := level [.equals, .notEquals] (relational unary)

def logical : Parse Expr := level [.and, .or] (equality unary)

/-- The loosest level that binds tighter than a power. -/
def above : Power → Parse Expr
  | .lowest => logical unary
  | .logical => equality unary
  | .equality => relational unary
  | .relational => additive unary
  | .additive => multiplicative unary
  | .multiplicative | .unary => unary

/-- A literal, a name, or any expression in parentheses. -/
def primary : Parse Expr := do
  let token ← current
  if token.kind == .number && !Number.isValid token.value then
    fail ⟨.malformedNumber token.value, token.position⟩
  else match atom? token with
    | some atom =>
        consume
        return atom
    | none =>
        if token.isDelimiter "(" then
          consume
          skipTrivia
          let inner ← logical unary
          skipTrivia
          let _ ← expect .delimiter ")"
          return inner
        else expected "expression"

/-- What is applied to an expression: `++`, `--`, members and arguments, to a bounded number. -/
def suffixesWithin : Nat → Expr → Parse Expr
  | 0, _ => exhausted
  | depth + 1, left => do
      let token ← current
      match postfixOperator? token with
      | some operator =>
          consume
          suffixesWithin depth (.postfixed operator left)
      | none =>
          if token.isOperator "." then
            consume
            let property ← identifier "property name after `.`"
            suffixesWithin depth (.member left property)
          else if token.isDelimiter "(" then
            consume
            let arguments ← list (logical unary)
            suffixesWithin depth (.call left arguments)
          else return left

/-- The unary level, by a parser for the unary expressions inside it. -/
def unaryUsing : Parse Expr := do
  match prefixOperator? (← current) with
  | some operator =>
      consume
      return .prefixed operator (← unary)
  | none =>
      let left ← primary unary
      suffixesWithin unary ((← get).rest.length + 1) left

end Levels

/-- The unary level, to a bounded depth. -/
def unaryWithin : Nat → Parse Expr
  | 0 => exhausted
  | depth + 1 => unaryUsing (unaryWithin depth)

/-- The unary level. Every unary expression inside another one stands after a token of it. -/
def unary : Parse Expr := deepEnough (fun state => state.rest.length + 1) unaryWithin

/-- An expression, from the loosest level on that binds tighter than `power`. -/
def expression (power : Power) : Parse Expr := above unary power

end SmallLang.Parse.Grammar
