/-!
# Operators

The operators of expressions, how they are written, and how tightly the binary ones bind.
-/

set_option autoImplicit false

namespace SmallLang

/-- Operators between two operands. -/
inductive BinaryOperator where
  | add
  | subtract
  | multiply
  | divide
  | equals
  | notEquals
  | less
  | greater
  | lessEquals
  | greaterEquals
  | and
  | or
  deriving DecidableEq, Repr

/-- Operators before their operand. -/
inductive PrefixOperator where
  | negate
  | not
  deriving DecidableEq, Repr

/-- Operators after their operand. -/
inductive PostfixOperator where
  | increment
  | decrement
  deriving DecidableEq, Repr

/-- The levels of binding, from the loosest. Prefix operators bind tighter than every binary
one, and `lowest` is looser than all. -/
inductive Power where
  | lowest
  | logical
  | equality
  | relational
  | additive
  | multiplicative
  | unary
  deriving DecidableEq, Repr

def Power.rank : Power → Nat
  | .lowest => 0
  | .logical => 1
  | .equality => 2
  | .relational => 3
  | .additive => 4
  | .multiplicative => 5
  | .unary => 6

namespace BinaryOperator

def all : List BinaryOperator :=
  [.add, .subtract, .multiply, .divide, .equals, .notEquals,
   .less, .greater, .lessEquals, .greaterEquals, .and, .or]

def symbol : BinaryOperator → String
  | .add => "+"
  | .subtract => "-"
  | .multiply => "*"
  | .divide => "/"
  | .equals => "=="
  | .notEquals => "!="
  | .less => "<"
  | .greater => ">"
  | .lessEquals => "<="
  | .greaterEquals => ">="
  | .and => "&&"
  | .or => "||"

def ofSymbol? (symbol : String) : Option BinaryOperator :=
  all.find? fun operator => operator.symbol == symbol

def power : BinaryOperator → Power
  | .and | .or => .logical
  | .equals | .notEquals => .equality
  | .less | .greater | .lessEquals | .greaterEquals => .relational
  | .add | .subtract => .additive
  | .multiply | .divide => .multiplicative

def isArithmetic : BinaryOperator → Bool
  | .add | .subtract | .multiply | .divide => true
  | _ => false

def isComparison : BinaryOperator → Bool
  | .equals | .notEquals | .less | .greater | .lessEquals | .greaterEquals => true
  | _ => false

def isLogical : BinaryOperator → Bool
  | .and | .or => true
  | _ => false

theorem mem_all (operator : BinaryOperator) : operator ∈ all := by
  cases operator <;> decide

@[simp] theorem ofSymbol?_symbol (operator : BinaryOperator) :
    ofSymbol? operator.symbol = some operator := by
  cases operator <;> decide

end BinaryOperator

def PrefixOperator.symbol : PrefixOperator → String
  | .negate => "-"
  | .not => "!"

def PostfixOperator.symbol : PostfixOperator → String
  | .increment => "++"
  | .decrement => "--"

end SmallLang
