import SmallLang.Operator
import SmallLang.Types

/-!
# Operators and types

Which operands each operator takes, and what it yields.
-/

set_option autoImplicit false

namespace SmallLang

namespace BinaryOperator

/-- What an operator yields whatever its operands are. The others yield what their left
operand is. -/
def fixedResult? (operator : BinaryOperator) : Option Ty :=
  if operator = .divide then some .float
  else if operator.isComparison || operator.isLogical then some .bool
  else none

/-- Whether an operator takes operands of two types. Arithmetic takes numbers of one kind,
and division any numbers; comparisons take values of one kind, but not null; connectives
take truth values. -/
def accepts (operator : BinaryOperator) (left right : Ty) : Bool :=
  if operator.isArithmetic then
    left.isNumeric && right.isNumeric && (operator == .divide || left.sameKind right)
  else if operator.isComparison then
    left.sameKind right && left.kind != .null
  else left.kind == .bool && right.kind == .bool

end BinaryOperator

def PrefixOperator.accepts (operator : PrefixOperator) (operand : Ty) : Bool :=
  match operator with
  | .negate => operand.isNumeric
  | .not => operand.kind == .bool

end SmallLang
