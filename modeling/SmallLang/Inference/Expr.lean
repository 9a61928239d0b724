import SmallLang.Inference.Engine
import SmallLang.Operator.Typing

/-!
# The terms of expressions

An expression gets its term from those of its parts, from the left to the right. A call has
the result of the function as its term, a name that of its declaration.
-/

set_option autoImplicit false

namespace SmallLang

def BinaryOperator.result (operator : BinaryOperator) (left : Term) : Term :=
  match operator.fixedResult? with
  | some type => .concrete type
  | none => left

namespace Infer

/-- The placeholder of a name without a declaration so far. -/
def forward (name : String) (position : Position) : Infer Term := fun engine =>
  match engine.forward.find? (·.name == name) with
  | some reference => .ok (.pending reference.placeholder) engine
  | none =>
      let placeholder := engine.table.next
      .ok (.pending placeholder)
        { engine.grow with forward := engine.forward ++ [⟨name, placeholder, position⟩] }

def name (name : String) (position : Position) : Infer Term := do
  let engine ← get
  match engine.lookup? name with
  | some (.variable type _) => return type
  | some (.function _ result) => return result
  | some (.builtin type) => fail ⟨.typeMismatch "value" ("type " ++ type.name), position⟩
  | none =>
      if engine.declaring = some name then fail ⟨.notDeclared name, position⟩
      else forward name position

/-- The term of an operation on two terms. Two known types have to be of one kind, except
for division. -/
def operation (operator : BinaryOperator) (left right : Term) (position : Position) :
    Infer Term :=
  match left, right with
  | .concrete first, .concrete second =>
      if operator = .divide ∨ first.sameKind second then return operator.result left
      else fail ⟨.operatorMismatch operator.symbol first.name (some second.name), position⟩
  | _, _ => do
      constrain left right
      let result ← fresh
      constrain result (operator.result left)
      return result

/-- The term of a call with arguments of given terms, if the callee names a function. A
wrong number of arguments asks for nothing. -/
def application (parameters : List Ty) (result : Term) (arguments : List Term) : Infer Term := do
  if parameters.length = arguments.length then
    update (·.constrainAll (arguments.zip (parameters.map .concrete)))
    return result
  else return result

end Infer

namespace Expr

mutual

def infer : Expr → Infer Term
  | .identifier name position => Infer.name name position
  | .member (.identifier space position) property =>
      Infer.name (qualifiedName space property) position
  | .member object property => do
      Infer.fail ⟨.memberOfValue property, (← get).positionOf object⟩
  | .call callee arguments => do
      let terms ← inferAll arguments
      match callee.symbol?.bind (← get).lookup? with
      | some (.function parameters result) => Infer.application parameters result terms
      | _ => callee.infer
  | .binary operator left right => do
      let first ← left.infer
      let second ← right.infer
      let position := (← get).positionOf (.binary operator left right)
      Infer.operation operator first second position
  | .prefixed .negate operand => operand.infer
  | .prefixed .not operand => do
      let term ← operand.infer
      Infer.constrain term (.concrete .bool)
      return .concrete .bool
  | .postfixed _ operand => operand.infer
  | .number text => return .concrete (numberType text)
  | .string _ => return .concrete .string
  | .boolean _ => return .concrete .bool
  | .null => return .concrete .null

def inferAll : List Expr → Infer (List Term)
  | [] => return []
  | first :: rest => do
      let term ← first.infer
      let terms ← inferAll rest
      return term :: terms

end

end Expr

end SmallLang
