import SmallLang.Check.Context
import SmallLang.Operator.Typing

/-!
# Checking expressions

The check of an expression finds its type. It finds none only after a complaint.
-/

set_option autoImplicit false

namespace SmallLang

namespace Check

/-- Complains if two known types are of different kinds. -/
def requireSame (cause : String → String → Cause) (expected received : Option Ty)
    (position : Position) : Check Unit :=
  match expected, received with
  | some expected, some received =>
      if expected.sameKind received then return
      else report (cause expected.name received.name) position
  | _, _ => return

def name (context : Context) (name : String) (position : Position) : Check (Option Ty) := do
  match ← ofExcept (context.scopes.lookup name position) with
  | .variable type _ => return type.type?
  | .function _ result => return result.type?
  | .builtin type =>
      report (.typeMismatch "value" ("type " ++ type.name)) position
      return none

/-- Complains of each argument of another kind than its parameter. -/
def argumentKinds (context : Context) : List Ty → List Expr → List (Option Ty) → Check Unit
  | parameter :: parameters, argument :: arguments, type :: types => do
      requireSame .argumentMismatch (some parameter) type (context.positionOf argument)
      argumentKinds context parameters arguments types
  | _, _, _ => return

/-- Complains of arguments that do not fit the parameters, in number or in kind. -/
def arguments (context : Context) (parameters : List Ty) (arguments : List Expr)
    (types : List (Option Ty)) (position : Position) : Check Unit :=
  if parameters.length < arguments.length then
    report (.tooManyArguments parameters.length arguments.length) position
  else if arguments.length < parameters.length then
    report (.tooFewArguments parameters.length arguments.length) position
  else argumentKinds context parameters arguments types

/-- The result type of an operation, if its operands fit. -/
def operation (operator : BinaryOperator) (left right : Option Ty) (position : Position) :
    Check (Option Ty) :=
  match left, right with
  | some left, some right => do
      if operator.accepts left right then return some (operator.fixedResult?.getD left)
      else
        report (.operatorMismatch operator.symbol left.name (some right.name)) position
        return none
  | _, _ => return none

def requireMutable (context : Context) (name : String) (position : Position) : Check Unit :=
  match context.scopes.resolve? name with
  | some (.variable _ false) => report (.constantModified name) position
  | _ => return

/-- The type of an operand if it is one that an operator takes. -/
def requireOperand (accepted : Ty → Bool) (symbol : String) (operand : Option Ty)
    (position : Position) : Check (Option Ty) :=
  match operand with
  | none => return none
  | some type => do
      if accepted type then return some type
      else
        report (.operatorMismatch symbol type.name none) position
        return none

end Check

namespace Expr

open Check (report)

mutual

def check (context : Check.Context) : Expr → Check (Option Ty)
  | .identifier name position => Check.name context name position
  | .member (.identifier space position) property =>
      Check.name context (qualifiedName space property) position
  | .member object property => do
      report (.memberOfValue property) (context.positionOf object)
      return none
  | .call callee arguments => do
      let types ← checkAll context arguments
      let position := context.positionOf callee
      match callee.symbol? with
      | none =>
          let _ ← callee.check context
          report (.notCallable callee.nodeName) position
          return none
      | some name =>
          match ← Check.ofExcept (context.scopes.lookup name position) with
          | .function parameters result =>
              Check.arguments context parameters arguments types position
              return result.type?
          | _ =>
              report (.notCallable name) position
              return none
  | .binary operator left right => do
      let first ← left.check context
      let second ← right.check context
      Check.operation operator first second (context.positionOf (.binary operator left right))
  | .prefixed operator operand => do
      let type ← operand.check context
      Check.requireOperand operator.accepts operator.symbol type (context.positionOf operand)
  | .postfixed operator (.identifier name position) => do
      let type ← Check.name context name position
      Check.requireMutable context name position
      Check.requireOperand Ty.isNumeric operator.symbol type position
  | .postfixed operator operand => do
      let _ ← operand.check context
      report (.notAssignable operator.symbol) (context.positionOf operand)
      return none
  | .number text => return some (numberType text)
  | .string _ => return some .string
  | .boolean _ => return some .bool
  | .null => return some .null

def checkAll (context : Check.Context) : List Expr → Check (List (Option Ty))
  | [] => return []
  | first :: rest => do
      let type ← first.check context
      let types ← checkAll context rest
      return type :: types

end

def check? (context : Check.Context) : Option Expr → Check (Option Ty)
  | none => return none
  | some expression => expression.check context

end Expr

end SmallLang
