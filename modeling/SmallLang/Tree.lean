import SmallLang.Operator
import SmallLang.Text.Split
import SmallLang.Types

/-!
# Programs as trees

A program is a list of statements. Expressions occur only inside statements and never hold
one. What inference finds out is written into declarations, and nowhere else.
-/

set_option autoImplicit false

namespace SmallLang

/-- Expressions. Parentheses leave no trace. -/
inductive Expr where
  | identifier (name : String) (position : Position)
  | member (object : Expr) (property : String)
  | call (callee : Expr) (arguments : List Expr)
  | binary (operator : BinaryOperator) (left right : Expr)
  | prefixed (operator : PrefixOperator) (operand : Expr)
  | postfixed (operator : PostfixOperator) (operand : Expr)
  /-- A number as it was written. -/
  | number (text : String)
  | string (value : String)
  | boolean (value : Bool)
  | null
  deriving Repr

/-- What may stand before a function. -/
inductive Modifier where
  | pub
  | external
  deriving DecidableEq, Repr

/-- A function parameter. Its type is always written out. -/
structure Parameter where
  name : String
  typeName : TypeName
  deriving DecidableEq, Repr

/-- All of a function declaration but its body. `resolved` is the return type that inference
found. -/
structure FunctionHeader where
  name : String
  parameters : List Parameter
  returns : Option TypeName
  modifiers : List Modifier
  position : Position
  resolved : Option Term
  deriving DecidableEq, Repr

/-- A variable or a constant. `resolved` is the type that inference found. -/
structure Variable where
  name : String
  mutable : Bool
  typeName : Option TypeName
  value : Option Expr
  position : Position
  resolved : Option Term
  deriving Repr

/-- The use of a module, possibly under another name than its own. -/
structure Use where
  path : String
  rename : Option String
  position : Position
  deriving DecidableEq, Repr

mutual

/-- Statements. Parameters and arms are statements of their own only in a program that was
taken apart; a merged module stands where its use stood. -/
inductive Stmt where
  | expr (expression : Expr)
  | comment (text : String)
  | use (used : Use)
  | parameter (parameter : Parameter)
  | returns (value : Option Expr)
  | declare (decl : Variable)
  /-- A function without a body is defined elsewhere. -/
  | function (header : FunctionHeader) (body : Option (List Stmt))
  | branch (condition : Expr) (body : List Stmt) (alternate : Alternate)
  | loop (condition : Expr) (body : List Stmt)
  | switch (subject : Expr) (arms : List Arm)
  | arm (single : Arm)
  | merged (body : List Stmt)

inductive Alternate where
  | none
  | elseBranch (condition : Expr) (body : List Stmt) (alternate : Alternate)
  | otherwise (body : List Stmt)

/-- One arm of a switch. The arm without a pattern takes what the others leave. -/
inductive Arm where
  | value (pattern : Expr) (body : List Stmt)
  | otherwise (body : List Stmt)

end

/-- A program: the statements of a file, and of the modules merged into it. -/
abbrev Program := List Stmt

namespace FunctionHeader

/-- Whether the function is defined elsewhere. -/
def isExternal (header : FunctionHeader) : Bool := header.modifiers.contains .external

/-- Whether the function is offered to other modules. -/
def isPublic (header : FunctionHeader) : Bool := header.modifiers.contains .pub

/-- The return type, if inference has found one. -/
def resolvedType? (header : FunctionHeader) : Option Ty := header.resolved.bind Term.type?

end FunctionHeader

namespace Variable

/-- The type, if inference has found one. -/
def resolvedType? (decl : Variable) : Option Ty := decl.resolved.bind Term.type?

end Variable

namespace Expr

/-- Numbers with a point are floats. -/
def isFloat (text : String) : Bool := text.toList.contains '.'

def numberType (text : String) : Ty := if isFloat text then .float else .int

/-- The name of a member of a namespace. -/
def qualifiedName (space name : String) : String := space ++ "." ++ name

/-- The symbol that an expression names directly: an identifier, or a member of one. -/
def symbol? : Expr → Option String
  | .identifier name _ => some name
  | .member (.identifier space _) property => some (qualifiedName space property)
  | _ => none

mutual

/-- The first identifier of an expression, from the left, gives its position. -/
def position? : Expr → Option Position
  | .identifier _ position => some position
  | .member object _ => object.position?
  | .call callee arguments => callee.position?.or (firstPosition? arguments)
  | .binary _ left right => left.position?.or right.position?
  | .prefixed _ operand => operand.position?
  | .postfixed _ operand => operand.position?
  | .number _ | .string _ | .boolean _ | .null => none

def firstPosition? : List Expr → Option Position
  | [] => none
  | expression :: rest => expression.position?.or (firstPosition? rest)

end

/-- What an expression is called in errors. -/
def nodeName : Expr → String
  | .identifier .. => "identifier"
  | .member .. => "member access"
  | .call .. => "function call"
  | .binary .. => "binary expression"
  | .prefixed .. => "prefix expression"
  | .postfixed .. => "postfix expression"
  | .number _ => "number"
  | .string _ => "string"
  | .boolean _ => "boolean"
  | .null => "null"

end Expr

namespace Use

/-- The name under which a program reaches a used module: the one it chose, or the last
part of the path. -/
def namespaceName (used : Use) : String :=
  match used.rename with
  | some name => name
  | none => (Text.parts '/' used.path).getLastD ""

end Use

end SmallLang
