import SmallLang.Source.Position
import SmallLang.Text.Quoted

/-!
# Errors

Every cause that a stage of the analysis can report, with its class, its name and its two
texts: the message, and the tip that accompanies a rendered error.
-/

set_option autoImplicit false

namespace SmallLang

/-- The class of an error: the rule that was broken is one of spelling and grammar, of
names, of types, or the type of a declaration stayed open. -/
inductive Category where
  | parse
  | scope
  | type
  | unresolvedType
  deriving DecidableEq, Repr

inductive Cause where
  /-- No token begins here. -/
  | unrecognisedToken (token : String)
  /-- A token that no statement begins with, or a modifier given twice. -/
  | unexpectedToken (token : String)
  | expectedToken (expected received : String)
  | unexpectedEnd (expected : String)
  /-- A number that no literal of its form can denote. -/
  | malformedNumber (token : String)
  | alreadyDeclared (name : String)
  | notDeclared (name : String)
  | builtinRedefined (name : String)
  | moduleNotFound (path : String)
  | typeMismatch (expected received : String)
  /-- Operands that an operator does not take; the second is missing for unary operators. -/
  | operatorMismatch (operator left : String) (right : Option String)
  | unknownType (name : String)
  /-- A variable with neither a type nor a value. -/
  | untypedVariable (name : String)
  | argumentMismatch (expected received : String)
  | tooManyArguments (expected received : Nat)
  | tooFewArguments (expected received : Nat)
  | notCallable (name : String)
  | notAssignable (operator : String)
  | constantModified (name : String)
  /-- A member of something that is no module. -/
  | memberOfValue (property : String)
  | conflictingReturns (function first second : String)
  | unresolvedType (name : String)
  deriving DecidableEq, Repr

namespace Cause

def category : Cause → Category
  | .unrecognisedToken .. | .unexpectedToken .. | .expectedToken .. | .unexpectedEnd ..
  | .malformedNumber .. => .parse
  | .alreadyDeclared .. | .notDeclared .. | .builtinRedefined .. | .moduleNotFound .. => .scope
  | .unresolvedType .. => .unresolvedType
  | _ => .type

def name : Cause → String
  | .unrecognisedToken .. => "UnrecognisedToken"
  | .unexpectedToken .. => "UnexpectedToken"
  | .expectedToken .. => "ExpectedToken"
  | .unexpectedEnd .. => "UnexpectedEndOfInput"
  | .malformedNumber .. => "NumberParseError"
  | .alreadyDeclared .. => "VariableAlreadyDeclared"
  | .notDeclared .. => "VariableNotDeclared"
  | .builtinRedefined .. => "BuiltinRedefinition"
  | .moduleNotFound .. => "ModuleNotFound"
  | .typeMismatch .. => "TypeMatchError"
  | .operatorMismatch .. => "OperatorTypeError"
  | .unknownType .. => "UnknownType"
  | .untypedVariable .. => "ExpectedExplicitValue"
  | .argumentMismatch .. => "ArgumentTypeMatchError"
  | .tooManyArguments .. => "UnexpectedArguments"
  | .tooFewArguments .. => "MissingArguments"
  | .notCallable .. => "NotCallable"
  | .notAssignable .. => "NotAssignable"
  | .constantModified .. => "ImmutableAssignment"
  | .memberOfValue .. => "InvalidMemberAccess"
  | .conflictingReturns .. => "ReturnTypeConflict"
  | .unresolvedType .. => "UnresolvedType"

/-- What went wrong, as a sentence. Names from the program stand in quotes. -/
def message : Cause → String
  | .unrecognisedToken token => "unrecognised token: " ++ Text.quoted token
  | .unexpectedToken token => "unexpected token: " ++ Text.quoted token
  | .expectedToken expected received =>
      "expected " ++ expected ++ ", got " ++ Text.quoted received
  | .unexpectedEnd expected => "unexpected end of input, expected " ++ expected
  | .malformedNumber token => "error parsing number: " ++ Text.quoted token
  | .alreadyDeclared name => Text.quoted name ++ " already declared in this scope"
  | .notDeclared name => "undefined symbol " ++ Text.quoted name
  | .builtinRedefined name => "builtin type " ++ Text.quoted name ++ " cannot be redefined"
  | .moduleNotFound path => "module " ++ Text.quoted path ++ " not found"
  | .typeMismatch expected received =>
      "types do not match: expected " ++ expected ++ ", received " ++ received
  | .operatorMismatch operator left right =>
      "operator " ++ operator ++ " cannot be applied to " ++ left ++
        match right with
        | some right => " and " ++ right
        | none => ""
  | .unknownType name => "unknown type " ++ name ++ " found"
  | .untypedVariable name =>
      "expected type annotation or initializer for " ++ Text.quoted name
  | .argumentMismatch expected received =>
      "argument types do not match: expected " ++ expected ++ ", received " ++ received
  | .tooManyArguments expected received =>
      "unexpected arguments: expected " ++ toString expected ++ ", received " ++ toString received
  | .tooFewArguments expected received =>
      "missing arguments: expected " ++ toString expected ++ ", received " ++ toString received
  | .notCallable name => Text.quoted name ++ " is not callable"
  | .notAssignable operator => "operand of " ++ operator ++ " is not assignable"
  | .constantModified name => "cannot modify constant " ++ Text.quoted name
  | .memberOfValue property => "invalid member access ." ++ property
  | .conflictingReturns function first second =>
      "function " ++ Text.quoted function ++ " returns both " ++ first ++ " and " ++ second
  | .unresolvedType name => "type of " ++ Text.quoted name ++ " is unresolved after unification"

def marked (text : String) : String := "`" ++ text ++ "`"

/-- What may help to mend it, for all causes but one. -/
def tip? : Cause → Option String
  | .unrecognisedToken _ => none
  | .unexpectedToken token => some ("Unexpected token: " ++ marked token)
  | .expectedToken expected received =>
      some ("Expected " ++ expected ++ ", got " ++ marked received)
  | .unexpectedEnd expected => some ("Reached end of input while looking for " ++ expected)
  | .malformedNumber token =>
      some ("Invalid number: " ++ marked token ++ ", is it above the integer limit?")
  | .alreadyDeclared name => some (marked name ++ " is already declared in this scope")
  | .notDeclared name => some (marked name ++ " is not declared")
  | .builtinRedefined name =>
      some (marked name ++ " is a builtin type and cannot be redefined")
  | .moduleNotFound path => some ("No module found at " ++ marked path)
  | .typeMismatch expected received =>
      some ("Expected type " ++ marked expected ++ ", received " ++ marked received)
  | .operatorMismatch operator left right =>
      some ("Operator " ++ marked operator ++ " cannot be applied to " ++ marked left ++
        match right with
        | some right => " and " ++ marked right
        | none => "")
  | .unknownType name => some ("Unknown type " ++ marked name ++ " found")
  | .untypedVariable name =>
      some (marked name ++ " needs a type annotation or an initial value")
  | .argumentMismatch expected received =>
      some ("Expected argument type " ++ marked expected ++ ", received " ++ marked received)
  | .tooManyArguments expected received | .tooFewArguments expected received =>
      some ("Expected " ++ toString expected ++ " arguments, received " ++ toString received)
  | .notCallable name => some (marked name ++ " is not a function")
  | .notAssignable operator =>
      some ("Operator " ++ marked operator ++ " needs a variable as its operand")
  | .constantModified name =>
      some (marked name ++ " is declared with `const` and cannot be modified")
  | .memberOfValue property =>
      some (marked ("." ++ property) ++ " can only follow a module namespace")
  | .conflictingReturns function first second =>
      some (marked function ++ " returns both " ++ marked first ++ " and " ++ marked second ++
        ", add a return type annotation")
  | .unresolvedType name =>
      some ("The type of " ++ marked name ++ " could not be inferred, add a type annotation")

end Cause

/-- A cause, and where in which source it was met. -/
structure Error where
  cause : Cause
  position : Position
  deriving DecidableEq, Repr

/-- An error that belongs to no place in any source. -/
def Error.detached (cause : Cause) : Error := ⟨cause, .null⟩

end SmallLang
