import SmallLang.Check.Expr

/-!
# Checking statements

A statement is checked in the context that those before it have left, and leaves one
itself.
-/

set_option autoImplicit false

namespace SmallLang

namespace FunctionHeader

/-- The return type: the one that is written, or the one that was inferred. A function that
is defined elsewhere returns nothing unless it says so. -/
def returnType (header : FunctionHeader) (scopes : Scopes) : Except Error Ty :=
  match header.returns, header.resolvedType? with
  | some typeName, _ => scopes.typeOf typeName
  | none, some type => .ok type
  | none, none =>
      if header.isExternal then .ok .void
      else .error ⟨.unresolvedType header.name, header.position⟩

def symbol (header : FunctionHeader) (scopes : Scopes) : Except Error Symbol := do
  let parameters ← scopes.typesOf (header.parameters.map (·.typeName))
  let result ← header.returnType scopes
  return .function parameters (.concrete result)

end FunctionHeader

namespace Variable

/-- Whether the type of a variable is known before its value is checked. -/
def isTyped (decl : Variable) : Bool := decl.typeName.isSome || decl.resolvedType?.isSome

def declaredType (decl : Variable) (scopes : Scopes) : Except Error Ty :=
  match decl.typeName, decl.resolvedType? with
  | some typeName, _ => scopes.typeOf typeName
  | none, some type => .ok type
  | none, none => .error ⟨.unresolvedType decl.name, decl.position⟩

end Variable

namespace Check

def parameter (context : Context) (param : Parameter) : Check Context := do
  let type ← ofExcept (context.scopes.typeOf param.typeName)
  context.define param.name (.variable (.concrete type) true) param.typeName.position

def parameters (context : Context) : List Parameter → Check Context
  | [] => return context
  | first :: rest => do
      let context ← parameter context first
      parameters context rest

def condition (context : Context) (expression : Expr) : Check Unit := do
  let type ← expression.check context
  requireSame .typeMismatch (some .bool) type (context.positionOf expression)

/-- A pattern has to be of the kind of its subject. -/
def pattern (context : Context) (subject : Option Ty) (expression : Expr) : Check Unit := do
  let type ← expression.check context
  requireSame .typeMismatch subject type (context.positionOf expression)

/-- A returned value has to be of the kind that the function around it returns. -/
def returns (context : Context) : Option Expr → Check Unit
  | none => requireSame .typeMismatch context.returns (some .void) context.anchor
  | some expression => do
      let type ← expression.check context
      requireSame .typeMismatch context.returns type (context.positionOf expression)

/-- The type of a variable whose value has a given type: the one that is expected of it, or
else that of the value. -/
def variableType (context : Context) (decl : Variable) (expected value : Option Ty) :
    Except Error Ty :=
  match expected.or value with
  | some type => .ok type
  | none => decl.declaredType context.scopes

/-- Declares a variable whose value has a given type. In the root scope, one with a type of
its own is declared already. -/
def declareVariable (context : Context) (decl : Variable) (expected value : Option Ty) :
    Check Context :=
  if context.scopes.isRoot && decl.isTyped then return context
  else do
    let type ← ofExcept (variableType context decl expected value)
    context.define decl.name (.variable (.concrete type) decl.mutable) decl.position

/-- A variable has to have a type or a value, and the value is of the kind of the type. -/
def declaration (context : Context) (decl : Variable) : Check Context := do
  let context := { context with anchor := decl.position }
  if decl.typeName.isNone && decl.value.isNone then
    fail ⟨.untypedVariable decl.name, decl.position⟩
  else
    let annotated ← ofExcept (context.scopes.typeOf? decl.typeName)
    let value ← Expr.check? context decl.value
    let expected := annotated.or decl.resolvedType?
    requireSame .typeMismatch expected value decl.position
    declareVariable context decl expected value

/-- Declares a function. In the root scope it is declared already. -/
def function (context : Context) (header : FunctionHeader) : Check Context := do
  let context := { context with anchor := header.position }
  if context.scopes.isRoot then return context
  else
    let symbol ← ofExcept (header.symbol context.scopes)
    context.define header.name symbol header.position

def functionBody (context : Context) (header : FunctionHeader) : Check Context := do
  let result ← ofExcept (header.returnType context.scopes)
  parameters { context.enter with returns := some result } header.parameters

end Check

mutual

def Stmt.check (context : Check.Context) : Stmt → Check Check.Context
  | .expr e => do
      let _ ← e.check context
      return context
  | .comment _ | .use _ => return context
  | .parameter param => Check.parameter context param
  | .returns value => do
      Check.returns context value
      return context
  | .declare decl => Check.declaration context decl
  | .function header none => Check.function context header
  | .function header (some body) => do
      let context ← Check.function context header
      let inside ← Check.functionBody context header
      let last ← Stmt.checkAll inside body
      return context.leave last
  | .branch condition body alternate => do
      Check.condition context condition
      let last ← Stmt.checkAll context.enter body
      alternate.check (context.leave last)
  | .loop condition body => do
      Check.condition context condition
      let last ← Stmt.checkAll context.enter body
      return context.leave last
  | .switch subject arms => do
      let type ← subject.check context
      Arm.checkAll context type arms
  | .arm single => single.check context none
  | .merged body => Stmt.checkAll context body

def Alternate.check (context : Check.Context) : Alternate → Check Check.Context
  | .none => return context
  | .elseBranch condition body alternate => do
      Check.condition context condition
      let last ← Stmt.checkAll context.enter body
      alternate.check (context.leave last)
  | .otherwise body => do
      let last ← Stmt.checkAll context.enter body
      return context.leave last

def Arm.check (context : Check.Context) (subject : Option Ty) : Arm → Check Check.Context
  | .value pattern body => do
      Check.pattern context subject pattern
      let last ← Stmt.checkAll context.enter body
      return context.leave last
  | .otherwise body => do
      let last ← Stmt.checkAll context.enter body
      return context.leave last

def Stmt.checkAll (context : Check.Context) : List Stmt → Check Check.Context
  | [] => return context
  | first :: rest => do
      let context ← first.check context
      Stmt.checkAll context rest

def Arm.checkAll (context : Check.Context) (subject : Option Ty) : List Arm → Check Check.Context
  | [] => return context
  | first :: rest => do
      let context ← first.check context subject
      Arm.checkAll context subject rest

end

mutual

/-- Declares what a root statement declares ahead of its turn: a function, or a variable
with a type of its own. -/
def Stmt.hoist (context : Check.Context) : Stmt → Check Check.Context
  | .merged body => Stmt.hoistAll context body
  | .function header _ => do
      let symbol ← Check.ofExcept (header.symbol context.scopes)
      context.define header.name symbol header.position
  | .declare decl =>
      if decl.isTyped then do
        let type ← Check.ofExcept (decl.declaredType context.scopes)
        context.define decl.name (.variable (.concrete type) decl.mutable) decl.position
      else return context
  | _ => return context

def Stmt.hoistAll (context : Check.Context) : List Stmt → Check Check.Context
  | [] => return context
  | first :: rest => do
      let context ← first.hoist context
      Stmt.hoistAll context rest

end

def Program.check (program : Program) : Except Error (List Error) :=
  let result : Check Check.Context := do
    let context ← Stmt.hoistAll .start program
    Stmt.checkAll context program
  match result with
  | .ok found => .ok found.reports
  | .error error => .error error

end SmallLang
