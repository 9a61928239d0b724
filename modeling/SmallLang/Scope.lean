import SmallLang.Error
import SmallLang.Types

/-!
# Scopes

Symbols live in nested scopes. The root scope is always there and knows the types from the
start. A name means what the innermost scope that has it says.
-/

set_option autoImplicit false

namespace SmallLang

inductive Symbol where
  | variable (type : Term) (mutable : Bool)
  /-- Parameters always have a known type. Only the result may be open. -/
  | function (parameters : List Ty) (result : Term)
  | builtin (type : Ty)
  deriving DecidableEq, Repr

/-- The symbols of one scope, the latest first. -/
abbrev Scope := List (String × Symbol)

namespace Scope

/-- The symbols that a program finds: each type under its own name. -/
def builtins : Scope := Ty.all.map fun type => (type.name, .builtin type)

end Scope

/-- Open scopes: the root, and those inside it, the innermost first. -/
structure Scopes where
  root : Scope
  inner : List Scope
  deriving DecidableEq, Repr

namespace Scopes

/-- The root scope alone, with the types in it. -/
def start : Scopes := ⟨.builtins, []⟩

def push (scopes : Scopes) : Scopes := { scopes with inner := [] :: scopes.inner }

/-- Closes the innermost scope. The root stays. -/
def pop (scopes : Scopes) : Scopes := { scopes with inner := scopes.inner.tail }

def depth (scopes : Scopes) : Nat := scopes.inner.length + 1

def isRoot (scopes : Scopes) : Bool := scopes.inner.isEmpty

def innermost (scopes : Scopes) : Scope := scopes.inner.headD scopes.root

def definesHere (scopes : Scopes) (name : String) : Bool :=
  (scopes.innermost.lookup name).isSome

def resolve? (scopes : Scopes) (name : String) : Option Symbol :=
  (scopes.inner.findSome? fun scope => scope.lookup name).or (scopes.root.lookup name)

/-- Adds a name to the innermost scope, whatever it has. -/
def insert (scopes : Scopes) (name : String) (symbol : Symbol) : Scopes :=
  match scopes.inner with
  | [] => { scopes with root := (name, symbol) :: scopes.root }
  | scope :: outer => { scopes with inner := ((name, symbol) :: scope) :: outer }

/-- Declares a name in the innermost scope. Names of types are never free, and other names
only once in a scope. -/
def define (scopes : Scopes) (name : String) (symbol : Symbol) (position : Position) :
    Except Error Scopes :=
  if Ty.isTypeName name then .error ⟨.builtinRedefined name, position⟩
  else if scopes.definesHere name then .error ⟨.alreadyDeclared name, position⟩
  else .ok (scopes.insert name symbol)

def lookup (scopes : Scopes) (name : String) (position : Position) : Except Error Symbol :=
  match scopes.resolve? name with
  | some symbol => .ok symbol
  | none => .error ⟨.notDeclared name, position⟩

def typeOf (scopes : Scopes) (typeName : TypeName) : Except Error Ty :=
  match scopes.resolve? typeName.name with
  | some (.builtin type) => .ok type
  | _ => .error ⟨.unknownType typeName.name, typeName.position⟩

/-- The types that a program names, up to the first name that is none. -/
def typesOf (scopes : Scopes) : List TypeName → Except Error (List Ty)
  | [] => .ok []
  | first :: rest =>
      match scopes.typeOf first with
      | .error error => .error error
      | .ok type =>
          match scopes.typesOf rest with
          | .error error => .error error
          | .ok types => .ok (type :: types)

/-- The type that a program names, if it names one. -/
def typeOf? (scopes : Scopes) : Option TypeName → Except Error (Option Ty)
  | none => .ok none
  | some typeName =>
      match scopes.typeOf typeName with
      | .error error => .error error
      | .ok type => .ok (some type)

end Scopes

end SmallLang
