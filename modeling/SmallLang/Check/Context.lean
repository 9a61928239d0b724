import SmallLang.Scope
import SmallLang.Tree

/-!
# Checks

A check collects complaints and goes on. Only an error that leaves it without a symbol or a
type to go on with ends it.
-/

set_option autoImplicit false

namespace SmallLang

/-- What a check has found: a value, and the complaints on the way to it, in order. -/
structure Checked (α : Type) where
  value : α
  reports : List Error
  deriving DecidableEq, Repr

/-- A check. It ends with an error if it cannot go on. -/
def Check (α : Type) : Type := Except Error (Checked α)

namespace Check

variable {α β : Type}

def andThen (first : Check α) (second : α → Check β) : Check β :=
  match first with
  | .error error => .error error
  | .ok found =>
      match second found.value with
      | .error error => .error error
      | .ok last => .ok ⟨last.value, found.reports ++ last.reports⟩

instance : Monad Check where
  pure value := .ok ⟨value, []⟩
  bind := andThen

def ofExcept : Except Error α → Check α
  | .ok value => .ok ⟨value, []⟩
  | .error error => .error error

def fail (error : Error) : Check α := .error error

def report (cause : Cause) (position : Position) : Check Unit := .ok ⟨(), [⟨cause, position⟩]⟩

def reportAll (errors : List Error) : Check Unit := .ok ⟨(), errors⟩

/-- What is known where a statement stands. -/
structure Context where
  scopes : Scopes
  /-- The return type of the function around it. -/
  returns : Option Ty
  /-- Where the latest declaration stands, for expressions without a position. -/
  anchor : Position
  deriving DecidableEq, Repr

namespace Context

def start : Context := ⟨.start, none, .null⟩

/-- Where an expression stands, or else the declaration around it. -/
def positionOf (context : Context) (expression : Expr) : Position :=
  expression.position?.getD context.anchor

/-- Declares a name. If that is an error, it is reported and nothing is declared. -/
def define (context : Context) (name : String) (symbol : Symbol) (position : Position) :
    Check Context :=
  match context.scopes.define name symbol position with
  | .ok scopes => return { context with scopes }
  | .error error => do
      reportAll [error]
      return context

def enter (context : Context) : Context := { context with scopes := context.scopes.push }

/-- The context after a block, or after a function, that ended with another. -/
def leave (context last : Context) : Context := { context with anchor := last.anchor }

end Context

end Check

end SmallLang
