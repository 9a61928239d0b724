import SmallLang.Scope
import SmallLang.Tree
import SmallLang.Unification

/-!
# The inference engine

Inference gives every expression a term at once. What cannot be decided yet becomes a
placeholder and constraints on it, which are swept when the whole program has been walked.
The engine is what the walk knows so far. It outlives a run, also one that failed.
-/

set_option autoImplicit false

namespace SmallLang

/-- A name that was used before its declaration: the placeholder that all its uses share,
and where the first one stands. -/
structure ForwardReference where
  name : String
  placeholder : Placeholder
  position : Position
  deriving DecidableEq, Repr

/-- The state of inference. -/
structure Engine where
  scopes : Scopes
  table : Table
  /-- Constraints that were not swept yet, in the order in which they came up. -/
  constraints : List Constraint
  /-- Names that wait for a declaration in the root scope, in the order of their first use. -/
  forward : List ForwardReference
  /-- Declarations of the root scope that an earlier run has settled. -/
  known : Scope
  /-- The terms returned so far by each function around this place, the innermost first. -/
  frames : List (List Term)
  /-- The root variable whose value is being walked. Its own name does not reach it. -/
  declaring : Option String
  /-- Where the latest declaration stands, for expressions without a position. -/
  anchor : Position
  deriving DecidableEq, Repr

namespace Engine

def start : Engine where
  scopes := .start
  table := .empty
  constraints := []
  forward := []
  known := []
  frames := []
  declaring := none
  anchor := .null

/-- The symbol of a name: the one in scope, or the one that an earlier run has left. -/
def lookup? (engine : Engine) (name : String) : Option Symbol :=
  (engine.scopes.resolve? name).or (engine.known.lookup name)

/-- Where an expression stands, or else the declaration around it. -/
def positionOf (engine : Engine) (expression : Expr) : Position :=
  expression.position?.getD engine.anchor

/-- Asks for two terms to agree. Two known types need no constraint. -/
def constrain (engine : Engine) (left right : Term) : Engine :=
  if left.isPending || right.isPending then
    { engine with constraints := engine.constraints ++ [⟨left, right⟩] }
  else engine

def constrainAll (engine : Engine) (pairs : List (Term × Term)) : Engine :=
  pairs.foldl (fun engine pair => engine.constrain pair.1 pair.2) engine

def grow (engine : Engine) : Engine := { engine with table := engine.table.grow }

/-- Settles the forward references to a name with its declaration, in the root scope only. -/
def settleForward (engine : Engine) (name : String) (term : Term) : Engine :=
  if engine.scopes.isRoot then
    match engine.forward.find? (·.name == name) with
    | none => engine
    | some reference =>
        { engine with forward := engine.forward.filter (·.name != name) }.constrain
          (.pending reference.placeholder) term
  else engine

def push (engine : Engine) : Engine := { engine with scopes := engine.scopes.push }

def pop (engine : Engine) : Engine := { engine with scopes := engine.scopes.pop }

def enter (engine : Engine) : Engine := { engine.push with frames := [] :: engine.frames }

def leave (engine : Engine) : Engine := { engine.pop with frames := engine.frames.tail }

def returned (engine : Engine) : List Term := engine.frames.headD []

/-- Adds a term that the innermost function returns. Outside functions nothing is noted. -/
def addReturn (engine : Engine) (term : Term) : Engine :=
  match engine.frames with
  | [] => engine
  | frame :: outer => { engine with frames := (frame ++ [term]) :: outer }

end Engine

/-- A step of inference. Also one that fails leaves an engine behind. -/
abbrev Infer := EStateM Error Engine

namespace Infer

variable {α : Type}

def fail (error : Error) : Infer α := fun engine => .error error engine

def ofExcept (result : Engine → Except Error α) : Infer α := fun engine =>
  match result engine with
  | .ok value => .ok value engine
  | .error error => .error error engine

/-- A step that cannot fail. -/
def update (step : Engine → Engine) : Infer Unit := fun engine => .ok () (step engine)

def fresh : Infer Term := fun engine => .ok (.pending engine.table.next) engine.grow

def constrain (left right : Term) : Infer Unit := update (·.constrain left right)

def define (name : String) (symbol : Symbol) (position : Position) : Infer Unit := fun engine =>
  match engine.scopes.define name symbol position with
  | .ok scopes => .ok () { engine with scopes }
  | .error error => .error error engine

end Infer

end SmallLang
