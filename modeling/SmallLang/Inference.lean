import SmallLang.Inference.Settle
import SmallLang.Inference.Stmt

/-!
# Inference

A run of inference notes what earlier runs have settled, walks the program, sweeps the
constraints and settles the declarations. A program of one file needs one run on a new
engine. If names still wait for their declarations after the walk, one that stands first is
missed; among several at one offset of their files, which one is left open.
-/

set_option autoImplicit false

namespace SmallLang

/-- An order in which the names that wait are gone through. The table of them keeps none, so it
may be any. -/
structure ForwardOrder where
  arrange : List ForwardReference → List ForwardReference
  perm : ∀ waiting, (arrange waiting).Perm waiting

def ForwardOrder.byUse : ForwardOrder := ⟨id, fun _ => .refl _⟩

namespace Engine

def settledVariable? (decl : Variable) : Option Symbol :=
  decl.resolvedType?.map fun type => .variable (.concrete type) decl.mutable

/-- The symbol of a function that has its type already. One with a parameter of unknown type
has none; the walk will report it. -/
def settledFunction? (scopes : Scopes) (header : FunctionHeader) : Option Symbol :=
  match header.resolvedType?, scopes.typesOf (header.parameters.map (·.typeName)) with
  | some type, .ok parameters => some (.function parameters (.concrete type))
  | _, _ => none

/-- Notes a name as settled, if it has a symbol. -/
def note (known : Scope) (name : String) : Option Symbol → Scope
  | some symbol => (name, symbol) :: known
  | none => known

mutual

def noteSettled (scopes : Scopes) (known : Scope) : Stmt → Scope
  | .declare decl => note known decl.name (settledVariable? decl)
  | .function header _ => note known header.name (settledFunction? scopes header)
  | .merged body => noteAllSettled scopes known body
  | _ => known

/-- Adds the symbols that root statements have settled already, the latest first. -/
def noteAllSettled (scopes : Scopes) (known : Scope) : List Stmt → Scope
  | [] => known
  | first :: rest => noteAllSettled scopes (noteSettled scopes known first) rest

end

/-- Notes the declarations of a program that an earlier run has settled. -/
def learn (engine : Engine) (program : Program) : Engine :=
  { engine with known := noteAllSettled engine.scopes engine.known program }

/-- The forward reference that stands first, counted from the start of its file. Of several at
one offset it is the one that comes first in the order. -/
def firstForward? (engine : Engine) (order : ForwardOrder) : Option ForwardReference :=
  match order.arrange engine.forward with
  | [] => none
  | first :: rest => some <| rest.foldl (fun least reference =>
      if reference.position.offset < least.position.offset then reference else least) first

/-- Takes all constraints into account, which are then done with. -/
def sweep (engine : Engine) : Engine :=
  { engine with table := engine.table.unify engine.constraints, constraints := [] }

end Engine

namespace Infer

/-- Walks a program whose settled declarations are noted already. -/
def walk (program : Program) : Infer Program := fun engine =>
  let walked := Stmt.walkAll program engine
  match walked.outcome with
  | .ok _ => .ok walked.part walked.engine
  | .error error => .error error walked.engine

/-- No name may still wait for its declaration. -/
def requireSettled (order : ForwardOrder) : Infer Unit := do
  match (← get).firstForward? order with
  | none => return
  | some reference => fail ⟨.notDeclared reference.name, reference.position⟩

/-- A run over a program, on an engine that may have seen others. -/
def run (order : ForwardOrder) (program : Program) : Infer Program := do
  update (·.learn program)
  let program ← walk program
  requireSettled order
  update (·.sweep)
  ofExcept fun engine => Stmt.settleAll engine.table program

end Infer

def Program.infer (program : Program) (order : ForwardOrder) : Except Error Program :=
  match Infer.run order program .start with
  | .ok program _ => .ok program
  | .error error _ => .error error

end SmallLang
