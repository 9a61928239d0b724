import SmallLang.Check.Stmt
import SmallLang.Inference
import SmallLang.Module.Resolver

/-!
# Analysis

A source is read, its uses are resolved, its declarations get their types, and the whole is
checked.
-/

set_option autoImplicit false

namespace SmallLang

/-- A program with its types, and the complaints about it. -/
structure Analysis where
  program : Program
  reports : List Error

namespace Analysis

def ofProgram (order : ForwardOrder) (program : Program) : Except Error Analysis := do
  let program ← program.infer order
  return ⟨program, ← program.check⟩

/-- Analyses a source that stands alone. Its uses stay as they are. -/
def ofSource (order : ForwardOrder) (source file : String) : Except Error Analysis := do
  ofProgram order (← Program.read source file)

def ofModules (order : ForwardOrder) (workspace : Workspace) (resolver : Resolver)
    (source file : String) : Except Error Analysis := do
  let program ← Program.read source file
  match workspace.resolve program resolver with
  | .ok program _ => ofProgram order program
  | .error error _ => .error error

end Analysis

end SmallLang
