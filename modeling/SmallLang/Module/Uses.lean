import SmallLang.Module.Resolver

/-!
# The files that a source uses
-/

set_option autoImplicit false

namespace SmallLang

/-- The uses at the top of a program. -/
def Program.uses (program : Program) : List Use :=
  program.filterMap fun
    | .use used => some used
    | _ => none

/-- The files of the modules that a source uses. A source that cannot be parsed uses none. -/
def Workspace.usedBy (workspace : Workspace) (source file : String) : List Path :=
  match Program.read source file with
  | .ok program => program.uses.map fun used => workspace.modulePath used.path
  | .error _ => []

end SmallLang
