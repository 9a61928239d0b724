import SmallLang.Module.Access
import SmallLang.Module.Qualifier
import SmallLang.Module.Workspace
import SmallLang.Parse.Program
import SmallLang.Token.Scan

/-!
# Resolving uses

Each use at the top of a program gives way to the module it names. A file is merged once,
by the use that comes first; later uses reach it under the namespace it has then.
-/

set_option autoImplicit false

namespace SmallLang

/-- The files that need no merging any more, each under the parts of its path, and with its
namespace if it was merged. The latest stands first. -/
structure Resolver where
  done : List (List String × Option String)
  deriving DecidableEq, Repr

namespace Resolver

def start : Resolver := ⟨[]⟩

def isResolved (resolver : Resolver) (path : Path) : Bool :=
  (resolver.done.lookup path.parts).isSome

def namespace? (resolver : Resolver) (path : Path) : Option String :=
  (resolver.done.lookup path.parts).join

def merge (resolver : Resolver) (path : Path) (space : String) : Resolver :=
  ⟨(path.parts, some space) :: resolver.done⟩

/-- Takes note of a file that is not to be merged, such as the one that the program is in. -/
def mark (resolver : Resolver) (path : Path) : Resolver :=
  if resolver.isResolved path then resolver else ⟨(path.parts, none) :: resolver.done⟩

end Resolver

/-- A step of resolution. One that fails leaves its notes behind. -/
abbrev Resolve := EStateM Error Resolver

def Program.read (source file : String) : Except Error Program := do
  Program.parse (← Token.scan source file)

namespace Workspace

/-- Loads the module of a use unless that is done already. `read` gives the program of the
file, with its own uses resolved. -/
def loadBy (workspace : Workspace) (read : Path → Resolve Program) (used : Use) :
    Resolve (Option Program) := do
  let path := workspace.modulePath used.path
  if (← get).isResolved path then return none
  else
    modify (·.merge path used.namespaceName)
    let module ← read path
    return some (module.qualified used.namespaceName)

/-- The namespace through which a use reaches its module. -/
def target (workspace : Workspace) (resolver : Resolver) (used : Use) : String :=
  (resolver.namespace? (workspace.modulePath used.path)).getD used.namespaceName

/-- Replaces the uses among statements, and finds what their names stand for. -/
def replaceUses (workspace : Workspace) (load : Use → Resolve (Option Program)) :
    List Stmt → Resolve (Program × Aliases)
  | [] => return ([], [])
  | .use used :: rest => do
      let space := workspace.target (← get) used
      let module ← load used
      let (body, aliases) ← replaceUses workspace load rest
      return ((module.map Stmt.merged).toList ++ body, aliases ++ [(used.namespaceName, space)])
  | stmt :: rest => do
      let (body, aliases) ← replaceUses workspace load rest
      return (stmt :: body, aliases)

/-- Resolves the uses of a program, given a way to load modules. -/
def resolveBy (workspace : Workspace) (load : Use → Resolve (Option Program))
    (program : Program) : Resolve Program := do
  let (body, aliases) ← replaceUses workspace load program
  return Stmt.accessAll aliases body

/-- The program of a file, with its uses resolved, where so many files may be nested in one
another. No more files can be nested than there are, since none is read twice. -/
def readWithin (workspace : Workspace) : Nat → Use → Path → Resolve Program
  | 0, used, _ => throw ⟨.moduleNotFound used.path, used.position⟩
  | depth + 1, used, path => do
      match workspace.files.read? path with
      | none => throw ⟨.moduleNotFound used.path, used.position⟩
      | some source =>
          match Program.read source path.text with
          | .error error => throw error
          | .ok program =>
              let load := fun inner => workspace.loadBy (workspace.readWithin depth inner) inner
              workspace.resolveBy load program

/-- Loads the module of a use, or nothing if that is done already. -/
def load (workspace : Workspace) (used : Use) : Resolve (Option Program) :=
  workspace.loadBy (workspace.readWithin workspace.files.length used) used

def resolve (workspace : Workspace) (program : Program) : Resolve Program :=
  workspace.resolveBy workspace.load program

end Workspace

end SmallLang
