import SmallLang.Path

/-!
# Workspaces

A workspace holds the files that modules may come from. A module of the standard library
lies below its own root, and any other below the root of the project.
-/

set_option autoImplicit false

namespace SmallLang

/-- Files with their texts. A path that occurs twice has the text that comes first. -/
abbrev Files := List (Path × String)

def Files.read? (files : Files) (path : Path) : Option String :=
  (files.find? fun entry => entry.1.same path).map (·.2)

/-- The files, and the two roots below which modules lie. -/
structure Workspace where
  files : Files
  project : Path
  standard : Path
  deriving Repr

/-- What the path of a module of the standard library begins with. -/
def Workspace.standardPrefix : String := "std/"

def Workspace.extension : String := ".lang"

def Workspace.modulePath (workspace : Workspace) (path : String) : Path :=
  let start := Workspace.standardPrefix.toList
  if start.isPrefixOf path.toList then
    let inner := String.ofList (path.toList.drop start.length)
    workspace.standard.join ⟨inner ++ Workspace.extension⟩
  else workspace.project.join ⟨path ++ Workspace.extension⟩

end SmallLang
