import SmallLang.Module.Workspace

/-!
# Directories

A directory in memory: files under relative paths. A path into it is followed one segment
at a time, and can go on only from a directory.
-/

set_option autoImplicit false

namespace SmallLang

/-- Files, each under the names that lead to it, with its text. -/
abbrev Directory := List (List String × String)

namespace Directory

def ofFiles (files : Files) : Directory := files.map fun entry => (entry.1.steps, entry.2)

/-- Whether names lead to a directory: to the top, or to one with something in it. -/
def isDirectory (directory : Directory) (names : List String) : Bool :=
  names.isEmpty || directory.any fun entry =>
    names.isPrefixOf entry.1 && entry.1.length != names.length

/-- Where segments lead from a place, if each but the last leads to a directory. Nothing leads
out of the top. -/
def follow (directory : Directory) (names : List String) : List String → Option (List String)
  | [] => some names
  | segment :: rest =>
      if !directory.isDirectory names then none
      else if Path.isIdle segment then directory.follow names rest
      else if segment = ".." then
        if names.isEmpty then none else directory.follow names.dropLast rest
      else directory.follow (names ++ [segment]) rest

def locate (directory : Directory) (path : Path) : Option (List String) :=
  if path.isAbsolute then none else directory.follow [] path.segments

def read? (directory : Directory) (path : Path) : Option String :=
  (directory.locate path).bind fun names => directory.lookup names

/-- The files below a path, each under that path and the names that lead on. -/
def below (directory : Directory) (path : Path) : Files :=
  match directory.locate path with
  | none => []
  | some names =>
      directory.filterMap fun (found, text) =>
        if names.isPrefixOf found then
          some (path.join ⟨String.intercalate "/" (found.drop names.length)⟩, text)
        else none

end Directory

end SmallLang
