import SmallLang.Command
import SmallLang.Module.Uses
import SmallLang.Text.Duration

/-!
# The program

Reads the files that a run needs, carries the run out, and takes the time of its stages.
-/

set_option autoImplicit false

namespace SmallLang.Command

def readFile? (path : Path) : IO (Option String) := do
  try return some (← IO.FS.readFile path.text)
  catch _ => return none

/-- Adds the files on disk that some paths lead to, and those that they use. -/
partial def addFiles (workspace : Workspace) : List Path → IO Workspace
  | [] => return workspace
  | path :: rest => do
      if (workspace.files.read? path).isSome then addFiles workspace rest
      else match ← readFile? path with
        | none => addFiles workspace rest
        | some source =>
            let wider := { workspace with files := (path, source) :: workspace.files }
            addFiles wider (workspace.usedBy source path.text ++ rest)

/-- The text of the file that a run is about, and the files of the modules it uses. -/
def Options.find (options : Options) : IO (Option (String × Files)) := do
  match ← readFile? options.file with
  | none => return none
  | some source =>
      let workspace := options.workspace []
      let found ← addFiles workspace (workspace.usedBy source options.file.text)
      return some (source, found.files)

/-- Carries a run out. `started` is when it began, and `since` when its last stage was done. -/
def Run.perform (started since : Nat) : Run → IO UInt32
  | .refused reason => do
      IO.eprintln reason
      return 2
  | .done stage next => do
      IO.println (stage.label ++ Text.duration ((← IO.monoNanosNow) - since))
      Run.perform started (← IO.monoNanosNow) (next ())
  | .failed report => do
      IO.print report
      return 1
  | .finished reports => do
      reports.forM IO.print
      IO.println (totalLabel ++ Text.duration ((← IO.monoNanosNow) - started))
      return if reports.isEmpty then 0 else 1

/-- Carries out the run that some options ask for. Its time counts from the first stage. -/
def Options.perform (options : Options) : IO UInt32 := do
  let found ← options.find
  let started ← IO.monoNanosNow
  (Run.ofOptions .byUse options found).perform started started

end SmallLang.Command

def main (arguments : List String) : IO UInt32 := do
  match SmallLang.Command.Options.ofArguments? arguments with
  | none => (SmallLang.Command.Run.refused SmallLang.Command.usage).perform 0 0
  | some options => options.perform
