import SmallLang.Analysis
import SmallLang.Directory
import SmallLang.Error.Report

/-!
# The command

The command analyses one file and the modules it uses. It prints how long each stage took,
and then reports what is wrong. It is written as a run that another program carries out, so
that the time can be taken between the stages.
-/

set_option autoImplicit false

namespace SmallLang

namespace Command

/-- What the command is asked to do. -/
structure Options where
  file : Path
  standard : Path
  deriving DecidableEq, Repr

namespace Options

/-- Reads arguments: one file, and roots of the standard library, of which the last counts. -/
def read? (file : Option Path) (standard : Path) : List String → Option Options
  | [] => file.map fun file => ⟨file, standard⟩
  | "--std" :: root :: rest => read? file ⟨root⟩ rest
  | ["--std"] => none
  | argument :: rest =>
      match file with
      | none => read? (some ⟨argument⟩) standard rest
      | some _ => none

/-- Reads the arguments of the command. The standard library is in `std` unless they say
otherwise. -/
def ofArguments? (arguments : List String) : Option Options := read? none ⟨"std"⟩ arguments

/-- The root of the project is the directory of the file. -/
def project (options : Options) : Path := options.file.parent

def workspace (options : Options) (files : Files) : Workspace :=
  ⟨files, options.project, options.standard⟩

/-- The file itself is not merged into the program. -/
def resolver (options : Options) : Resolver := Resolver.start.mark options.file

/-- The text of the file in a directory, and the files that modules may come from. -/
def findIn (options : Options) (directory : Directory) : Option (String × Files) :=
  (directory.read? options.file).map fun source =>
    (source, directory.below options.project ++ directory.below options.standard)

end Options

def usage : String := "Usage: frontend <file> [--std <dir>]"

/-- The text that the place of an error lies in: that of the file at hand, or of a module. A
file that cannot be read counts as empty. -/
def sourceOf (options : Options) (source : String) (files : Files) (error : Error) : String :=
  if error.position.file = options.file.text then source
  else (files.read? ⟨error.position.file⟩).getD ""

inductive Stage where
  | scan
  | parse
  | resolve
  | infer
  | check
  deriving DecidableEq, Repr

def Stage.label : Stage → String
  | .scan => "Tokenized in "
  | .parse => "Parsed in "
  | .resolve => "Resolved modules in "
  | .infer => "Inferred in "
  | .check => "Checked in "

def totalLabel : String := "Total time: "

inductive Run where
  /-- The command cannot start, for the reason it gives. -/
  | refused (reason : String)
  /-- A stage is done. What follows is computed on demand. -/
  | done (stage : Stage) (next : Unit → Run)
  /-- A stage has failed, with a report. -/
  | failed (report : String)
  /-- All stages are done, with these reports. -/
  | finished (reports : List String)

namespace Run

/-- A stage, and what follows it if it does not fail. -/
def stage {α : Type} (stage : Stage) (report : Error → String) (result : Except Error α)
    (next : α → Run) : Run :=
  match result with
  | .ok value => .done stage fun _ => next value
  | .error error => .failed (report error)

def ofSource (order : ForwardOrder) (options : Options) (source : String) (files : Files) : Run :=
  let report error := Error.report error (sourceOf options source files error)
  stage .scan report (Token.scan source options.file.text) fun tokens =>
  stage .parse report (Program.parse tokens) fun program =>
  let resolved := match (options.workspace files).resolve program options.resolver with
    | .ok program _ => Except.ok program
    | .error error _ => .error error
  stage .resolve report resolved fun program =>
  stage .infer report (program.infer order) fun program =>
  stage .check report program.check fun reports =>
  .finished (reports.map report)

/-- The run with given options. `found` is the text of the file, if it can be read, and the
files of the modules. -/
def ofOptions (order : ForwardOrder) (options : Options) : Option (String × Files) → Run
  | none => .refused ("Failed to read " ++ options.file.text)
  | some (source, files) => ofSource order options source files

/-- The run with given arguments. `find` gives the text of the file that they ask for, if it can
be read, and the files of the modules. -/
def ofArguments (order : ForwardOrder) (arguments : List String)
    (find : Options → Option (String × Files)) : Run :=
  match Options.ofArguments? arguments with
  | none => .refused usage
  | some options => ofOptions order options (find options)

def inDirectory (order : ForwardOrder) (arguments : List String) (directory : Directory) : Run :=
  ofArguments order arguments fun options => options.findIn directory

/-- What a run leaves: its status and its two outputs. -/
structure Transcript where
  status : Nat
  output : String
  complaint : String
  deriving DecidableEq, Repr

/-- The transcript of a run, with a text in place of every time. -/
def transcript (time : String) : Run → Transcript
  | .refused reason => ⟨2, "", reason ++ "\n"⟩
  | .done stage next =>
      let rest := (next ()).transcript time
      { rest with output := stage.label ++ time ++ "\n" ++ rest.output }
  | .failed report => ⟨1, report, ""⟩
  | .finished reports =>
      ⟨if reports.isEmpty then 0 else 1,
        String.join reports ++ totalLabel ++ time ++ "\n", ""⟩

end Run

end Command

end SmallLang
