import SmallLang.Proofs.Command.Arguments
import SmallLang.Proofs.Command.Files
import SmallLang.Proofs.Module.Determined
import SmallLang.Proofs.Position.Modules

/-!
# The command and the library

The command goes through the stages of an analysis one by one, and says of each that it is done.
What it leaves is what the analysis comes to, told in text. Where several names are missed at one
offset, the command may report one of them and the library another; that is all they can differ in.
-/

set_option autoImplicit false

namespace SmallLang.Command

/-- All stages of an analysis, in order. -/
def Stage.all : List Stage := [.scan, .parse, .resolve, .infer, .check]

/-- What is said when some stages are done. -/
def announcements (time : String) (stages : List Stage) : String :=
  String.join (stages.map fun stage => stage.label ++ time ++ "\n")

/-- What an analysis by some stages comes to, told in text. A fatal error is reported behind the
stages that were done before it, and complaints behind all of them. -/
inductive Tells (report : Error → String) (time : String) :
    List Stage → Except Error Analysis → Run.Transcript → Prop where
  | failed {error : Error} {done left : List Stage} : left ≠ [] →
      Tells report time (done ++ left) (.error error)
        ⟨1, announcements time done ++ report error, ""⟩
  | finished {analysis : Analysis} {stages : List Stage} :
      Tells report time stages (.ok analysis)
        ⟨if analysis.reports = [] then 0 else 1,
          announcements time stages ++ String.join (analysis.reports.map report) ++
            totalLabel ++ time ++ "\n", ""⟩

theorem announcements_cons (time : String) (stage : Stage) (stages : List Stage) :
    announcements time (stage :: stages) =
      stage.label ++ time ++ "\n" ++ announcements time stages := by
  rw [announcements, List.map_cons, String.join_cons]
  rfl

namespace Tells

variable {α : Type} {report report' : Error → String} {time : String} {stages : List Stage}
  {result : Except Error Analysis} {transcript : Run.Transcript}

/-- What follows a stage is told behind it. -/
theorem announced (tells : Tells report time stages result transcript) (stage : Stage) :
    Tells report time (stage :: stages) result
      { transcript with output := stage.label ++ time ++ "\n" ++ transcript.output } := by
  cases tells with
  | @failed error done left some =>
      have later := @failed report time error (stage :: done) left some
      rwa [announcements_cons, String.append_assoc] at later
  | @finished analysis stages =>
      have later := @finished report time analysis (stage :: stages)
      simp only [announcements_cons, String.append_assoc] at later ⊢
      exact later

/-- A stage fails, or what it finds is passed on. -/
theorem stage {stage : Stage} {first : Except Error α} {next : α → Run}
    {result : α → Except Error Analysis}
    (tells : ∀ value, Tells report time stages (result value) ((next value).transcript time)) :
    Tells report time (stage :: stages) (first >>= result)
      ((Run.stage stage report first next).transcript time) := by
  cases first with
  | error error =>
      have fails := @failed report time error [] (stage :: stages) (List.cons_ne_nil _ _)
      rwa [announcements, List.map_nil, String.join_nil, String.empty_append] at fails
  | ok value => exact (tells value).announced stage

theorem complaints {analysis : Analysis} :
    Tells report time [] (.ok analysis)
      ((Run.finished (analysis.reports.map report)).transcript time) := by
  have told := @finished report time analysis []
  rw [announcements, List.map_nil, String.join_nil, String.empty_append] at told
  simpa [Run.transcript] using told

theorem congr (tells : Tells report time stages result transcript)
    (same : ∀ error, error.position ∈ Analysis.blamed result → report error = report' error) :
    Tells report' time stages result transcript := by
  cases tells with
  | @failed error done left some =>
      rw [same error (List.mem_singleton_self _)]
      exact .failed some
  | @finished analysis stages =>
      have shown : analysis.reports.map report = analysis.reports.map report' :=
        List.map_congr_left fun error present => same error (List.mem_map_of_mem present)
      rw [shown]
      exact .finished

/-- The status tells whether there is anything to report. -/
theorem status_eq_zero_iff (tells : Tells report time stages result transcript) :
    transcript.status = 0 ↔ ∃ analysis, result = .ok analysis ∧ analysis.reports = [] := by
  cases tells with
  | failed => simp
  | finished => simp

theorem status_eq_one_iff (tells : Tells report time stages result transcript) :
    transcript.status = 1 ↔ ∀ analysis, result = .ok analysis → analysis.reports ≠ [] := by
  cases tells with
  | failed => simp
  | finished => simp

theorem status_ne_two (tells : Tells report time stages result transcript) :
    transcript.status ≠ 2 := by
  cases tells with
  | failed => exact Nat.succ_ne_self 1 ∘ Eq.symm
  | finished => split <;> nofun

end Tells

/-! ### The stages of an analysis -/

theorem ofModules_eq_stages (order : ForwardOrder) (workspace : Workspace) (resolver : Resolver)
    (source file : String) :
    Analysis.ofModules order workspace resolver source file =
      Token.scan source file >>= fun tokens => Program.parse tokens >>= fun program =>
        (match workspace.resolve program resolver with
          | .ok program _ => Except.ok program
          | .error error _ => .error error) >>= fun program =>
        program.infer order >>= fun program => program.check >>= fun reports =>
          .ok ⟨program, reports⟩ := by
  unfold Analysis.ofModules Program.read
  cases Token.scan source file with
  | error error => rfl
  | ok tokens =>
      change (Program.parse tokens >>= _) = Program.parse tokens >>= _
      congr 1
      funext program
      cases workspace.resolve program resolver <;> rfl

/-! ### The order in which names are missed -/

/-- Two analyses come to the same, but for a name that each misses at one offset. -/
inductive UpToTie : Except Error Analysis → Except Error Analysis → Prop where
  | refl (result : Except Error Analysis) : UpToTie result result
  | missed {name name' : String} {position position' : Position} :
      position.offset = position'.offset →
      UpToTie (.error ⟨.notDeclared name, position⟩) (.error ⟨.notDeclared name', position'⟩)

theorem UpToTie.ok_iff {result result' : Except Error Analysis} (tie : UpToTie result result')
    (analysis : Analysis) : result = .ok analysis ↔ result' = .ok analysis := by
  cases tie with
  | refl => rfl
  | missed => exact iff_of_false nofun nofun

theorem upToTie_ofModules (order order' : ForwardOrder) (workspace : Workspace)
    (resolver : Resolver) (source file : String) :
    UpToTie (Analysis.ofModules order workspace resolver source file)
      (Analysis.ofModules order' workspace resolver source file) := by
  cases reads : Program.read source file with
  | error error =>
      unfold Analysis.ofModules
      rw [reads]
      exact .refl _
  | ok program =>
      cases resolves : workspace.resolve program resolver with
      | error error later =>
          rw [Analysis.ofModules_eq_error_of_resolve reads resolves,
            Analysis.ofModules_eq_error_of_resolve reads resolves]
          exact .refl _
      | ok merged later =>
          rw [Analysis.ofModules_of_resolve reads resolves,
            Analysis.ofModules_of_resolve reads resolves]
          unfold Analysis.ofProgram
          obtain same | ⟨first, second, fails, fails', tied⟩ :=
            merged.infer_eq_or_tied order order'
          · rw [same]
            exact .refl _
          · rw [fails, fails']
            exact .missed tied

/-! ### Files -/

/-- How texts are read from files, wherever those are. -/
abbrev Reader := Path → Option String

namespace Options

variable {read : Reader} {options : Options} {files files' : Files} {source : String}
  {error : Error} {order : ForwardOrder}

/-- Some files hold under the path of each module what is read there. -/
def Holds (options : Options) (read : Reader) (files : Files) : Prop :=
  ∀ path, Undotted path →
    files.read? ((options.workspace files).modulePath path) =
      read ((options.workspace files).modulePath path)

/-- What the library makes of a file. -/
def analysis (options : Options) (order : ForwardOrder) (files : Files) (source : String) :
    Except Error Analysis :=
  Analysis.ofModules order (options.workspace files) options.resolver source options.file.text

/-- The report of an error against the text of the file that it stands in. -/
def report (options : Options) (read : Reader) (source : String) (error : Error) : String :=
  error.report
    (if error.position.file = options.file.text then source
    else (read ⟨error.position.file⟩).getD "")

theorem Holds.present (holds : options.Holds read files) (holds' : options.Holds read files') :
    Workspace.Present options.project options.standard files files' :=
  fun path undotted => (holds path undotted).trans (holds' path undotted).symm

/-- An analysis takes nothing from files but modules. -/
theorem Holds.analysis_eq (holds : options.Holds read files) (holds' : options.Holds read files')
    (source : String) :
    options.analysis order files source = options.analysis order files' source :=
  Analysis.ofModules_eq_of_files (holds.present holds') order _ _ _

/-- Neither does the report of what it blames. -/
theorem Holds.report_eq (holds : options.Holds read files)
    (blamed : error.position ∈ Analysis.blamed (options.analysis order files source)) :
    error.report (sourceOf options source files error) = options.report read source error := by
  obtain nowhere | here | ⟨path, text, undotted, _, stands⟩ :=
    Analysis.mayBlame order (options.workspace files) options.resolver source options.file.text _
      blamed
  · -- Without a place, no text is shown.
    have null : error.position.isNull = true := by rw [nowhere]; rfl
    rw [report, Error.report, Error.report, if_pos null, if_pos null]
  · rw [sourceOf, report, if_pos here, if_pos here]
  · rw [sourceOf, report, stands, holds path undotted]

end Options

namespace Run

variable {read : Reader} {options : Options} {source : String} {files : Files}

/-- The command goes through the stages of the library. -/
theorem tells_ofSource (order : ForwardOrder) (options : Options) (source : String)
    (files : Files) (time : String) :
    Tells (fun error => error.report (sourceOf options source files error)) time Stage.all
      (options.analysis order files source)
      ((ofSource order options source files).transcript time) := by
  rw [Options.analysis, ofModules_eq_stages]
  refine .stage ?_
  intro tokens
  refine .stage ?_
  intro program
  refine .stage ?_
  intro program
  refine .stage ?_
  intro program
  refine .stage ?_
  intro reports
  exact .complaints

/-- So what it leaves is what the library comes to, whatever files that has the modules from. -/
theorem tells_of_holds {files' : Files} (order : ForwardOrder) (holds : options.Holds read files)
    (holds' : options.Holds read files') (time : String) :
    Tells (options.report read source) time Stage.all (options.analysis order files' source)
      ((ofSource order options source files).transcript time) := by
  rw [← holds.analysis_eq holds' source]
  refine (tells_ofSource order options source files time).congr ?_
  intro error blamed
  exact holds.report_eq blamed

end Run

/-! ### Agreement -/

/-- The text of the file that options name is found as it is read, with files that hold what is read
of modules. -/
def Finds (read : Reader) (find : Options → Option (String × Files)) : Prop :=
  ∀ options, ∃ files, options.Holds read files ∧
    find options = (read options.file).map fun source => (source, files)

/-- What the command leaves is right, if it goes through names that wait in a given order. It does
not start where the arguments are not one file and some roots of the standard library, or that file
cannot be read. Otherwise the library makes something of the file, with the modules that can be
read, and the command tells it; its status is 0 where the library accepts the file and has no
complaints. The status does not depend on the order, and neither does what is told, but for a name
that is missed instead of another one at the same offset. -/
structure Agrees (read : Reader) (arguments : List String) (time : String) (order : ForwardOrder)
    (transcript : Run.Transcript) : Prop where
  refuses : transcript.status = 2 ↔ ∀ options : Options, options.AskedBy "std" arguments →
    read options.file = none
  held : ∀ options : Options, options.AskedBy "std" arguments → ∃ files, options.Holds read files
  accepts : ∀ (options : Options) (source : String), options.AskedBy "std" arguments →
    read options.file = some source → ∀ files, options.Holds read files → ∀ order',
      (transcript.status = 0 ↔
        ∃ analysis, options.analysis order' files source = .ok analysis ∧ analysis.reports = [])
  rejects : ∀ (options : Options) (source : String), options.AskedBy "std" arguments →
    read options.file = some source → ∀ files, options.Holds read files → ∀ order',
      (transcript.status = 1 ↔
        ∀ analysis, options.analysis order' files source = .ok analysis → analysis.reports ≠ [])
  tells : ∀ (options : Options) (source : String), options.AskedBy "std" arguments →
    read options.file = some source → ∀ files, options.Holds read files →
      Tells (options.report read source) time Stage.all (options.analysis order files source)
        transcript
  ties : ∀ (options : Options) (source : String) (files : Files) (order' : ForwardOrder),
    UpToTie (options.analysis order files source) (options.analysis order' files source)

namespace Finds

variable {read : Reader} {find : Options → Option (String × Files)} {arguments : List String}
  {options : Options} {source : String}

/-- The command does not start without a file. -/
theorem exists_refused (finds : Finds read find) (order : ForwardOrder)
    (missing : ∀ options : Options, options.AskedBy "std" arguments → read options.file = none) :
    ∃ reason, Run.ofArguments order arguments find = .refused reason := by
  rw [Run.ofArguments]
  cases asked : Options.ofArguments? arguments with
  | none => exact ⟨_, rfl⟩
  | some options =>
      obtain ⟨files, _, found⟩ := finds options
      rw [missing options (Options.ofArguments?_eq_some_iff.mp asked)] at found
      dsimp only
      rw [found]
      exact ⟨_, rfl⟩

theorem tells (finds : Finds read find) (order : ForwardOrder)
    (asked : options.AskedBy "std" arguments)
    (reads : read options.file = some source) {files : Files} (holds : options.Holds read files)
    (time : String) :
    Tells (options.report read source) time Stage.all (options.analysis order files source)
      ((Run.ofArguments order arguments find).transcript time) := by
  obtain ⟨own, known, found⟩ := finds options
  rw [reads] at found
  rw [Run.ofArguments, Options.ofArguments?_eq_some_iff.mpr asked]
  dsimp only
  rw [found]
  exact Run.tells_of_holds order known holds time

theorem agrees (finds : Finds read find) (order : ForwardOrder) (arguments : List String)
    (time : String) :
    Agrees read arguments time order ((Run.ofArguments order arguments find).transcript time)
    where
  refuses := by
    constructor
    · intro refuses options asked
      obtain ⟨files, holds, _⟩ := finds options
      cases reads : read options.file with
      | none => rfl
      | some source =>
          have tells := finds.tells order asked reads holds time
          exact absurd refuses tells.status_ne_two
    · intro missing
      obtain ⟨reason, refuses⟩ := finds.exists_refused order missing
      rw [refuses]
      rfl
  held options _ :=
    have ⟨files, holds, _⟩ := finds options
    ⟨files, holds⟩
  accepts options source asked reads files holds order' := by
    have tie := upToTie_ofModules order order' (options.workspace files) options.resolver source
      options.file.text
    rw [(finds.tells order asked reads holds time).status_eq_zero_iff]
    exact exists_congr fun analysis => and_congr_left' (tie.ok_iff analysis)
  rejects options source asked reads files holds order' := by
    have tie := upToTie_ofModules order order' (options.workspace files) options.resolver source
      options.file.text
    rw [(finds.tells order asked reads holds time).status_eq_one_iff]
    exact forall_congr' fun analysis => imp_congr_left (tie.ok_iff analysis)
  tells _ _ asked reads _ holds := finds.tells order asked reads holds time
  ties options source files order' := upToTie_ofModules order order' (options.workspace files)
    options.resolver source options.file.text

end Finds

end SmallLang.Command
