import SmallLang.Proofs.Inference.Orderly

/-!
# Placeholders at every point of every run

Each point of a run has the tree as it is annotated there, and the engine. At all points of all runs
in a row on one engine, failed ones among them, each placeholder is one of the table's, and no two
names that wait for a declaration share one.
-/

set_option autoImplicit false

namespace SmallLang

open Infer

variable {α β γ : Type}

/-- All placeholders in some notes can be looked up in a table of so many. -/
def Term.NotesWithin (count : Nat) (notes : List (Option Term)) : Prop :=
  ∀ note ∈ notes, Term.AnyWithin count note

namespace Term.NotesWithin

variable {count more : Nat} {notes notes' : List (Option Term)}

theorem nil : NotesWithin count [] := List.forall_mem_nil _

theorem cons {note : Option Term} (first : Term.AnyWithin count note)
    (rest : NotesWithin count notes) : NotesWithin count (note :: notes) :=
  List.forall_mem_cons.mpr ⟨first, rest⟩

theorem append_iff :
    NotesWithin count (notes ++ notes') ↔ NotesWithin count notes ∧ NotesWithin count notes' :=
  List.forall_mem_append

theorem mono (within : NotesWithin count notes) (grown : count ≤ more) : NotesWithin more notes :=
  fun note present => (within note present).mono grown

end Term.NotesWithin

namespace Walk.Trace

variable {engine : Engine} {notes : α → List (Option Term)} {notes' : β → List (Option Term)}

/-- Every point of a trace is in order, and so are the notes in the tree. -/
def Keeps {walk : Walk α} (trace : Trace walk) (notes : α → List (Option Term))
    (engine : Engine) : Prop :=
  ∀ found ∈ trace.points engine,
    engine.Proceeds found.2 ∧ Term.NotesWithin found.2.table.size (notes found.1)

theorem Keeps.last {walk : Walk α} {trace : Trace walk} (keeps : trace.Keeps notes engine) :
    engine.Proceeds (walk engine).engine ∧
      Term.NotesWithin (walk engine).engine.table.size (notes (walk engine).part) :=
  keeps _ (trace.ends engine)

/-- While a tree stays as it is, its notes are in order. -/
theorem keeps_part {work : Infer γ} {trace : Infer.Trace work} {part : α}
    (keeps : trace.Keeps engine) (noted : Term.NotesWithin engine.table.size (notes part)) :
    ∀ found ∈ (trace.points engine).map (part, ·),
      engine.Proceeds found.2 ∧ Term.NotesWithin found.2.table.size (notes found.1) := by
  intro found listed
  obtain ⟨point, present, rfl⟩ := List.mem_map.mp listed
  exact ⟨keeps point present, noted.mono (keeps point present).grown⟩

theorem keeps_still {work : Infer Term} {trace : Infer.Trace work} {part : α}
    (keeps : trace.Keeps engine) (noted : Term.NotesWithin engine.table.size (notes part)) :
    (still part trace).Keeps notes engine :=
  keeps_part keeps noted

theorem keeps_after {work : Infer γ} {walk : γ → Walk α} {trace : Infer.Trace work} {part : α}
    {later : ∀ value, Trace (walk value)} {inside : Nat → γ → Prop} (keeps : trace.Keeps engine)
    (allocates : work.Allocates engine inside)
    (noted : Term.NotesWithin engine.table.size (notes part))
    (goesOn : ∀ value between, engine.Proceeds between → inside between.table.size value →
      (later value).Keeps notes between) : (after trace part later).Keeps notes engine := by
  refine List.forall_mem_append.mpr ⟨keeps_part keeps noted, ?_⟩
  have reached := keeps.last
  unfold Infer.last at reached
  unfold Infer.Allocates Infer.Meets at allocates
  cases ends : work engine with
  | ok value between =>
      rw [ends] at reached allocates
      intro found present
      obtain ⟨proceeds, noted⟩ := goesOn value between reached allocates.2 found present
      exact ⟨reached.trans proceeds, noted⟩
  | error error between => exact List.forall_mem_nil _

theorem Keeps.map {walk : Walk α} {trace : Trace walk} {whole : α → β}
    (keeps : trace.Keeps (fun part => notes' (whole part)) engine) :
    (trace.map whole).Keeps notes' engine := by
  intro found listed
  obtain ⟨part, present, rfl⟩ := List.mem_map.mp listed
  exact keeps part present

theorem Keeps.within {walk : Walk α} {trace : Trace walk} {whole : α → β}
    (keeps : trace.Keeps (fun part => notes' (whole part)) engine) :
    (trace.within whole).Keeps notes' engine := by
  intro found listed
  obtain ⟨part, present, rfl⟩ := List.mem_map.mp listed
  exact keeps part present

theorem Keeps.both {first : Walk α} {second : Walk β} {before : Trace first} {part : β}
    {later : Trace second} (keeps : before.Keeps notes engine)
    (noted : Term.NotesWithin engine.table.size (notes' part))
    (goesOn : ∀ between, engine.Proceeds between → later.Keeps notes' between) :
    (before.both part later).Keeps (fun found => notes found.1 ++ notes' found.2) engine := by
  refine List.forall_mem_append.mpr ⟨?_, ?_⟩
  · intro found listed
    obtain ⟨point, present, rfl⟩ := List.mem_map.mp listed
    obtain ⟨proceeds, here⟩ := keeps point present
    have there := noted.mono proceeds.grown
    exact ⟨proceeds, Term.NotesWithin.append_iff.mpr ⟨here, there⟩⟩
  · obtain ⟨reached, here⟩ := keeps.last
    split
    · intro found listed
      obtain ⟨point, present, rfl⟩ := List.mem_map.mp listed
      obtain ⟨proceeds, there⟩ := goesOn _ reached point present
      have here := here.mono proceeds.grown
      exact ⟨reached.trans proceeds, Term.NotesWithin.append_iff.mpr ⟨here, there⟩⟩
    · exact List.forall_mem_nil _

theorem Keeps.inScope {walk : Walk α} {trace : Trace walk} {part : α} (orderly : engine.Orderly)
    (noted : Term.NotesWithin engine.table.size (notes part))
    (keeps : trace.Keeps notes engine.push) : (inScope part trace).Keeps notes engine := by
  have opened : engine.Proceeds engine.push := ⟨orderly.push, Nat.le_refl _⟩
  refine List.forall_mem_cons.mpr ⟨⟨opened, noted⟩, List.forall_mem_append.mpr ⟨?_, ?_⟩⟩
  · intro found present
    obtain ⟨proceeds, here⟩ := keeps found present
    exact ⟨⟨proceeds.orderly, proceeds.grown⟩, here⟩
  · obtain ⟨proceeds, here⟩ := keeps.last
    have closed : engine.Proceeds (walk engine.push).engine.pop :=
      ⟨proceeds.orderly.pop, proceeds.grown⟩
    exact List.forall_mem_singleton.mpr ⟨closed, here⟩

end Walk.Trace

open Walk.Trace
open Infer.Trace hiding condition pattern

theorem Variable.keeps_trace (decl : Variable) {engine : Engine} (orderly : engine.Orderly)
    (noted : Term.AnyWithin engine.table.size decl.resolved) :
    decl.trace.Keeps (fun decl => [decl.resolved]) engine := by
  have begins := keeps_initial orderly decl
  refine keeps_after begins (allocates_initial orderly.allocated decl) (.cons noted .nil) ?_
  intro known between proceeds within
  have declares := keeps_declare proceeds.orderly decl within
  refine keeps_still declares (.cons ?_ .nil)
  cases known with
  | none => exact noted.mono proceeds.grown
  | some term => exact within

namespace FunctionHeader

variable {engine : Engine} (header : FunctionHeader)

theorem keeps_traceAlone (orderly : engine.Orderly)
    (noted : Term.AnyWithin engine.table.size header.resolved) :
    header.traceAlone.Keeps (fun header => [header.resolved]) engine := by
  have begins := keeps_function orderly header
  refine keeps_after begins (allocates_function orderly.allocated header) (.cons noted .nil) ?_
  intro found between proceeds within
  have own := Term.anyWithin_some within
  exact keeps_still (keeps_pure proceeds.orderly _) (.cons own .nil)

/-- The notes in a function and in its body. -/
def bodyNotes (found : FunctionHeader × List Stmt) : List (Option Term) :=
  found.1.resolved :: Stmt.allNotes found.2

theorem keeps_finishTrace (orderly : engine.Orderly) {found : Option Ty × Term}
    (within : found.2.Within engine.table.size) {walked : Walked (List Stmt)}
    (returned : Term.AllWithin engine.table.size walked.engine.returned)
    (noted : Term.NotesWithin engine.table.size (bodyNotes (header, walked.part))) :
    (header.finishTrace found walked).Keeps bodyNotes engine := by
  obtain ⟨part, last, outcome⟩ := walked
  cases outcome with
  | error error => exact keeps_still (keeps_fail orderly error) noted
  | ok term =>
      have concludes := keeps_conclusion orderly header found.1 within returned
      refine keeps_after concludes
        (allocates_conclusion orderly.allocated header found.1 within returned) noted ?_
      intro term between proceeds inside
      obtain ⟨_, rest⟩ := List.forall_mem_cons.mp noted
      have rest := Term.NotesWithin.mono rest proceeds.grown
      exact keeps_still (keeps_pure proceeds.orderly _) (.cons (Term.anyWithin_some inside) rest)

theorem keeps_trace (body : List Stmt) {walk : Walk (List Stmt)} {trace : Walk.Trace walk}
    (inside : ∀ {engine : Engine}, engine.Orderly →
      Term.NotesWithin engine.table.size (Stmt.allNotes body) →
      trace.Keeps Stmt.allNotes engine) (orderly : engine.Orderly)
    (noted : Term.NotesWithin engine.table.size (bodyNotes (header, body))) :
    (header.trace body trace).Keeps bodyNotes engine := by
  have begins := keeps_function orderly header
  refine keeps_after begins (allocates_function orderly.allocated header) noted ?_
  intro found inner proceeds within
  have noted := noted.mono proceeds.grown
  obtain ⟨own, rest⟩ := List.forall_mem_cons.mp noted
  have entered := proceeds.orderly.enter
  -- the parameters and the body, which do not touch the header
  have walked : (Walk.Trace.after (Infer.Trace.parameters header.parameters) body
      fun _ => trace).Keeps Stmt.allNotes inner.enter := by
    have given := keeps_parameters header.parameters entered
    refine keeps_after given (allocates_parameters header.parameters entered.allocated) rest ?_
    intro _ start proceeds _
    exact inside proceeds.orderly (Term.NotesWithin.mono rest proceeds.grown)
  obtain ⟨reached, there⟩ := walked.last
  have onward {count : Nat} {part : List Stmt} (grown : inner.table.size ≤ count)
      (there : Term.NotesWithin count (Stmt.allNotes part)) :
      Term.NotesWithin count (bodyNotes (header, part)) := .cons (own.mono grown) there
  have left : inner.Proceeds (Walk.after (Infer.parameters header.parameters) body (fun _ => walk)
      inner.enter).engine.leave := ⟨reached.orderly.leave, reached.grown⟩
  refine List.forall_mem_append.mpr
    ⟨List.forall_mem_cons.mpr ⟨?_, List.forall_mem_cons.mpr ⟨?_, ?_⟩⟩,
      List.forall_mem_cons.mpr ⟨?_, List.forall_mem_cons.mpr ⟨?_, ?_⟩⟩⟩
  · exact ⟨⟨proceeds.orderly.push, Nat.le_refl _⟩, noted⟩
  · exact ⟨⟨entered, Nat.le_refl _⟩, noted⟩
  · intro found listed
    obtain ⟨point, present, rfl⟩ := List.mem_map.mp listed
    obtain ⟨proceeds, there⟩ := walked point present
    exact ⟨⟨proceeds.orderly, proceeds.grown⟩, onward proceeds.grown there⟩
  · exact ⟨⟨reached.orderly.closeFrame, reached.grown⟩, onward reached.grown there⟩
  · exact ⟨left, onward reached.grown there⟩
  · intro point present
    have ended := header.keeps_finishTrace left.orderly (within.mono left.grown)
      reached.allocated.returned (onward reached.grown there) point present
    exact ⟨left.trans ended.1, ended.2⟩

end FunctionHeader

/-- The body of a branch, and what follows it. -/
theorem Walk.Trace.keeps_sides {body : List Stmt} {alternate : Alternate} {engine : Engine}
    (orderly : engine.Orderly)
    (noted : Term.NotesWithin engine.table.size (Stmt.allNotes body ++ alternate.notes))
    (bodies : ∀ {engine : Engine}, engine.Orderly →
      Term.NotesWithin engine.table.size (Stmt.allNotes body) →
      (Stmt.traceAll body).Keeps Stmt.allNotes engine)
    (alternates : ∀ {engine : Engine}, engine.Orderly →
      Term.NotesWithin engine.table.size alternate.notes →
      alternate.trace.Keeps Alternate.notes engine) :
    ((inScope body (Stmt.traceAll body)).both alternate alternate.trace).Keeps
      (fun found => Stmt.allNotes found.1 ++ found.2.notes) engine := by
  obtain ⟨here, there⟩ := Term.NotesWithin.append_iff.mp noted
  have first := Keeps.inScope orderly here (bodies orderly.push here)
  refine first.both there ?_
  intro between proceeds
  exact alternates proceeds.orderly (there.mono proceeds.grown)

/-- A part in a scope of its own, behind a condition or a pattern. -/
theorem Walk.Trace.keeps_guarded {work : Infer γ} {trace : Infer.Trace work} {engine : Engine}
    {whole : List Stmt → β} {notes : β → List (Option Term)} {body : List Stmt}
    {inside : Nat → γ → Prop} (keeps : trace.Keeps engine)
    (allocates : work.Allocates engine inside)
    (same : ∀ body, notes (whole body) = Stmt.allNotes body)
    (noted : Term.NotesWithin engine.table.size (Stmt.allNotes body))
    (bodies : ∀ {engine : Engine}, engine.Orderly →
      Term.NotesWithin engine.table.size (Stmt.allNotes body) →
      (Stmt.traceAll body).Keeps Stmt.allNotes engine) :
    (after trace (whole body) fun _ =>
      (inScope body (Stmt.traceAll body)).within whole).Keeps notes engine := by
  have noted' : Term.NotesWithin engine.table.size (notes (whole body)) := by
    rwa [same body]
  refine keeps_after keeps allocates noted' ?_
  intro _ between proceeds _
  have noted := noted.mono proceeds.grown
  have walked := Keeps.inScope proceeds.orderly noted (bodies proceeds.orderly.push noted)
  refine Keeps.within ?_
  simpa only [same] using walked

mutual

/-- Whatever the walk of a statement comes by is in order. -/
theorem Stmt.keeps_trace : ∀ (s : Stmt) {engine : Engine}, engine.Orderly →
    Term.NotesWithin engine.table.size s.notes → s.trace.Keeps Stmt.notes engine
  | .expr e, _, orderly, noted => keeps_still (e.keeps_trace orderly) noted
  | .comment _, _, orderly, noted | .use _, _, orderly, noted =>
      keeps_still (keeps_pure orderly _) noted
  | .parameter param, _, orderly, noted => keeps_still (keeps_parameter orderly param) noted
  | .returns value, _, orderly, noted => keeps_still (keeps_returns orderly value) noted
  | .declare decl, _, orderly, noted => by
      have own := noted decl.resolved List.mem_cons_self
      exact Keeps.map (decl.keeps_trace orderly own)
  | .function header none, engine, orderly, noted => by
      have alone := header.keeps_traceAlone orderly (noted _ List.mem_cons_self)
      exact (Keeps.within alone : (header.traceAlone.within fun header =>
        Stmt.function header none).Keeps Stmt.notes engine)
  | .function header (some body), engine, orderly, noted => by
      have whole := header.keeps_trace body (Stmt.keeps_traceAll body) orderly noted
      exact (Keeps.within whole : ((header.trace body (Stmt.traceAll body)).within fun found =>
        Stmt.function found.1 (some found.2)).Keeps Stmt.notes engine)
  | .branch condition body alternate, _, orderly, noted => by
      have tests := keeps_condition orderly condition
      refine keeps_after tests (allocates_condition orderly.allocated condition) noted ?_
      intro _ between proceeds _
      have noted := noted.mono proceeds.grown
      exact Keeps.within (keeps_sides proceeds.orderly noted (Stmt.keeps_traceAll body)
        (Alternate.keeps_trace alternate))
  | .loop condition body, _, orderly, noted => by
      have tests := keeps_condition orderly condition
      exact keeps_guarded tests (allocates_condition orderly.allocated condition) (fun _ => rfl)
        noted (Stmt.keeps_traceAll body)
  | .switch subject arms, _, orderly, noted => by
      have begins := subject.keeps_trace orderly
      refine keeps_after begins (subject.allocates_infer orderly.allocated) noted ?_
      intro term between proceeds within
      have noted := noted.mono proceeds.grown
      exact Keeps.within
        (Arm.keeps_traceAll arms proceeds.orderly (Term.anyWithin_some within) noted)
  | .arm single, _, orderly, noted =>
      Keeps.within (Arm.keeps_trace single orderly Term.anyWithin_none noted)
  | .merged body, _, orderly, noted => Keeps.within (Stmt.keeps_traceAll body orderly noted)

theorem Alternate.keeps_trace : ∀ (alternate : Alternate) {engine : Engine}, engine.Orderly →
    Term.NotesWithin engine.table.size alternate.notes →
    alternate.trace.Keeps Alternate.notes engine
  | .none, _, orderly, noted => keeps_still (keeps_pure orderly _) noted
  | .elseBranch condition body alternate, _, orderly, noted => by
      have tests := keeps_condition orderly condition
      refine keeps_after tests (allocates_condition orderly.allocated condition) noted ?_
      intro _ between proceeds _
      have noted := noted.mono proceeds.grown
      exact Keeps.within (keeps_sides proceeds.orderly noted (Stmt.keeps_traceAll body)
        (Alternate.keeps_trace alternate))
  | .otherwise body, _, orderly, noted => by
      have inner := Stmt.keeps_traceAll body orderly.push noted
      exact Keeps.within (Keeps.inScope orderly noted inner)

theorem Arm.keeps_trace : ∀ (arm : Arm) {subject : Option Term} {engine : Engine},
    engine.Orderly → Term.AnyWithin engine.table.size subject →
    Term.NotesWithin engine.table.size arm.notes → (arm.trace subject).Keeps Arm.notes engine
  | .value pattern body, _, _, orderly, inside, noted => by
      have tests := keeps_pattern orderly inside pattern
      exact keeps_guarded tests (allocates_pattern orderly.allocated inside pattern)
        (fun _ => rfl) noted (Stmt.keeps_traceAll body)
  | .otherwise body, _, _, orderly, _, noted => by
      have inner := Stmt.keeps_traceAll body orderly.push noted
      exact Keeps.within (Keeps.inScope orderly noted inner)

theorem Stmt.keeps_traceAll : ∀ (body : List Stmt) {engine : Engine}, engine.Orderly →
    Term.NotesWithin engine.table.size (Stmt.allNotes body) →
    (Stmt.traceAll body).Keeps Stmt.allNotes engine
  | [], _, orderly, noted => keeps_still (keeps_pure orderly _) noted
  | first :: rest, _, orderly, noted => by
      obtain ⟨here, there⟩ := Term.NotesWithin.append_iff.mp noted
      refine Keeps.within ((Stmt.keeps_trace first orderly here).both there ?_)
      intro between proceeds
      exact Stmt.keeps_traceAll rest proceeds.orderly (there.mono proceeds.grown)

theorem Arm.keeps_traceAll : ∀ (arms : List Arm) {subject : Option Term} {engine : Engine},
    engine.Orderly → Term.AnyWithin engine.table.size subject →
    Term.NotesWithin engine.table.size (Arm.allNotes arms) →
    (Arm.traceAll subject arms).Keeps Arm.allNotes engine
  | [], _, _, orderly, _, noted => keeps_still (keeps_pure orderly _) noted
  | first :: rest, _, _, orderly, inside, noted => by
      obtain ⟨here, there⟩ := Term.NotesWithin.append_iff.mp noted
      refine Keeps.within ((Arm.keeps_trace first orderly inside here).both there ?_)
      intro between proceeds
      exact Arm.keeps_traceAll rest proceeds.orderly (inside.mono proceeds.grown)
        (there.mono proceeds.grown)

end

mutual

/-- Nothing is noted in a program before inference. -/
theorem Stmt.Loaded.notes_eq_none : ∀ {s : Stmt}, s.Loaded → ∀ note ∈ s.notes, note = none
  | .expr _, _ | .comment _, _ | .use _, _ | .returns _, _ => List.forall_mem_nil _
  | .parameter _, loaded | .arm _, loaded => loaded.elim
  | .declare _, unnoted => List.forall_mem_singleton.mpr unnoted
  | .function _ none, ⟨unnoted, _⟩ => List.forall_mem_singleton.mpr unnoted
  | .function _ (some _), ⟨unnoted, _, loaded⟩ =>
      List.forall_mem_cons.mpr ⟨unnoted, Stmt.AllLoaded.notes_eq_none loaded⟩
  | .branch .., ⟨loaded, loaded'⟩ => List.forall_mem_append.mpr
      ⟨Stmt.AllLoaded.notes_eq_none loaded, Alternate.Loaded.notes_eq_none loaded'⟩
  | .loop .., loaded | .merged _, loaded => Stmt.AllLoaded.notes_eq_none loaded
  | .switch .., loaded => Arm.AllLoaded.notes_eq_none loaded

theorem Alternate.Loaded.notes_eq_none : ∀ {alternate : Alternate}, alternate.Loaded →
    ∀ note ∈ alternate.notes, note = none
  | .none, _ => List.forall_mem_nil _
  | .elseBranch .., ⟨loaded, loaded'⟩ => List.forall_mem_append.mpr
      ⟨Stmt.AllLoaded.notes_eq_none loaded, Alternate.Loaded.notes_eq_none loaded'⟩
  | .otherwise _, loaded => Stmt.AllLoaded.notes_eq_none loaded

theorem Arm.Loaded.notes_eq_none : ∀ {arm : Arm}, arm.Loaded → ∀ note ∈ arm.notes, note = none
  | .value .., loaded | .otherwise _, loaded => Stmt.AllLoaded.notes_eq_none loaded

theorem Stmt.AllLoaded.notes_eq_none : ∀ {body : List Stmt}, Stmt.AllLoaded body →
    ∀ note ∈ Stmt.allNotes body, note = none
  | [], _ => List.forall_mem_nil _
  | _ :: _, ⟨first, rest⟩ => List.forall_mem_append.mpr
      ⟨Stmt.Loaded.notes_eq_none first, Stmt.AllLoaded.notes_eq_none rest⟩

theorem Arm.AllLoaded.notes_eq_none : ∀ {arms : List Arm}, Arm.AllLoaded arms →
    ∀ note ∈ Arm.allNotes arms, note = none
  | [], _ => List.forall_mem_nil _
  | _ :: _, ⟨first, rest⟩ => List.forall_mem_append.mpr
      ⟨Arm.Loaded.notes_eq_none first, Arm.AllLoaded.notes_eq_none rest⟩

end

/-! ### Runs -/

section Runs

variable {engine point : Engine} {program part : Program}

theorem Program.Loaded.notesWithin (loaded : Program.Loaded program) (count : Nat) :
    Term.NotesWithin count (Stmt.allNotes program) := by
  intro note present
  rw [loaded.allLoaded.notes_eq_none note present]
  exact Term.anyWithin_none

/-- Sweeping and settling bind placeholders, but neither add nor forget any. -/
theorem Engine.Orderly.swept (orderly : engine.Orderly) (constraints : List Constraint) :
    Engine.Orderly { engine with table := engine.table.unify constraints, constraints := [] } := by
  obtain ⟨allocated, unshared⟩ := orderly
  have size : (engine.table.unify constraints).size = engine.table.size := Table.size_unify ..
  refine ⟨⟨?_, ?_, List.forall_mem_nil _, ?_, ?_⟩, unshared⟩
  · exact size ▸ allocated.scopes
  · exact size ▸ allocated.known
  · exact size ▸ allocated.forward
  · exact size ▸ allocated.frames

theorem Term.NotesWithin.settled {table : Table} {notes notes' : List (Option Term)} {count : Nat}
    (within : NotesWithin count notes)
    (settled : List.Forall₂ (fun note note' => note' = note ∨ table.Settles note note') notes
      notes') : NotesWithin count notes' := by
  induction settled with
  | nil => exact .nil
  | cons holds _ ih =>
      obtain ⟨here, rest⟩ := List.forall_mem_cons.mp within
      refine .cons ?_ (ih rest)
      obtain rfl | ⟨_, closed⟩ := holds
      · exact here
      · intro term found
        cases term with
        | concrete type => exact Term.within_type type
        | pending placeholder => cases closed _ found

/-- From an engine in order, all that a run comes by is in order. -/
theorem Program.ComesBy.keeps (orderly : engine.Orderly)
    (noted : Term.NotesWithin engine.table.size (Stmt.allNotes program))
    (comes : program.ComesBy engine part point) :
    point.Orderly ∧ Term.NotesWithin point.table.size (Stmt.allNotes part) := by
  have walked := Stmt.keeps_traceAll program (orderly.learn program) noted
  have ended {part : Program} {last : Engine}
      (ends : (Stmt.walkAll program).Ends (engine.learn program) part last) :
      last.Orderly ∧ Term.NotesWithin last.table.size (Stmt.allNotes part) := by
    have reached := walked.last
    obtain ⟨term, ends⟩ := ends
    rw [ends] at reached
    exact ⟨reached.1.orderly, reached.2⟩
  cases comes with
  | starts => exact ⟨orderly, noted⟩
  | learns => exact ⟨orderly.learn program, noted⟩
  | walks present =>
      obtain ⟨proceeds, here⟩ := walked _ present
      exact ⟨proceeds.orderly, here⟩
  | sweeps count ends declared =>
      obtain ⟨orderly, noted⟩ := ended ends
      exact ⟨orderly.swept _, (Table.size_unify ..).symm ▸ noted⟩
  | @settles _ _ last ends declared alike =>
      obtain ⟨orderly, noted⟩ := ended ends
      have size : last.sweep.table.size = last.table.size := Table.size_unify ..
      refine ⟨orderly.swept _, Term.NotesWithin.settled ?_ (Stmt.AllAlike.allNotes alike)⟩
      rwa [size]

/-- Runs over programs leave an engine in order, whatever comes of each. -/
theorem Engine.Orderly.afterRuns (runs : List (ForwardOrder × Program)) : ∀ {engine : Engine},
    engine.Orderly → (∀ run ∈ runs, Program.Loaded run.2) → (engine.afterRuns runs).Orderly := by
  induction runs with
  | nil => exact fun orderly _ => orderly
  | cons run rest ih =>
      intro engine orderly loaded
      obtain ⟨first, rest⟩ := List.forall_mem_cons.mp loaded
      refine ih (meets_last_iff.mp ((run.2.comesBy_run run.1 engine).imp ?_ ?_)) rest
      · intro _ last comes
        exact (comes.keeps orderly (first.notesWithin _)).1
      · rintro _ last ⟨part, comes⟩
        exact (comes.keeps orderly (first.notesWithin _)).1

/-- At every point of every run in a row of runs on one engine, failed ones among them, each
placeholder in the scopes, the constraints, the forward references, the frames and the notes of the
tree is one of the table's, and no two names that wait for a declaration share one. -/
theorem Program.ComesBy.placeholders (earlier : List (ForwardOrder × Program))
    (loaded : ∀ run ∈ earlier, Program.Loaded run.2) (program : Program)
    (loaded' : Program.Loaded program) (part : Program) (point : Engine)
    (comes : program.ComesBy (Engine.start.afterRuns earlier) part point) :
    point.Orderly ∧ ∀ note ∈ Stmt.allNotes part, Term.AnyWithin point.table.size note :=
  comes.keeps (.afterRuns earlier Engine.orderly_start loaded) (loaded'.notesWithin _)

end Runs

namespace HalfWalked

/-- A name on the only line of a file, or on its first. -/
def name (text file : String) (offset : Nat) : Expr := .identifier text ⟨file, offset⟩

/-- A program whose names are not declared. A run over it fails. -/
def earlier : Program :=
  [.declare ⟨"a", true, none, some (name "b" "one" 9), ⟨"one", 0⟩, none⟩]

/-- A function that returns a sum of two names without a declaration, one of them seen before. -/
def later : Program :=
  [.function ⟨"f", [], none, [], ⟨"two", 0⟩, none⟩
    (some [.returns (some (.binary .add (name "b" "two" 16) (name "e" "two" 20)))])]

/-- The engine that the failed run leaves behind. -/
def engine : Engine := Engine.start.afterRuns [(.byUse, earlier)]

end HalfWalked

open HalfWalked in
/-- After a failed run, in the middle of another one, two names wait and the open frame holds the
last of four placeholders. -/
theorem Program.ComesBy.placeholders_half_walked :
    Program.read "let a := b" "one" = .ok earlier ∧
      Program.read "fn f() \x7b return b + e \x7d" "two" = .ok later ∧
      earlier.infer .byUse = .error ⟨.notDeclared "b", ⟨"one", 9⟩⟩ ∧
      ∃ part point, later.ComesBy engine part point ∧
        point.frames = [[.pending ⟨3⟩]] ∧ point.table.size = 4 ∧
        point.forward.map (fun reference => (reference.name, reference.placeholder.index)) =
          [("b", 0), ("e", 2)] ∧
        point.Orderly ∧ ∀ note ∈ Stmt.allNotes part, Term.AnyWithin point.table.size note := by
  have reads : Program.read "let a := b" "one" = .ok earlier := read_of_toOption (by decide +kernel)
  have reads' : Program.read "fn f() \x7b return b + e \x7d" "two" = .ok later :=
    read_of_toOption (by decide +kernel)
  obtain ⟨_, _, parsed⟩ := exists_tokens_of_read reads
  obtain ⟨_, _, parsed'⟩ := exists_tokens_of_read reads'
  let points := (Stmt.traceAll later).points (engine.learn later)
  have comes : later.ComesBy engine (points.get ⟨23, by decide⟩).1 (points.get ⟨23, by decide⟩).2 :=
    .walks (List.get_mem _ _)
  refine ⟨reads, reads', by rfl, _, _, comes, by rfl, by rfl, by rfl, ?_⟩
  exact placeholders [(.byUse, earlier)] (List.forall_mem_singleton.mpr (.parsed parsed)) later
    (.parsed parsed') _ _ comes

end SmallLang
