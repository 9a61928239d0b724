import SmallLang.Proofs.Inference.Allocated
import SmallLang.Proofs.Inference.Parallel
import SmallLang.Proofs.Inference.Program
import SmallLang.Proofs.Module.Loaded
import SmallLang.Tree.Equality

/-!
# Sessions

Several programs in a row on one engine are inferred as one program that holds all their
statements. The sweeps between them bind placeholders, but the walks do not look at that, and later
sweeps leave it.
-/

set_option autoImplicit false

namespace SmallLang

open Infer Walk

/-- A walk over statements goes on where the walk over those before them has ended. -/
theorem Stmt.ends_append {first second part part' : List Stmt} {engine between last : Engine}
    (begins : (Stmt.walkAll first).Ends engine part between)
    (goes : (Stmt.walkAll second).Ends between part' last) :
    (Stmt.walkAll (first ++ second)).Ends engine (part ++ part') last := by
  induction first generalizing engine part with
  | nil =>
      obtain ⟨rfl, rfl⟩ := Stmt.ends_nil.mp begins
      exact goes
  | cons head tail ih =>
      obtain ⟨head', inner, tail', walked, walked', rfl⟩ := Stmt.ends_cons.mp begins
      exact Stmt.ends_cons.mpr ⟨head', inner, tail' ++ part', walked, ih walked', rfl⟩

/-- What a table has settled is settled in one that knows more. -/
theorem Table.Settles.of_knows {table table' : Table} {note note' : Option Term}
    (knows : ∀ term type, table.resolve term = .concrete type →
      table'.resolve term = .concrete type)
    (settles : table.Settles note note') : table'.Settles note note' := by
  obtain ⟨rfl, settled⟩ := settles
  cases note with
  | none => exact ⟨rfl, nofun⟩
  | some term =>
      cases known : table.resolve term with
      | concrete type =>
          rw [Option.map_some, known] at settled ⊢
          exact ⟨by rw [Option.map_some, knows term type known], settled⟩
      | pending root =>
          have closed := settled _ (congrArg some known)
          cases closed

namespace Engine.Parallel

variable {base : Table} {past : List Constraint} {engine engine' : Engine}

/-- Constraints may be swept before others come up, or together with them. -/
theorem sweep_eq (sound : base.Sound) (within : ∀ constraint ∈ past, constraint.Within base.size)
    (parallel : Parallel (base.unify past) base past engine engine') :
    engine'.sweep = engine.sweep := by
  cases parallel with
  | intro more grown =>
      have table : (base.extend more).unify (past ++ engine.constraints) =
          engine.table.unify engine.constraints := by
        rw [grown, Table.unify_append, sound.unify_extend within]
      exact congrArg (fun table => { engine with table, constraints := [] }) table

/-- What an early sweep has found is found by all. -/
theorem knows (sound : base.Sound)
    (within : ∀ constraint ∈ engine'.constraints, constraint.Within engine'.table.size)
    (pastWithin : ∀ constraint ∈ past, constraint.Within base.size)
    (parallel : Parallel (base.unify past) base past engine engine') (term : Term) (type : Ty)
    (known : (base.unify past).resolve term = .concrete type) :
    engine.sweep.table.resolve term = .concrete type := by
  cases parallel with
  | intro more grown =>
      have swept := sound.unify past pastWithin
      change (engine.table.unify engine.constraints).resolve term = .concrete type
      rw [grown]
      refine (swept.extend more).resolve_unify_of_type _ (fun constraint present => ?_)
        (swept.forest.resolve_extend_of_type known more).2
      have inside := within constraint (List.mem_append_right past present)
      change constraint.Within (base.extend more).size at inside
      rwa [Table.size_extend, Table.size_unify, ← Table.size_extend]

end Engine.Parallel

namespace Walk

/-- The table of an engine after a walk from the start, and the constraints on it. -/
theorem Ends.table_of_start {program part : Program} {last : Engine}
    (ends : (Stmt.walkAll program).Ends .start part last) :
    last.table.Sound ∧ ∀ constraint ∈ last.constraints, constraint.Within last.table.size := by
  obtain ⟨⟨_, _, grows⟩, _, _⟩ := Stmt.passes_walkAll program ends Scopes.sane_start
  obtain ⟨count, unbound⟩ := grows.learns.unbound 0 rfl
  have leads : Engine.start.Leads last := by
    obtain ⟨term, walked⟩ := ends
    have found := meets_last_iff.mp (Stmt.allocates_walkAll program Engine.allocated_start)
    rwa [walked] at found
  exact ⟨unbound ▸ Table.sound_unbound count, leads.allocated.constraints⟩

/-- A walk after a sweep, and the same walk without the sweep. -/
theorem Ends.unswept {program part : Program} {engine last : Engine}
    (ends : (Stmt.walkAll program).Ends engine.sweep part last) :
    ∃ last', (Stmt.walkAll program).Ends engine part last' ∧
      Engine.Parallel (engine.table.unify engine.constraints) engine.table engine.constraints
        last last' := by
  have parallel : Engine.Parallel (engine.table.unify engine.constraints) engine.table
      engine.constraints engine.sweep engine :=
    .of_table rfl (by simp [Engine.sweep])
  have alike := (Stmt.composed_walkAll program).blind (Table.size_unify _ _) _ _ parallel
  obtain ⟨term, walked⟩ := ends
  rw [walked] at alike
  generalize walked' : Stmt.walkAll program engine = ended at alike
  cases alike with
  | intro parallel => exact ⟨_, ⟨term, walked'⟩, parallel⟩

end Walk

namespace Infer

/-- Two programs that are inferred one after the other are inferred as one, which leaves the same
engine behind. -/
theorem run_append {first second typed typed' : Program} {engine last : Engine}
    {order order' : ForwardOrder} (loaded : Program.Loaded first) (loaded' : Program.Loaded second)
    (runs : run order first .start = .ok typed engine)
    (runs' : run order' second engine = .ok typed' last) (joint : ForwardOrder) :
    run joint (first ++ second) .start = .ok (typed ++ typed') last := by
  obtain ⟨part, between, ends, _, rfl, settled⟩ := yields_run.mp runs
  obtain ⟨part', ended, ends', declared, rfl, settled'⟩ := yields_run.mp runs'
  rw [Engine.learn_of_loaded _ loaded.allLoaded] at ends
  rw [Engine.learn_of_loaded _ loaded'.allLoaded] at ends'
  obtain ⟨ended', ends', parallel⟩ := ends'.unswept
  have whole := Stmt.ends_append ends ends'
  obtain ⟨sound, within⟩ := ends.table_of_start
  have swept := parallel.sweep_eq sound within
  have knows := parallel.knows sound whole.table_of_start.2 within
  refine yields_run.mpr ⟨part ++ part', ended', ?_, ?_, swept.symm, ?_⟩
  · rwa [Engine.learn_of_loaded _ (loaded.allLoaded.append loaded'.allLoaded)]
  · rw [parallel.forward, declared]
  · exact (settled.mono fun _ _ => Table.Settles.of_knows knows).append settled'

namespace BoundName

/-- What a run makes of a program. -/
def typed? (program : Program) (engine : Engine) : Option Program :=
  match run .byUse program engine with
  | .ok typed _ => some typed
  | .error _ _ => none

theorem run_of_typed? {program typed : Program} {engine : Engine}
    (found : typed? program engine = some typed) :
    run .byUse program engine = .ok typed (Infer.last (run .byUse program) engine) := by
  unfold typed? at found
  unfold Infer.last
  cases ends : run .byUse program engine with
  | ok other last =>
      rw [ends] at found
      cases found
      rfl
  | error error last =>
      rw [ends] at found
      cases found

/-- A use of a name and behind it a declaration of the name, with some notes. -/
def earlier (note : Option Term) : Program :=
  [.declare ⟨"y", true, none, some (.identifier "x" ⟨"one", 9⟩), ⟨"one", 0⟩, note⟩,
   .declare ⟨"x", true, none, some (.number "1"), ⟨"one", 11⟩, note⟩]

/-- A sum with the variable that was a placeholder before the first sweep. -/
def later (note : Option Term) : Program :=
  [.declare ⟨"z", true, none, some (.binary .add (.identifier "y" ⟨"two", 9⟩) (.number "1")),
    ⟨"two", 0⟩, note⟩]

end BoundName

open BoundName in
/-- A sum in a second program, with a variable whose placeholder the first one has bound. -/
theorem run_append_bound_name :
    Program.read "let y := x\nlet x := 1" "one" = .ok (earlier none) ∧
      Program.read "let z := y + 1" "two" = .ok (later none) ∧
      ∃ engine last,
        run .byUse (earlier none) .start = .ok (earlier (some (.concrete .int))) engine ∧
        run .byUse (later none) engine = .ok (later (some (.concrete .int))) last ∧
        run .byUse (earlier none ++ later none) .start =
          .ok (earlier (some (.concrete .int)) ++ later (some (.concrete .int))) last ∧
        last.table.size = 2 := by
  have reads : Program.read "let y := x\nlet x := 1" "one" = .ok (earlier none) :=
    Program.read_of_toOption (by decide +kernel)
  have reads' : Program.read "let z := y + 1" "two" = .ok (later none) :=
    Program.read_of_toOption (by decide +kernel)
  obtain ⟨_, _, parsed⟩ := Program.exists_tokens_of_read reads
  obtain ⟨_, _, parsed'⟩ := Program.exists_tokens_of_read reads'
  have runs : typed? (earlier none) .start = some (earlier (some (.concrete .int))) := by
    decide +kernel
  have runs' : typed? (later none) (Infer.last (run .byUse (earlier none)) .start) =
      some (later (some (.concrete .int))) := by decide +kernel
  exact ⟨reads, reads', _, _, run_of_typed? runs, run_of_typed? runs',
    run_append (.parsed parsed) (.parsed parsed') (run_of_typed? runs) (run_of_typed? runs') .byUse,
    by decide +kernel⟩

end Infer

end SmallLang
