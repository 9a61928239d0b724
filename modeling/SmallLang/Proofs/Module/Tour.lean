import SmallLang.Proofs.Module.Linked
import SmallLang.Proofs.Parse.Detached

/-!
# Tours of files

A tour meets the uses of a program, and those of the files that they name, in the order of the
source and depth first. It enters a file where it meets a use of it for the first time, unless the
file was resolved before. So it enters each file once, and those that can be reached.
-/

set_option autoImplicit false

namespace SmallLang

theorem Program.uses_detached (program : Program) :
    program.detached.uses = program.uses.map Use.detached := by
  induction program with
  | nil => rfl
  | cons first rest ih =>
      cases first with
      | use used => exact congrArg (used.detached :: ·) ih
      | function header body => cases body <;> exact ih
      | _ => exact ih

theorem Program.declared_detached (program : Program) :
    program.detached.declared = program.declared := by
  induction program with
  | nil => rfl
  | cons first rest ih =>
      cases first with
      | declare decl => exact congrArg (decl.name :: ·) ih
      | function header body => cases body <;> exact congrArg (header.name :: ·) ih
      | _ => exact ih

theorem Resolver.isResolved_congr (resolver : Resolver) {path path' : Path}
    (same : path.parts = path'.parts) : resolver.isResolved path = resolver.isResolved path' := by
  rw [isResolved, same, ← isResolved]

namespace Workspace

variable (workspace : Workspace)

/-- Whether a use names the file at a path. -/
def names (path : Path) (used : Use) : Bool := (workspace.modulePath used.path).same path

/-- A file was resolved before, or some use names it. -/
def Known (resolver : Resolver) (uses : List Use) (path : Path) : Prop :=
  resolver.isResolved path = true ∨ ∃ used ∈ uses, workspace.names path used = true

/-- The file at a path spells a program. -/
def Spells (path : Path) (program : Program) : Prop :=
  ∃ source, workspace.files.read? path = some source ∧ Program.read source path.text = .ok program

/-- A file can be reached from a program through files that were not resolved before. -/
inductive Reachable (resolver : Resolver) (program : Program) : Path → Prop where
  | entry {path : Path} {used : Use} :
      used ∈ program.uses → workspace.names path used = true → Reachable resolver program path
  | through {path path' : Path} {module : Program} {used : Use} :
      Reachable resolver program path → resolver.isResolved path = false →
      workspace.Spells path module → used ∈ module.uses → workspace.names path' used = true →
      Reachable resolver program path'

/-- A tour of statements after earlier uses: the uses that it meets, and those of them at which it
enters a file. -/
inductive Tours (resolver : Resolver) : List Use → List Stmt → List Use → List Use → Prop where
  | nil {earlier : List Use} : Tours resolver earlier [] [] []
  | skipped {earlier met entered : List Use} {s : Stmt} {rest : List Stmt} :
      (∀ used, s ≠ .use used) → Tours resolver earlier rest met entered →
      Tours resolver earlier (s :: rest) met entered
  | again {earlier met entered : List Use} {used : Use} {rest : List Stmt} :
      workspace.Known resolver earlier (workspace.modulePath used.path) →
      Tours resolver (earlier ++ [used]) rest met entered →
      Tours resolver earlier (.use used :: rest) (used :: met) entered
  | first {earlier inner met below later : List Use} {used : Use} {module : Program}
      {rest : List Stmt} :
      ¬ workspace.Known resolver earlier (workspace.modulePath used.path) →
      workspace.Spells (workspace.modulePath used.path) module →
      Tours resolver (earlier ++ [used]) module inner below →
      Tours resolver (earlier ++ used :: inner) rest met later →
      Tours resolver earlier (.use used :: rest) (used :: (inner ++ met))
        (used :: (below ++ later))

variable {workspace} {resolver : Resolver} {path path' : Path}

theorem names_iff {used : Use} :
    workspace.names path used = true ↔ (workspace.modulePath used.path).parts = path.parts :=
  beq_iff_eq

theorem names_self (used : Use) : workspace.names (workspace.modulePath used.path) used = true :=
  names_iff.mpr rfl

theorem names_congr (same : path.parts = path'.parts) :
    workspace.names path = workspace.names path' := by
  funext used
  rw [names, Path.same, same]
  rfl

section Known

variable {uses more : List Use}

theorem Known.congr (known : workspace.Known resolver uses path) (same : path.parts = path'.parts) :
    workspace.Known resolver uses path' := by
  unfold Known at known ⊢
  rwa [← resolver.isResolved_congr same, ← names_congr same]

theorem Known.mono (known : workspace.Known resolver uses path) (subset : uses ⊆ more) :
    workspace.Known resolver more path :=
  known.imp_right fun ⟨used, present, named⟩ => ⟨used, subset present, named⟩

/-- Uses of files that are known make no others known. -/
theorem Known.of_all (known : workspace.Known resolver more path)
    (all : ∀ used ∈ more, workspace.Known resolver uses (workspace.modulePath used.path)) :
    workspace.Known resolver uses path := by
  rcases known with done | ⟨used, present, named⟩
  · exact .inl done
  · exact (all used present).congr (names_iff.mp named)

theorem known_of_mem {used : Use} (present : used ∈ uses) :
    workspace.Known resolver uses (workspace.modulePath used.path) :=
  .inr ⟨used, present, names_self used⟩

end Known

theorem Reachable.congr {program : Program} (reachable : workspace.Reachable resolver program path)
    (same : path.parts = path'.parts) : workspace.Reachable resolver program path' := by
  have names : workspace.names path = workspace.names path' := names_congr same
  cases reachable with
  | entry present named => exact .entry present (names ▸ named)
  | through before new spells present named =>
      exact .through before new spells present (names ▸ named)

/-- One file spells the same under each of its paths. -/
theorem Spells.detached_eq {module module' : Program} (spells : workspace.Spells path module)
    (spells' : workspace.Spells path' module') (same : path.parts = path'.parts) :
    module'.detached = module.detached := by
  obtain ⟨source, found, reads⟩ := spells
  obtain ⟨source', found', reads'⟩ := spells'
  have source_eq : source = source' := by
    have files : workspace.files.read? path = workspace.files.read? path' := by
      simp only [Files.read?, Path.same, same]
    exact Option.some.inj (found.symm.trans (files.trans found'))
  subst source_eq
  have detached := Program.read_detached source path.text path'.text
  rw [reads, reads'] at detached
  exact Option.some.inj detached

theorem Spells.exists_use {module module' : Program} {used : Use}
    (spells : workspace.Spells path module) (spells' : workspace.Spells path' module')
    (same : path.parts = path'.parts) (present : used ∈ module.uses) :
    ∃ used' ∈ module'.uses, used'.path = used.path := by
  have uses : module'.uses.map Use.detached = module.uses.map Use.detached := by
    rw [← Program.uses_detached, ← Program.uses_detached, spells.detached_eq spells' same]
  have present' : used.detached ∈ module'.uses.map Use.detached :=
    uses ▸ List.mem_map_of_mem present
  obtain ⟨used', present', equal⟩ := List.mem_map.mp present'
  have path_eq : used'.detached.path = used.detached.path := congrArg Use.path equal
  exact ⟨used', present', path_eq⟩

theorem Spells.declared_eq {module module' : Program} (spells : workspace.Spells path module)
    (spells' : workspace.Spells path' module') (same : path.parts = path'.parts) :
    module'.declared = module.declared := by
  rw [← Program.declared_detached, spells.detached_eq spells' same, Program.declared_detached]

namespace Tours

variable {earlier met entered : List Use} {program : Program}

theorem entered_subset (tours : workspace.Tours resolver earlier program met entered) :
    entered ⊆ met := by
  induction tours with
  | nil => simp
  | skipped _ _ ih => exact ih
  | again _ _ ih => exact List.subset_cons_of_subset _ ih
  | first _ _ _ _ inside rest =>
      exact List.cons_subset_cons _ (List.append_subset.mpr
        ⟨List.subset_append_of_subset_left _ inside, List.subset_append_of_subset_right _ rest⟩)

/-- No file is entered that was known. -/
theorem entered_new (tours : workspace.Tours resolver earlier program met entered) :
    ∀ used ∈ entered, ¬ workspace.Known resolver earlier (workspace.modulePath used.path) := by
  induction tours with
  | nil => simp
  | skipped _ _ ih => exact ih
  | again _ _ ih =>
      exact fun used present known => ih used present (known.mono (List.subset_append_left ..))
  | first new _ _ _ inside rest =>
      intro used present known
      rcases List.mem_cons.mp present with rfl | present
      · exact new known
      · rcases List.mem_append.mp present with present | present
        · exact inside used present (known.mono (List.subset_append_left ..))
        · exact rest used present (known.mono (List.subset_append_left ..))

/-- No file is entered twice. -/
theorem once (tours : workspace.Tours resolver earlier program met entered) :
    (entered.map fun used => (workspace.modulePath used.path).parts).Nodup := by
  rw [List.Nodup, List.pairwise_map]
  have apart {uses : List Use} {used other : Use} (before : used ∈ uses)
      (new : ¬ workspace.Known resolver uses (workspace.modulePath other.path)) :
      (workspace.modulePath used.path).parts ≠ (workspace.modulePath other.path).parts :=
    fun same => new ((known_of_mem before).congr same)
  induction tours with
  | nil => exact .nil
  | skipped _ _ ih => exact ih
  | again _ _ ih => exact ih
  | @first earlier inner _ below later head _ _ _ _ tours tours' inside rest =>
      refine .cons (fun other present => ?_) (List.pairwise_append.mpr ⟨inside, rest, ?_⟩)
      · rcases List.mem_append.mp present with present | present
        · exact apart (by simp) (tours.entered_new other present)
        · exact apart (by simp) (tours'.entered_new other present)
      · intro used present other present'
        have met := tours.entered_subset present
        exact apart (by simp [met]) (tours'.entered_new other present')

/-- A file is entered at the first use that names it. -/
theorem find?_entered (tours : workspace.Tours resolver earlier program met entered) :
    ∀ used ∈ entered,
      (earlier ++ met).find? (workspace.names (workspace.modulePath used.path)) = some used := by
  induction tours with
  | nil => simp
  | skipped _ _ ih => exact ih
  | again _ _ ih => simpa using ih
  | @first earlier inner met _ _ head _ _ new _ _ _ inside rest =>
      intro used present
      rcases List.mem_cons.mp present with rfl | present
      · have unnamed : earlier.find? (workspace.names (workspace.modulePath used.path)) = none :=
          List.find?_eq_none.mpr fun other before named => new (.inr ⟨other, before, named⟩)
        simp [List.find?_append, unnamed, names_self]
      · rcases List.mem_append.mp present with present | present
        · have parts : earlier ++ head :: (inner ++ met) = (earlier ++ [head] ++ inner) ++ met := by
            simp
          rw [parts, List.find?_append, inside used present]
          rfl
        · simpa using rest used present

/-- The files of the uses that are met were known, or are entered. -/
theorem covered (tours : workspace.Tours resolver earlier program met entered) :
    ∀ used ∈ met, workspace.Known resolver (earlier ++ entered)
      (workspace.modulePath used.path) := by
  induction tours with
  | nil => simp
  | skipped _ _ ih => exact ih
  | @again earlier _ entered head _ known _ ih =>
      have seen := known.mono (List.subset_append_left earlier entered)
      intro used present
      rcases List.mem_cons.mp present with rfl | present
      · exact seen
      · refine (ih used present).of_all ?_
        intro other listed
        simp only [List.append_assoc, List.cons_append, List.nil_append, List.mem_append,
          List.mem_cons] at listed
        rcases listed with listed | rfl | listed
        · exact known_of_mem (by simp [listed])
        · exact seen
        · exact known_of_mem (by simp [listed])
  | @first earlier inner _ below later head _ _ _ _ _ _ inside rest =>
      have below' : ∀ used ∈ inner, workspace.Known resolver (earlier ++ head :: (below ++ later))
          (workspace.modulePath used.path) := by
        intro used present
        refine (inside used present).mono ?_
        intro other listed
        simp only [List.append_assoc, List.cons_append, List.nil_append, List.mem_append,
          List.mem_cons] at listed ⊢
        tauto
      intro used present
      rcases List.mem_cons.mp present with rfl | present
      · exact known_of_mem (by simp)
      · rcases List.mem_append.mp present with present | present
        · exact below' used present
        · refine (rest used present).of_all ?_
          intro other listed
          simp only [List.append_assoc, List.cons_append, List.mem_append, List.mem_cons] at listed
          rcases listed with listed | rfl | listed | listed
          · exact known_of_mem (by simp [listed])
          · exact known_of_mem (by simp)
          · exact below' other listed
          · exact known_of_mem (by simp [listed])

/-- The uses of the statements are met, and so are those of each file that is entered. -/
theorem closed (tours : workspace.Tours resolver earlier program met entered) :
    program.uses ⊆ met ∧ ∀ used ∈ entered, ∃ module,
      workspace.Spells (workspace.modulePath used.path) module ∧ module.uses ⊆ met := by
  induction tours with
  | nil => exact ⟨fun _ present => present, by simp⟩
  | skipped notUse _ ih => rwa [Program.uses_cons notUse]
  | again _ _ ih =>
      refine ⟨List.cons_subset_cons _ ih.1, fun used present => ?_⟩
      obtain ⟨module, spells, met⟩ := ih.2 used present
      exact ⟨module, spells, List.subset_cons_of_subset _ met⟩
  | @first _ inner met _ _ head module _ _ spells _ _ inside rest =>
      have inner_met : inner ⊆ head :: (inner ++ met) := fun used present => by simp [present]
      have rest_met : met ⊆ head :: (inner ++ met) := fun used present => by simp [present]
      refine ⟨List.cons_subset_cons _ (List.subset_append_of_subset_right _ rest.1),
        fun used present => ?_⟩
      rcases List.mem_cons.mp present with rfl | present
      · exact ⟨module, spells, List.Subset.trans inside.1 inner_met⟩
      · rcases List.mem_append.mp present with present | present
        · obtain ⟨module, spells, met⟩ := inside.2 used present
          exact ⟨module, spells, List.Subset.trans met inner_met⟩
        · obtain ⟨module, spells, met⟩ := rest.2 used present
          exact ⟨module, spells, List.Subset.trans met rest_met⟩

/-- Only files that can be reached are entered. -/
theorem reachable (tours : workspace.Tours resolver earlier program met entered) {entry : Program}
    (given : ∀ used ∈ program.uses, workspace.Reachable resolver entry
      (workspace.modulePath used.path)) :
    ∀ used ∈ entered, workspace.Reachable resolver entry (workspace.modulePath used.path) := by
  induction tours with
  | nil => simp
  | skipped notUse _ ih =>
      rw [Program.uses_cons notUse] at given
      exact ih given
  | again _ _ ih => exact ih fun used present => given used (List.mem_cons_of_mem _ present)
  | @first _ _ _ _ _ head module _ new spells _ _ inside rest =>
      have here := given head List.mem_cons_self
      have open' : resolver.isResolved (workspace.modulePath head.path) = false :=
        Bool.eq_false_iff.mpr fun done => new (.inl done)
      intro used present
      rcases List.mem_cons.mp present with rfl | present
      · exact here
      · rcases List.mem_append.mp present with present | present
        · exact inside (fun _ inner => here.through open' spells inner (names_self _)) used present
        · exact rest (fun _ later => given _ (List.mem_cons_of_mem _ later)) used present

/-- A tour enters the files that can be reached, except for those that were resolved before. -/
theorem exists_entered_iff (tours : workspace.Tours resolver [] program met entered) (path : Path) :
    (∃ used ∈ entered, workspace.names path used = true) ↔
      workspace.Reachable resolver program path ∧ resolver.isResolved path = false := by
  constructor
  · rintro ⟨used, present, named⟩
    have same := names_iff.mp named
    have given : ∀ used ∈ program.uses, workspace.Reachable resolver program
        (workspace.modulePath used.path) := fun used present => .entry present (names_self used)
    refine ⟨(tours.reachable given used present).congr same, Bool.eq_false_iff.mpr fun done => ?_⟩
    exact tours.entered_new used present (.inl ((resolver.isResolved_congr same).trans done))
  · rintro ⟨reachable, new⟩
    -- every file that can be reached is named by a use that is met
    have known : workspace.Known resolver entered path := by
      obtain ⟨uses_met, closed⟩ := tours.closed
      clear new
      induction reachable with
      | entry present named =>
          exact (tours.covered _ (uses_met present)).congr (names_iff.mp named)
      | @through path path' module used _ new spells present named ih =>
          rcases ih with done | ⟨other, entered, named'⟩
          · rw [new] at done
            cases done
          · obtain ⟨module', spells', met⟩ := closed other entered
            obtain ⟨used', present', same⟩ :=
              spells.exists_use spells' (names_iff.mp named').symm present
            refine (tours.covered used' (met present')).congr ?_
            rw [same]
            exact names_iff.mp named
    exact known.resolve_left (by simp [new])

end Tours

end Workspace

end SmallLang
