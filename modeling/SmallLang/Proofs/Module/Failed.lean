import SmallLang.Proofs.Module.Replaces
import SmallLang.Tree.Equality

/-!
# Resolutions that fail

A file is noted as done before it is read. Where it is missing or spells no program, resolution ends
with the error of that file and leaves all its notes behind, the one of the file among them. So no
later resolution over the same files comes to that error again: it takes the file for one that was
merged, and drops its use.
-/

set_option autoImplicit false

namespace SmallLang

theorem Resolve.bind_eq_error_iff {α β : Type} {first : Resolve α} {second : α → Resolve β}
    {resolver resolver' : Resolver} {error : Error} :
    (first >>= second) resolver = .error error resolver' ↔
      first resolver = .error error resolver' ∨
        ∃ value between, first resolver = .ok value between ∧
          second value between = .error error resolver' := by
  change EStateM.bind first second resolver = _ ↔ _
  unfold EStateM.bind
  cases first resolver with
  | ok value between =>
      constructor
      · exact fun fails => .inr ⟨value, between, rfl, fails⟩
      · intro fails
        obtain ⟨_, _, same, fails⟩ := fails.resolve_left nofun
        cases same
        exact fails
  | error other between =>
      constructor
      · intro fails
        cases fails
        exact .inl rfl
      · intro fails
        cases fails with
        | inl same =>
            cases same
            rfl
        | inr later =>
            obtain ⟨_, _, same, _⟩ := later
            cases same

namespace Resolver

/-- A later resolver says the same of the files that were done. -/
def Keeps (resolver later : Resolver) : Prop :=
  ∀ path, resolver.isResolved path = true →
    later.isResolved path = true ∧ later.namespace? path = resolver.namespace? path

theorem Keeps.refl (resolver : Resolver) : resolver.Keeps resolver :=
  fun _ done => ⟨done, rfl⟩

theorem Keeps.trans {first second third : Resolver} (keeps : first.Keeps second)
    (keeps' : second.Keeps third) : first.Keeps third := by
  intro path done
  obtain ⟨done', same⟩ := keeps path done
  obtain ⟨done'', same'⟩ := keeps' path done'
  exact ⟨done'', same'.trans same⟩

variable {resolver : Resolver} {path : Path}

theorem isResolved_merge (resolver : Resolver) (path : Path) (space : String) :
    (resolver.merge path space).isResolved path = true := by
  rw [isResolved, merge, List.lookup_cons_self]
  rfl

theorem keeps_merge (new : resolver.isResolved path = false) (space : String) :
    resolver.Keeps (resolver.merge path space) := by
  intro other done
  have apart : (other.parts == path.parts) = false := by
    apply beq_false_of_ne
    intro same
    rw [isResolved, same, ← isResolved, new] at done
    cases done
  simp only [isResolved, namespace?, merge, List.lookup_cons, apart] at done ⊢
  exact ⟨done, trivial⟩

/-- What a later resolver calls open was open before. -/
theorem Keeps.open {later : Resolver} (keeps : resolver.Keeps later)
    (open' : later.isResolved path = false) : resolver.isResolved path = false := by
  cases done : resolver.isResolved path with
  | false => rfl
  | true =>
      rw [(keeps path done).1] at open'
      cases open'

end Resolver

namespace Workspace

variable {workspace : Workspace} {resolver resolver' later : Resolver} {error : Error}
  {program body : Program} {aliases : Aliases} {used blamed : Use}

theorem Replaces.keeps (replaces : workspace.Replaces resolver program body aliases resolver') :
    resolver.Keeps resolver' := by
  induction replaces with
  | nil => exact .refl _
  | dropped _ _ ih => exact ih
  | merged new _ _ _ _ inside rest => exact (Resolver.keeps_merge new _).trans (inside.trans rest)
  | kept _ _ ih => exact ih

variable (workspace)

/-- The file of a use has no module: it is missing, or cannot be read as a program. -/
def Breaks (used : Use) (error : Error) : Prop :=
  workspace.files.read? (workspace.modulePath used.path) = none ∧
      error = ⟨.moduleNotFound used.path, used.position⟩ ∨
    ∃ source, workspace.files.read? (workspace.modulePath used.path) = some source ∧
      Program.read source (workspace.modulePath used.path).text = .error error

/-- How the replacement of uses fails, for the use whose file has no module. The uses before it were
replaced, and so were those before each use around it. -/
inductive Fails : Resolver → List Stmt → Error → Use → Resolver → Prop where
  | broken {resolver : Resolver} {used : Use} {rest : List Stmt} {error : Error} :
      resolver.isResolved (workspace.modulePath used.path) = false → workspace.Breaks used error →
      Fails resolver (.use used :: rest) error used
        (resolver.merge (workspace.modulePath used.path) used.namespaceName)
  | inside {resolver resolver' : Resolver} {used blamed : Use} {rest : List Stmt} {error : Error}
      {source : String} {module : Program} :
      resolver.isResolved (workspace.modulePath used.path) = false →
      workspace.files.read? (workspace.modulePath used.path) = some source →
      Program.read source (workspace.modulePath used.path).text = .ok module →
      Fails (resolver.merge (workspace.modulePath used.path) used.namespaceName) module error blamed
        resolver' →
      Fails resolver (.use used :: rest) error blamed resolver'
  | dropped {resolver resolver' : Resolver} {used blamed : Use} {rest : List Stmt} {error : Error} :
      resolver.isResolved (workspace.modulePath used.path) = true →
      Fails resolver rest error blamed resolver' →
      Fails resolver (.use used :: rest) error blamed resolver'
  | merged {resolver between resolver' : Resolver} {used blamed : Use} {rest : List Stmt}
      {error : Error} {source : String} {module inner : Program} {names : Aliases} :
      resolver.isResolved (workspace.modulePath used.path) = false →
      workspace.files.read? (workspace.modulePath used.path) = some source →
      Program.read source (workspace.modulePath used.path).text = .ok module →
      workspace.Replaces (resolver.merge (workspace.modulePath used.path) used.namespaceName) module
        inner names between →
      Fails between rest error blamed resolver' →
      Fails resolver (.use used :: rest) error blamed resolver'
  | kept {resolver resolver' : Resolver} {blamed : Use} {stmt : Stmt} {rest : List Stmt}
      {error : Error} :
      (∀ used, stmt ≠ .use used) → Fails resolver rest error blamed resolver' →
      Fails resolver (stmt :: rest) error blamed resolver'

/-- What a failure leaves behind: what was done stays so, and the file that failed, which was not
done before, counts as merged. -/
structure Stains (resolver : Resolver) (error : Error) (blamed : Use) (resolver' : Resolver) :
    Prop where
  keeps : resolver.Keeps resolver'
  breaks : workspace.Breaks blamed error
  new : resolver.isResolved (workspace.modulePath blamed.path) = false
  noted : resolver'.namespace? (workspace.modulePath blamed.path) = some blamed.namespaceName

variable {workspace}

theorem Stains.isResolved (stains : workspace.Stains resolver error blamed resolver') :
    resolver'.isResolved (workspace.modulePath blamed.path) = true := by
  have noted := stains.noted
  rw [Resolver.isResolved]
  rw [Resolver.namespace?] at noted
  cases found : resolver'.done.lookup (workspace.modulePath blamed.path).parts with
  | none =>
      rw [found] at noted
      cases noted
  | some space => rfl

/-- What is done before a failure does not hide it: a file that was not done at last was not done at
first. -/
theorem Stains.of_earlier {first : Resolver}
    (stains : workspace.Stains resolver error blamed resolver') (keeps : first.Keeps resolver) :
    workspace.Stains first error blamed resolver' where
  keeps := keeps.trans stains.keeps
  breaks := stains.breaks
  new := keeps.open stains.new
  noted := stains.noted

theorem Fails.stains (fails : workspace.Fails resolver program error blamed resolver') :
    workspace.Stains resolver error blamed resolver' := by
  induction fails with
  | @broken resolver used rest error new breaks =>
      refine ⟨Resolver.keeps_merge new _, breaks, new, ?_⟩
      rw [Resolver.namespace?, Resolver.merge, List.lookup_cons_self]
      rfl
  | inside new _ _ _ ih => exact ih.of_earlier (Resolver.keeps_merge new _)
  | dropped _ _ ih => exact ih
  | merged new _ _ replaces _ ih =>
      exact ih.of_earlier ((Resolver.keeps_merge new _).trans replaces.keeps)
  | kept _ _ ih => exact ih

section Depth

/-- How many files are not done. -/
def unread (workspace : Workspace) (resolver : Resolver) : Nat :=
  (workspace.files.filter fun entry => !resolver.isResolved entry.1).length

theorem unread_le_length (resolver : Resolver) :
    workspace.unread resolver ≤ workspace.files.length :=
  List.length_filter_le ..

/-- The files a later resolver leaves unread are among those left unread before. -/
theorem unread_of_keeps (keeps : resolver.Keeps later) :
    workspace.unread later =
      ((workspace.files.filter fun entry => !resolver.isResolved entry.1).filter fun entry =>
        !later.isResolved entry.1).length := by
  rw [unread, List.filter_filter]
  congr 1
  apply List.filter_congr
  intro entry _
  cases open' : later.isResolved entry.1 with
  | true => rfl
  | false => rw [keeps.open open']; rfl

theorem unread_le_of_keeps (keeps : resolver.Keeps later) :
    workspace.unread later ≤ workspace.unread resolver := by
  rw [unread_of_keeps keeps]
  exact List.length_filter_le ..

/-- Reading a file leaves fewer to be read. -/
theorem unread_merge_lt {path : Path} {source : String} (new : resolver.isResolved path = false)
    (reads : workspace.files.read? path = some source) (space : String) :
    workspace.unread (resolver.merge path space) < workspace.unread resolver := by
  obtain ⟨entry, found, _⟩ := Option.map_eq_some_iff.mp reads
  have same : entry.1.parts = path.parts := by simpa [Path.same] using List.find?_some found
  have done : (resolver.merge path space).isResolved entry.1 = true := by
    have merged := resolver.isResolved_merge path space
    rwa [Resolver.isResolved, ← same, ← Resolver.isResolved] at merged
  have open' : resolver.isResolved entry.1 = false := by
    rwa [Resolver.isResolved, same, ← Resolver.isResolved]
  rw [unread_of_keeps (Resolver.keeps_merge new space), unread,
    List.length_filter_lt_length_iff_exists]
  exact ⟨entry, List.mem_filter.mpr ⟨List.mem_of_find?_eq_some found, by simp [open']⟩,
    by simp [done]⟩

end Depth

/-- A way to load modules fails only at a file without a module, as long as no more files are unread
than it may nest in one another. -/
def Blames (workspace : Workspace) (load : Use → Resolve (Option Program)) (depth : Nat) : Prop :=
  ∀ used resolver error resolver', workspace.unread resolver ≤ depth →
    load used resolver = .error error resolver' → ∀ rest : List Stmt,
      ∃ blamed, workspace.Fails resolver (.use used :: rest) error blamed resolver'

section Steps

variable {load : Use → Resolve (Option Program)} {depth : Nat}

theorem Blames.replaceUses (blames : workspace.Blames load depth) (loads : workspace.Loads load) :
    ∀ (program : List Stmt) {resolver resolver' : Resolver} {error : Error},
      workspace.unread resolver ≤ depth →
      workspace.replaceUses load program resolver = .error error resolver' →
        ∃ blamed, workspace.Fails resolver program error blamed resolver'
  | [], _, _, _, _, ends => by cases ends
  | stmt :: rest, resolver, resolver', error, few, ends => by
      cases stmt with
      | use used =>
          rw [Workspace.replaceUses] at ends
          obtain ⟨_, _, same, ends⟩ := (Resolve.bind_eq_error_iff.mp ends).resolve_left nofun
          cases same
          obtain fails | ⟨found, between, loaded, ends⟩ := Resolve.bind_eq_error_iff.mp ends
          · exact blames used resolver error resolver' few fails rest
          obtain fails | ⟨_, _, _, ends⟩ := Resolve.bind_eq_error_iff.mp ends
          · obtain ⟨done, _, rfl⟩ | ⟨new, source, module, inner, names, reads, parsed, inside, _⟩ :=
              loads used resolver found between loaded
            · obtain ⟨blamed, fails⟩ := Blames.replaceUses blames loads rest few fails
              exact ⟨blamed, .dropped done fails⟩
            · have keeps := (Resolver.keeps_merge new used.namespaceName).trans inside.keeps
              obtain ⟨blamed, fails⟩ :=
                Blames.replaceUses blames loads rest
                  (Nat.le_trans (unread_le_of_keeps keeps) few) fails
              exact ⟨blamed, .merged new reads parsed inside fails⟩
          · cases ends
      | _ =>
          unfold Workspace.replaceUses at ends
          obtain fails | ⟨_, _, _, ends⟩ := Resolve.bind_eq_error_iff.mp ends
          · obtain ⟨blamed, fails⟩ := Blames.replaceUses blames loads rest few fails
            exact ⟨blamed, .kept (fun _ same => Stmt.noConfusion same) fails⟩
          · cases ends

theorem Blames.resolveBy (blames : workspace.Blames load depth) (loads : workspace.Loads load)
    (few : workspace.unread resolver ≤ depth)
    (ends : workspace.resolveBy load program resolver = .error error resolver') :
    ∃ blamed, workspace.Fails resolver program error blamed resolver' := by
  obtain fails | ⟨_, _, _, ends⟩ := Resolve.bind_eq_error_iff.mp ends
  · exact blames.replaceUses loads program few fails
  · cases ends

/-- Loading fails where reading fails, with the file noted before. -/
theorem loadBy_eq_error {read : Path → Resolve Program}
    (ends : workspace.loadBy read used resolver = .error error resolver') :
    resolver.isResolved (workspace.modulePath used.path) = false ∧
      read (workspace.modulePath used.path)
        (resolver.merge (workspace.modulePath used.path) used.namespaceName) =
          .error error resolver' := by
  obtain ⟨_, _, same, ends⟩ := (Resolve.bind_eq_error_iff.mp ends).resolve_left nofun
  cases same
  split at ends
  · cases ends
  · next new =>
      obtain ⟨_, _, same, ends⟩ := (Resolve.bind_eq_error_iff.mp ends).resolve_left nofun
      cases same
      obtain fails | ⟨_, _, _, ends⟩ := Resolve.bind_eq_error_iff.mp ends
      · exact ⟨Bool.eq_false_iff.mpr new, fails⟩
      · cases ends

theorem blames_readWithin (depth : Nat) :
    workspace.Blames (fun used =>
      workspace.loadBy (workspace.readWithin depth used) used) depth := by
  induction depth with
  | zero =>
      intro used resolver error resolver' few ends rest
      obtain ⟨new, ends⟩ := loadBy_eq_error ends
      cases ends
      refine ⟨used, .broken new (.inl ⟨?_, rfl⟩)⟩
      -- No file is left unread, so that this one is missing.
      cases reads : workspace.files.read? (workspace.modulePath used.path) with
      | none => rfl
      | some source => exact absurd (unread_merge_lt new reads used.namespaceName) (by omega)
  | succ depth ih =>
      intro used resolver error resolver' few ends rest
      obtain ⟨new, ends⟩ := loadBy_eq_error ends
      rw [readWithin] at ends
      cases reads : workspace.files.read? (workspace.modulePath used.path) with
      | none =>
          rw [reads] at ends
          cases ends
          exact ⟨used, .broken new (.inl ⟨reads, rfl⟩)⟩
      | some source =>
          rw [reads] at ends
          cases parsed : Program.read source (workspace.modulePath used.path).text with
          | error other =>
              simp only [parsed] at ends
              cases ends
              exact ⟨used, .broken new (.inr ⟨source, reads, parsed⟩)⟩
          | ok module =>
              simp only [parsed] at ends
              have fewer := unread_merge_lt new reads used.namespaceName
              obtain ⟨blamed, fails⟩ := ih.resolveBy (loads_readWithin depth) (by omega) ends
              exact ⟨blamed, .inside new reads parsed fails⟩

end Steps

theorem fails_of_resolve (ends : workspace.resolve program resolver = .error error resolver') :
    ∃ blamed, workspace.Fails resolver program error blamed resolver' :=
  (blames_readWithin workspace.files.length).resolveBy (loads_readWithin workspace.files.length)
    (unread_le_length resolver) ends

theorem fails_of_load (ends : workspace.load used resolver = .error error resolver') :
    ∃ blamed, workspace.Fails resolver [.use used] error blamed resolver' :=
  blames_readWithin workspace.files.length used resolver error resolver' (unread_le_length resolver)
    ends []

/-- The file of a use that fails is done afterwards, also where another file is to blame. -/
theorem Fails.isResolved {rest : List Stmt}
    (fails : workspace.Fails resolver (.use used :: rest) error blamed resolver') :
    resolver'.isResolved (workspace.modulePath used.path) = true := by
  have merged := fun resolver : Resolver =>
    resolver.isResolved_merge (workspace.modulePath used.path) used.namespaceName
  cases fails with
  | broken => exact merged resolver
  | inside _ _ _ fails => exact (fails.stains.keeps _ (merged resolver)).1
  | dropped done fails => exact (fails.stains.keeps _ done).1
  | merged _ _ _ replaces fails =>
      exact (fails.stains.keeps _ (replaces.keeps _ (merged resolver)).1).1
  | kept notUse => exact absurd rfl (notUse used)

/-- From here on every use of a file is dropped, whatever else is resolved in between. -/
def Drops (workspace : Workspace) (resolver : Resolver) (path : Path) : Prop :=
  ∀ later, resolver.Keeps later → ∀ used : Use,
    (workspace.modulePath used.path).same path = true → workspace.load used later = .ok none later

theorem load_of_isResolved (done : resolver.isResolved (workspace.modulePath used.path) = true) :
    workspace.load used resolver = .ok none resolver := by
  change (if resolver.isResolved (workspace.modulePath used.path) then (pure none : Resolve _)
    else _) resolver = _
  rw [if_pos done]
  rfl

theorem drops_of_isResolved {path : Path} (done : resolver.isResolved path = true) :
    workspace.Drops resolver path := by
  intro later keeps used same
  have same : (workspace.modulePath used.path).parts = path.parts := eq_of_beq same
  apply load_of_isResolved
  rw [Resolver.isResolved, same]
  exact (keeps path done).1

theorem resolve_eq_error_of_run
    (same : (match workspace.resolve program resolver with
      | .ok _ _ => none
      | .error found last => some (found, last)) = some (error, later)) :
    workspace.resolve program resolver = .error error later := by
  split at same
  · cases same
  · next ends =>
      cases same
      exact ends

/-- A resolution that fails leaves the file at which it failed behind as merged, so that no later
use of that file fails: it is dropped. The same holds of the use that was to be loaded. -/
theorem failed_counts_as_merged (workspace : Workspace) (resolver : Resolver) :
    (∀ program error resolver', workspace.resolve program resolver = .error error resolver' →
      ∃ blamed, workspace.Stains resolver error blamed resolver' ∧
        workspace.Drops resolver' (workspace.modulePath blamed.path)) ∧
    (∀ used error resolver', workspace.load used resolver = .error error resolver' →
      (∃ blamed, workspace.Stains resolver error blamed resolver' ∧
        workspace.Drops resolver' (workspace.modulePath blamed.path)) ∧
      workspace.Drops resolver' (workspace.modulePath used.path)) := by
  constructor
  · intro program error resolver' ends
    obtain ⟨blamed, fails⟩ := fails_of_resolve ends
    exact ⟨blamed, fails.stains, drops_of_isResolved fails.stains.isResolved⟩
  · intro used error resolver' ends
    obtain ⟨blamed, fails⟩ := fails_of_load ends
    exact ⟨⟨blamed, fails.stains, drops_of_isResolved fails.stains.isResolved⟩,
      drops_of_isResolved fails.isResolved⟩

/-- Without any file, the first use of one fails and the same use is dropped the next time. -/
theorem failed_counts_as_merged_missing :
    let workspace : Workspace := ⟨[], ⟨"app"⟩, ⟨"std"⟩⟩
    let used : Use := ⟨"a", none, ⟨"main", 0⟩⟩
    let failed : Resolver := ⟨[(["app", "a.lang"], some "a")]⟩
    Program.read "use a" "main" = .ok [.use used] ∧
      workspace.resolve [.use used] .start =
        .error ⟨.moduleNotFound "a", ⟨"main", 0⟩⟩ failed ∧
      Resolver.start.isResolved ⟨"app/a.lang"⟩ = false ∧ failed.isResolved ⟨"app/a.lang"⟩ = true ∧
      failed.namespace? ⟨"app/a.lang"⟩ = some "a" ∧
      workspace.resolve [.use used] failed = .ok [] failed ∧
      ∃ blamed, workspace.Stains .start ⟨.moduleNotFound "a", ⟨"main", 0⟩⟩ blamed failed ∧
        workspace.Drops failed (workspace.modulePath blamed.path) := by
  intro workspace used failed
  have reads : Program.read "use a" "main" = .ok [.use used] :=
    Program.read_of_toOption (by decide +kernel)
  have fails : workspace.resolve [.use used] .start =
      .error ⟨.moduleNotFound "a", ⟨"main", 0⟩⟩ failed :=
        resolve_eq_error_of_run (by decide +kernel)
  have dropped : workspace.resolve [.use used] failed = .ok [] failed :=
    resolve_of_run (by decide +kernel)
  exact ⟨reads, fails, by decide +kernel, by decide +kernel, by decide +kernel, dropped,
    (failed_counts_as_merged workspace .start).1 [.use used] _ _ fails⟩

end Workspace

end SmallLang
