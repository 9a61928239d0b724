import SmallLang.Proofs.Module.Nested

/-!
# Accesses to merged files and to the entry

An access to a file that was merged becomes the name that a declaration in the file has now. The
entry is marked and not merged, and its declarations keep their names. An access to it is put under
the name that the module has for it all the same, and no declaration has such a name.
-/

set_option autoImplicit false

namespace SmallLang

/-- The use that gives a name to a module. The latest one counts. -/
def Program.use? (program : Program) (name : String) : Option Use :=
  program.uses.reverse.find? (·.namespaceName == name)

namespace Workspace

variable (workspace : Workspace)

/-- The names in a file that is merged under a namespace. -/
def namingOf (later : Resolver) (program : Program) (space : String) : Naming :=
  (Naming.ofAliases (workspace.aliases later program)).qualify (.ofModule space program)

/-- A module is that of a file: it states what the file states, with other names. -/
def Renames (later : Resolver) (space : String) (program module : Program) : Prop :=
  ∃ path, workspace.Spells path program ∧ later.namespace? path = some space ∧
    List.Forall₂ (Stmt.ReboundTop (workspace.namingOf later program space)) program.own module.own

/-- In the place of an access to a merged file stands a name under the namespace of the file, which
has all its declarations. Inference finds such a name, except in the value of that very variable. -/
def Refers (later : Resolver) (merged : Program) (used : Use) (access : Access) : Prop :=
  ∃ space, later.namespace? (workspace.modulePath used.path) = some space ∧
    (∃ occurrence ∈ merged.occurrences, occurrence.mention = access.under space) ∧
    ∀ program, workspace.Spells (workspace.modulePath used.path) program →
      (∃ module ∈ Stmt.allModules merged,
        module.declared = program.declared.map (Expr.qualifiedName space)) ∧
      ∀ name ∈ program.declared, ∀ order position,
        merged.infer order = .error ⟨.notDeclared (Expr.qualifiedName space name), position⟩ →
        ∃ occurrence ∈ merged.occurrences, occurrence.position = position ∧
          occurrence.site.declaring = some (Expr.qualifiedName space name)

/-- In the place of an access to the entry stands a name under the name that the access has for it,
while the entry declares its own names. Where no file was merged under that name, the access refers
to nothing, and inference fails. -/
def Misses (later : Resolver) (program merged : Program) (access : Access) : Prop :=
  merged.declared = program.declared ∧
    (∃ occurrence ∈ merged.occurrences, occurrence.mention = access.under access.space) ∧
    ((∀ path, later.namespace? path ≠ some access.space) →
      (∀ occurrence ∈ merged.occurrences, occurrence.mention = access.under access.space →
        ¬ occurrence.Bound merged) ∧
      ∀ order typed, merged.infer order ≠ .ok typed)

variable {workspace} {resolver later : Resolver} {program merged module : Program}
  {earlier met entered : List Use} {used : Use} {path : Path} {access : Access} {space : String}

theorem lookup_aliases (later : Resolver) (program : Program) (name : String) :
    (workspace.aliases later program).lookup name =
      (program.use? name).map (workspace.target later) := by
  rw [aliases, ← List.map_reverse, Program.use?]
  induction program.uses.reverse with
  | nil => rfl
  | cons first rest ih =>
      rw [List.map_cons, List.lookup_cons, List.find?_cons, ih]
      by_cases same : name = first.namespaceName
      · simp [same]
      · have other : (name == first.namespaceName) = false := beq_false_of_ne same
        have other' : (first.namespaceName == name) = false := beq_false_of_ne (Ne.symm same)
        simp [other, other']

theorem space?_namingOf (later : Resolver) (program : Program) (space name : String) :
    (workspace.namingOf later program space).space? name =
      (program.use? name).map (workspace.target later) :=
  lookup_aliases later program name

/-- What a tour meets is named by words. -/
theorem Tours.undotted (tours : workspace.Tours resolver earlier program met entered)
    (undotted : ∀ s ∈ program, s.Undotted) : ∀ used ∈ met, Undotted used.namespaceName := by
  induction tours with
  | nil => simp
  | skipped _ _ ih => exact ih fun s later => undotted s (List.mem_cons_of_mem _ later)
  | again _ _ ih =>
      have head := (undotted _ List.mem_cons_self).used _ rfl
      exact List.forall_mem_cons.mpr
        ⟨head, ih fun s later => undotted s (List.mem_cons_of_mem _ later)⟩
  | first _ spells _ _ inside rest =>
      obtain ⟨_, _, reads⟩ := spells
      have head := (undotted _ List.mem_cons_self).used _ rfl
      have tail := rest fun s later => undotted s (List.mem_cons_of_mem _ later)
      exact List.forall_mem_cons.mpr ⟨head, List.forall_mem_append.mpr
        ⟨inside (Program.undotted_of_read reads), tail⟩⟩

theorem Places.declared_eq (places : workspace.Places later used module)
    (spells : workspace.Spells path program)
    (same : (workspace.modulePath used.path).parts = path.parts) :
    module.declared = program.declared.map (Expr.qualifiedName used.namespaceName) := by
  obtain ⟨file, spells', own⟩ := places
  have declared : Stmt.declared? ∘ (fun s : Stmt =>
      (s.access (workspace.aliases later file)).qualifyTop (.ofModule used.namespaceName file)) =
      fun s => s.declared?.map (Expr.qualifiedName used.namespaceName) := by
    funext s
    rw [Function.comp_apply, Stmt.declared?_qualifyTop, Stmt.declared?_access]
    rfl
  rw [spells'.declared_eq spells same, ← Program.declared_own module, own, List.filterMap_map,
    declared, ← Program.declared_own file, List.map_filterMap]

theorem Places.renames (places : workspace.Places later used module)
    (named : later.namespace? (workspace.modulePath used.path) = some used.namespaceName) :
    ∃ program, workspace.Spells (workspace.modulePath used.path) program ∧
      workspace.Renames later used.namespaceName program module := by
  obtain ⟨program, spells, own⟩ := places
  refine ⟨program, spells, _, spells, named, ?_⟩
  obtain ⟨_, _, reads⟩ := spells
  rw [own, List.forall₂_map_right_iff, List.forall₂_same]
  intro s present
  have exported : (Qualifier.ofModule used.namespaceName program).exported = program.declared := rfl
  exact reboundTop_qualified reads _ exported (List.mem_of_mem_filter present)

theorem Spells.unique {program' : Program} (spells : workspace.Spells path program)
    (spells' : workspace.Spells path program') : program = program' := by
  obtain ⟨source, found, reads⟩ := spells
  obtain ⟨source', found', reads'⟩ := spells'
  rw [found] at found'
  cases found'
  exact Except.ok.inj (reads.symm.trans reads')

theorem target_eq (found : later.namespace? (workspace.modulePath used.path) = some space) :
    workspace.target later used = space := by
  rw [target, found]
  rfl

/-- What a program states itself has other names once it is resolved, but at its top. -/
theorem own_of_resolve (resolves : workspace.resolve program resolver = .ok merged later) :
    ∃ aliases, merged.own = program.own.map (Stmt.access aliases) := by
  obtain ⟨body, aliases, replaces, rfl⟩ := replaces_of_resolve resolves
  have isOwn : Stmt.isOwn ∘ Stmt.access aliases = Stmt.isOwn := by
    funext s
    exact s.isOwn_access aliases
  refine ⟨aliases, ?_⟩
  rw [← replaces.own_eq, Stmt.accessAll_eq_map, Program.own, List.filter_map, isOwn, Program.own]

theorem declared_of_resolve (resolves : workspace.resolve program resolver = .ok merged later) :
    merged.declared = program.declared := by
  obtain ⟨aliases, own⟩ := own_of_resolve resolves
  rw [← Program.declared_own merged, own, List.filterMap_map, ← Program.declared_own program]
  exact congrArg (List.filterMap · program.own) (funext (Stmt.declared?_access aliases))

/-- In the place of an access stands a name, wherever the file is merged. -/
theorem Renames.exists_occurrence (renames : workspace.Renames later space program module)
    (nested : module ∈ Stmt.allModules merged) (present : access ∈ Stmt.allAccesses program)
    (gives : program.use? access.space = some used) :
    ∃ occurrence ∈ merged.occurrences,
      occurrence.mention = access.under (workspace.target later used) := by
  obtain ⟨_, _, _, rebinds⟩ := renames
  obtain ⟨s, stated, inside⟩ := Stmt.mem_allAccesses.mp present
  have own : s ∈ program.own := by
    refine List.mem_filter.mpr ⟨stated, ?_⟩
    cases s with
    | use | merged => simp [Stmt.accesses] at inside
    | _ => rfl
  obtain ⟨s', stated', rebound⟩ := exists_of_mem_left rebinds s own
  have named : (workspace.namingOf later program space).space? access.space =
      some (workspace.target later used) := by
    rw [space?_namingOf, gives]
    rfl
  have mentions := Stmt.mem_mentions_of_mem (List.mem_of_mem_filter stated')
    (rebound.mem_mentions named inside)
  exact List.mem_map.mp (Program.mem_mentions_of_mem_allModules nested mentions .start)

section Resolved

variable {modules : List Program} {source file : String}

theorem MergesOnce.mem_allModules
    (once : workspace.MergesOnce resolver later program merged met entered modules)
    (parsed : Stmt.AllParsed program) :
    module ∈ Stmt.allModules merged ↔ module ∈ modules := by
  rw [once.nested.mem_iff, allModules_of_allParsed parsed, List.append_nil]

/-- Only names at the top of a file have a dot in a program that was resolved. -/
theorem MergesOnce.closed
    (once : workspace.MergesOnce resolver later program merged met entered modules)
    (resolves : workspace.resolve program resolver = .ok merged later)
    (reads : Program.read source file = .ok program) : ∀ s ∈ merged, s.Closed := by
  have parsed := allParsed_of_read reads
  refine Program.closed_of_own ?_ fun module nested => ?_
  · obtain ⟨aliases, own⟩ := own_of_resolve resolves
    rw [own, List.forall_mem_map]
    intro s stated site
    have present := List.mem_of_mem_filter stated
    have worded := Stmt.allWorded_iff.mp (Program.allWorded_of_read reads) s present
    exact (Stmt.reboundTop_access aliases (Stmt.allParsed_iff.mp parsed s present).bare).reaches
      worded
  · obtain ⟨used, present, places⟩ :=
      exists_of_mem_right once.places module ((once.mem_allModules parsed).mp nested)
    obtain ⟨inner, spells, _, _, _, rebinds⟩ := places.renames (once.first used present).2
    obtain ⟨_, _, reads⟩ := spells
    intro s' stated' site
    obtain ⟨s, stated, rebound⟩ := exists_of_mem_right rebinds s' stated'
    exact rebound.reaches (Stmt.allWorded_iff.mp (Program.allWorded_of_read reads) s
      (List.mem_of_mem_filter stated))

/-- A name with a dot is bound by a declaration at the top of a file, if at all. -/
theorem MergesOnce.mem_allDeclares_of_bound
    (once : workspace.MergesOnce resolver later program merged met entered modules)
    (resolves : workspace.resolve program resolver = .ok merged later)
    (reads : Program.read source file = .ok program) {occurrence : Occurrence}
    (used : occurrence ∈ merged.occurrences) (bound : occurrence.Bound merged)
    (dotted : ¬ Undotted occurrence.name) : occurrence.name ∈ Stmt.allDeclares merged := by
  have reaches : (Site.start.declare (Stmt.allDeclares merged)).Reaches occurrence.site :=
    Stmt.closed_merged (once.closed resolves reads) .start occurrence used
  rcases bound with visible | ⟨declared, _⟩
  · exact (reaches _ visible).resolve_right dotted
  · exact declared

/-- A use that a merged file has is met, and gives a name without a dot. -/
theorem MergesOnce.met_of_use?
    (once : workspace.MergesOnce resolver later program merged met entered modules)
    {other : Use} (present : other ∈ entered) {inner : Program}
    (spells : workspace.Spells (workspace.modulePath other.path) inner) {name : String}
    (gives : inner.use? name = some used) : used ∈ met ∧ used.namespaceName = name := by
  obtain ⟨inner', spells', subset⟩ := once.tours.closed.2 other present
  rw [← spells.unique spells'] at subset
  refine ⟨subset ?_, by simpa using List.find?_some gives⟩
  simpa using List.mem_of_find?_eq_some gives

theorem allLoaded_of_resolve (resolves : workspace.resolve program resolver = .ok merged later)
    (reads : Program.read source file = .ok program) : Stmt.AllLoaded merged := by
  obtain ⟨_, _, parsed⟩ := Program.exists_tokens_of_read reads
  exact (Program.Loaded.resolved (.parsed parsed) resolves).allLoaded

theorem MergesOnce.refers
    (once : workspace.MergesOnce resolver later program merged met entered modules)
    (resolves : workspace.resolve program resolver = .ok merged later)
    (reads : Program.read source file = .ok program) (met_used : used ∈ met)
    (new : resolver.isResolved (workspace.modulePath used.path) = false)
    (found : ∃ occurrence ∈ merged.occurrences,
      occurrence.mention = access.under (workspace.target later used)) :
    workspace.Refers later merged used access := by
  have loaded := allLoaded_of_resolve resolves reads
  obtain ⟨other, present, named⟩ :=
    (once.tours.covered used met_used).resolve_left (by simp [new])
  have same := names_iff.mp named
  have space : later.namespace? (workspace.modulePath used.path) = some other.namespaceName := by
    rw [Resolver.namespace?, ← same]
    exact (once.first other present).2
  obtain ⟨module, listed, places⟩ := exists_of_mem_left once.places other present
  have nested := (once.mem_allModules (allParsed_of_read reads)).mpr listed
  rw [target_eq space] at found
  refine ⟨other.namespaceName, space, found, fun program' spells => ?_⟩
  have declared := places.declared_eq spells same
  refine ⟨⟨module, nested, declared⟩, fun name stated order position fails => ?_⟩
  obtain ⟨occurrence, used, about, stands, unbound⟩ := Program.exists_unbound_of_infer loaded fails
  have declares : occurrence.name ∈ Stmt.allDeclares merged := by
    rw [Program.mem_allDeclares loaded, about]
    exact .inr ⟨module, nested, declared ▸ List.mem_map_of_mem stated⟩
  refine ⟨occurrence, used, stands, ?_⟩
  rw [← about]
  by_contra elsewhere
  exact unbound (.inr ⟨declares, elsewhere⟩)

theorem MergesOnce.misses
    (once : workspace.MergesOnce resolver later program merged met entered modules)
    (resolves : workspace.resolve program resolver = .ok merged later)
    (reads : Program.read source file = .ok program) (met_used : used ∈ met)
    (named : used.namespaceName = access.space)
    (marked : later.namespace? (workspace.modulePath used.path) = none)
    (found : ∃ occurrence ∈ merged.occurrences,
      occurrence.mention = access.under (workspace.target later used)) :
    Misses later program merged access := by
  have loaded := allLoaded_of_resolve resolves reads
  have undotted := Program.undotted_of_read reads
  have words := once.tours.undotted undotted
  have target : workspace.target later used = access.space := by
    rw [Workspace.target, marked, ← named]
    rfl
  rw [target] at found
  refine ⟨declared_of_resolve resolves, found, fun unspaced => ?_⟩
  have unbound : ∀ occurrence ∈ merged.occurrences, occurrence.mention = access.under access.space →
      ¬ occurrence.Bound merged := by
    intro occurrence present about bound
    have name : occurrence.name = Expr.qualifiedName access.space access.name :=
      congrArg Prod.fst about
    have declares := once.mem_allDeclares_of_bound resolves reads present bound
      fun undotted => undotted.ne_qualifiedName name
    rw [Program.mem_allDeclares loaded, declared_of_resolve resolves] at declares
    rcases declares with itself | ⟨module, nested, inside⟩
    · obtain ⟨s, stated, declares⟩ := List.mem_filterMap.mp itself
      exact ((undotted s stated).declared _ declares).ne_qualifiedName name
    · obtain ⟨other, entered, places⟩ := exists_of_mem_right once.places module
        ((once.mem_allModules (allParsed_of_read reads)).mp nested)
      obtain ⟨inner, spells, _⟩ := places.renames (once.first other entered).2
      rw [places.declared_eq spells rfl, name] at inside
      obtain ⟨own, _, same⟩ := List.mem_map.mp inside
      have equal := Expr.qualifiedName_inj (words other (once.tours.entered_subset entered))
        (named ▸ words used met_used) same
      exact unspaced _ (equal.1 ▸ (once.first other entered).2)
  refine ⟨unbound, fun order typed inferred => ?_⟩
  obtain ⟨occurrence, present, about⟩ := found
  exact unbound occurrence present about (Program.bound_of_infer loaded inferred occurrence present)

theorem names_iff_isResolved_mark : workspace.names path used = true ↔
    (Resolver.start.mark path).isResolved (workspace.modulePath used.path) = true := by
  have apart : Resolver.start.isResolved path = false := rfl
  rw [names_iff, Resolver.mark, if_neg (by simp [apart]), Resolver.isResolved, List.lookup_cons]
  cases same : (workspace.modulePath used.path).parts == path.parts with
  | true => simpa using same
  | false => simpa [Resolver.start] using same

theorem namespace?_mark (path path' : Path) :
    (Resolver.start.mark path).namespace? path' = none := by
  have apart : Resolver.start.isResolved path = false := rfl
  rw [Resolver.mark, if_neg (by simp [apart]), Resolver.namespace?, List.lookup_cons]
  cases path'.parts == path.parts <;> rfl

/-- In a file that is merged, an access to another merged file becomes the name under which that
file has its declarations. An access to the entry becomes a name that nothing has, and inference
fails, whatever the entry declares. -/
theorem resolve_replaces_accesses (reads : Program.read source file = .ok program)
    (resolves : workspace.resolve program (Resolver.start.mark path) = .ok merged later) :
    ∀ module ∈ Stmt.allModules merged, ∃ space inner, workspace.Renames later space inner module ∧
      ∀ access ∈ Stmt.allAccesses inner, ∀ used, inner.use? access.space = some used →
        (workspace.names path used = false → workspace.Refers later merged used access) ∧
        (workspace.names path used = true → Misses later program merged access) := by
  obtain ⟨met, entered, modules, once⟩ := mergesOnce_of_resolve resolves
  intro module nested
  have listed := (once.mem_allModules (allParsed_of_read reads)).mp nested
  obtain ⟨other, present, places⟩ := exists_of_mem_right once.places module listed
  obtain ⟨inner, spells, renames⟩ := places.renames (once.first other present).2
  refine ⟨other.namespaceName, inner, renames, fun access inside used gives => ?_⟩
  obtain ⟨met_used, named⟩ := once.met_of_use? present spells gives
  have found := renames.exists_occurrence nested inside gives
  refine ⟨fun elsewhere => ?_, fun entry => ?_⟩
  · refine once.refers resolves reads met_used ?_ found
    rw [Bool.eq_false_iff, ne_eq, ← names_iff_isResolved_mark, elsewhere]
    exact Bool.false_ne_true
  · refine once.misses resolves reads met_used named ?_ found
    obtain ⟨_, _, replaces, _⟩ := replaces_of_resolve resolves
    rw [(replaces.keeps _ (names_iff_isResolved_mark.mp entry)).2, namespace?_mark]

end Resolved

end Workspace

namespace EntryUse

/-- A file that uses the entry and another file. -/
def workspace : Workspace :=
  ⟨[(⟨"app/a.lang"⟩, "use main\nuse b\nfn two() -> int \x7b\nreturn main.one() + b.n\n\x7d"),
    (⟨"app/b.lang"⟩, "let n := 1")], ⟨"app"⟩, ⟨"std"⟩⟩

def returning (name file : String) (place type : Nat) (value : Expr) : Stmt :=
  .function ⟨name, [], some ⟨"int", ⟨file, type⟩⟩, [], ⟨file, place⟩, none⟩
    (some [.returns (some value)])

/-- The entry, which declares the function that the other file calls. -/
def entry : Program :=
  [.use ⟨"a", none, ⟨"app/main.lang", 0⟩⟩,
   returning "one" "app/main.lang" 6 18 (.number "1")]

def merged : Program :=
  [.merged [.merged [.declare ⟨"b.n", true, none, some (.number "1"), ⟨"app/b.lang", 0⟩, none⟩],
    returning "a.two" "app/a.lang" 15 27
      (.binary .add (.call (.identifier "main.one" ⟨"app/a.lang", 40⟩) [])
        (.identifier "b.n" ⟨"app/a.lang", 53⟩))],
   returning "one" "app/main.lang" 6 18 (.number "1")]

def later : Resolver :=
  ⟨[(["app", "b.lang"], some "b"), (["app", "a.lang"], some "a"), (["app", "main.lang"], none)]⟩

end EntryUse

open EntryUse in
/-- A file that uses the entry calls a function of it under a name that nothing has. -/
theorem Workspace.resolve_replaces_accesses_entry :
    Program.read "use a\nfn one() -> int \x7b\nreturn 1\n\x7d" "app/main.lang" = .ok entry ∧
      workspace.resolve entry (Resolver.start.mark ⟨"app/main.lang"⟩) = .ok merged later ∧
      merged.infer .byUse = .error ⟨.notDeclared "main.one", ⟨"app/a.lang", 40⟩⟩ ∧
      ∀ module ∈ Stmt.allModules merged, ∃ space inner,
        workspace.Renames later space inner module ∧
        ∀ access ∈ Stmt.allAccesses inner, ∀ used, inner.use? access.space = some used →
          (workspace.names ⟨"app/main.lang"⟩ used = false →
            workspace.Refers later merged used access) ∧
          (workspace.names ⟨"app/main.lang"⟩ used = true → Misses later entry merged access) := by
  have reads : Program.read "use a\nfn one() -> int \x7b\nreturn 1\n\x7d" "app/main.lang" =
      .ok entry := Program.read_of_toOption (by decide +kernel)
  have resolves : workspace.resolve entry (Resolver.start.mark ⟨"app/main.lang"⟩) =
      .ok merged later := Workspace.resolve_of_run (by decide +kernel)
  have fails : merged.infer .byUse = .error ⟨.notDeclared "main.one", ⟨"app/a.lang", 40⟩⟩ := by rfl
  exact ⟨reads, resolves, fails, Workspace.resolve_replaces_accesses reads resolves⟩

end SmallLang
