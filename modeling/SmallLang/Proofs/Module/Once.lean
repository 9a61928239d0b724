import SmallLang.Proofs.Module.Failed
import SmallLang.Proofs.Module.Tour

/-!
# Each file is merged once

Resolution goes on a tour of the files. It ends, since no file is entered twice, and puts the module
of each file that it enters where it has entered the file. Under the namespace of a file stands the
name that the first use of it gives it.
-/

set_option autoImplicit false

namespace SmallLang

/-- Whether a statement belongs to a file itself, and not to another one that it uses. -/
def Stmt.isOwn : Stmt → Bool
  | .use _ | .merged _ => false
  | _ => true

/-- What a program states itself. -/
def Program.own (program : Program) : List Stmt := program.filter Stmt.isOwn

section Own

theorem Stmt.isOwn_access (aliases : Aliases) (s : Stmt) : (s.access aliases).isOwn = s.isOwn := by
  cases s with
  | function header body => cases body <;> rfl
  | _ => rfl

theorem Stmt.isOwn_qualifyTop (qualifier : Qualifier) (s : Stmt) :
    (s.qualifyTop qualifier).isOwn = s.isOwn := by
  cases s with
  | function header body => cases body <;> rfl
  | _ => rfl

theorem Program.declared_own (program : Program) :
    program.own.filterMap Stmt.declared? = program.declared := by
  rw [own, declared, List.filterMap_filter]
  congr 1
  funext s
  cases s <;> rfl

/-- What a merged module states itself is what its file states. -/
theorem Program.own_qualified {inner program : Program} (same : inner.own = program.own)
    (aliases : Aliases) (space : String) :
    (Program.qualified (Stmt.accessAll aliases inner) space).own =
      program.own.map fun s => (s.access aliases).qualifyTop (.ofModule space program) := by
  have exported : Qualifier.ofModule space (Stmt.accessAll aliases inner) =
      .ofModule space program := by
    change Qualifier.mk space (Program.declared _) = ⟨space, Program.declared program⟩
    rw [declared_access, ← declared_own inner, same, declared_own]
  have isOwn : Stmt.isOwn ∘ (Stmt.qualifyTop (.ofModule space program) ∘ Stmt.access aliases) =
      Stmt.isOwn := by
    funext s
    simp only [Function.comp_apply, Stmt.isOwn_qualifyTop, Stmt.isOwn_access]
  rw [Program.qualified, exported, Stmt.accessAll_eq_map, List.map_map, ← same, Program.own,
    Program.own, List.filter_map, isOwn]
  rfl

end Own

namespace Workspace

variable (workspace : Workspace)

/-- The names that a program gives to modules, the latest first, with the namespaces of their files.
-/
def aliases (later : Resolver) (program : Program) : Aliases :=
  (program.uses.map fun used => (used.namespaceName, workspace.target later used)).reverse

/-- A module is that of the file that a use names: it states what the file states, with each access
replaced and the names at the top under the namespace that the use gives them. -/
def Places (later : Resolver) (used : Use) (module : Program) : Prop :=
  ∃ program, workspace.Spells (workspace.modulePath used.path) program ∧
    module.own = program.own.map fun s =>
      (s.access (workspace.aliases later program)).qualifyTop
        (.ofModule used.namespaceName program)

/-- After some uses a resolver knows what it knew at first, and for each file that it did not know
the name from the first use of it. -/
def Follows (first : Resolver) (earlier : List Use) (resolver : Resolver) : Prop :=
  ∀ path : Path, resolver.done.lookup path.parts = (first.done.lookup path.parts).or
    ((earlier.find? (workspace.names path)).map fun used => some used.namespaceName)

variable {workspace} {first resolver resolver' later : Resolver} {earlier : List Use}
  {program body : Program} {aliases : Aliases}

section Follows

theorem Follows.isResolved_iff (follows : workspace.Follows first earlier resolver) (path : Path) :
    resolver.isResolved path = true ↔ workspace.Known first earlier path := by
  rw [Resolver.isResolved, follows path, Known, Resolver.isResolved]
  simp

theorem Follows.again (follows : workspace.Follows first earlier resolver) {used : Use}
    (known : workspace.Known first earlier (workspace.modulePath used.path)) :
    workspace.Follows first (earlier ++ [used]) resolver := by
  intro path
  rw [follows path, List.find?_append]
  cases named : workspace.names path used with
  | false => simp [named]
  | true =>
      rcases known.congr (names_iff.mp named) with done | ⟨other, before, named'⟩
      · obtain ⟨space, found⟩ := Option.isSome_iff_exists.mp done
        simp [found]
      · cases found : earlier.find? (workspace.names path) with
        | some other => simp
        | none => exact absurd named' (List.find?_eq_none.mp found other before)

theorem Follows.merge (follows : workspace.Follows first earlier resolver) {used : Use}
    (new : ¬ workspace.Known first earlier (workspace.modulePath used.path)) :
    workspace.Follows first (earlier ++ [used])
      (resolver.merge (workspace.modulePath used.path) used.namespaceName) := by
  intro path
  rw [List.find?_append]
  cases named : workspace.names path used with
  | false =>
      have apart : path.parts ≠ (workspace.modulePath used.path).parts := by
        intro same
        rw [names_iff.mpr same.symm] at named
        cases named
      simp [Resolver.lookup_merge_of_ne resolver _ apart, follows path, named]
  | true =>
      have same := names_iff.mp named
      have unknown : ¬ workspace.Known first earlier path :=
        fun known => new (known.congr same.symm)
      have unnamed : earlier.find? (workspace.names path) = none :=
        List.find?_eq_none.mpr fun other before named => unknown (.inr ⟨other, before, named⟩)
      have open' : first.done.lookup path.parts = none := by
        rw [← Option.not_isSome_iff_eq_none]
        exact fun done => unknown (.inl done)
      rw [Resolver.merge, ← same, List.lookup_cons_self, same, open', unnamed]
      simp [named]

end Follows

/-- Resolution changes nothing in what a program states itself, before it replaces accesses. -/
theorem Replaces.own_eq (replaces : workspace.Replaces resolver program body aliases resolver') :
    body.own = program.own := by
  induction replaces with
  | nil => rfl
  | dropped _ _ ih => exact ih
  | merged _ _ _ _ _ _ ih => exact ih
  | kept _ _ ih =>
      simp only [Program.own, List.filter_cons] at ih ⊢
      rw [ih]

/-- Accesses are replaced by the namespaces that the files have at last. -/
theorem Replaces.aliases_eq
    (replaces : workspace.Replaces resolver program body aliases resolver')
    (keeps : resolver'.Keeps later) : aliases = workspace.aliases later program := by
  induction replaces with
  | nil => rfl
  | @dropped resolver _ used rest _ names done replaces ih =>
      have target : workspace.target later used = workspace.target resolver used := by
        rw [Workspace.target, Workspace.target, ((replaces.keeps.trans keeps) _ done).2]
      rw [ih keeps, Workspace.aliases, Workspace.aliases]
      simp [Program.uses, target]
  | @merged resolver between _ used rest _ module inner _ _ names new _ _ inside replaces _ ih =>
      have target : workspace.target later used = used.namespaceName := by
        have done := Resolver.isResolved_merge resolver (workspace.modulePath used.path)
          used.namespaceName
        rw [Workspace.target, ((inside.keeps.trans (replaces.keeps.trans keeps)) _ done).2,
          Resolver.namespace?_merge]
        rfl
      rw [ih keeps, Workspace.aliases, Workspace.aliases]
      simp [Program.uses, target]
  | kept notUse _ ih =>
      rw [ih keeps, Workspace.aliases, Workspace.aliases, Program.uses_cons notUse]

/-- Nothing is merged into a program that was parsed. -/
theorem allModules_of_allParsed (parsed : Stmt.AllParsed program) :
    Stmt.allModules program = [] := by
  induction program with
  | nil => rfl
  | cons first rest ih =>
      rw [Stmt.allModules, ih parsed.2, List.append_nil]
      cases first with
      | merged body => exact parsed.1.elim
      | _ => rfl

/-- Resolution goes on a tour, and puts the module of a file where the tour enters the file. -/
theorem Replaces.toured
    (replaces : workspace.Replaces resolver program body aliases resolver')
    (follows : workspace.Follows first earlier resolver) (keeps : resolver'.Keeps later) :
    ∃ met entered modules, workspace.Tours first earlier program met entered ∧
      workspace.Follows first (earlier ++ met) resolver' ∧
      (Stmt.allModules body).Perm (modules ++ Stmt.allModules program) ∧
      List.Forall₂ (workspace.Places later) entered modules := by
  induction replaces generalizing earlier with
  | nil => exact ⟨[], [], [], .nil, by simpa using follows, .refl _, .nil⟩
  | @dropped resolver _ used rest body _ done _ ih =>
      have known := (follows.isResolved_iff _).mp done
      obtain ⟨met, entered, modules, tours, follows', nested, places⟩ :=
        ih (follows.again known) keeps
      exact ⟨used :: met, entered, modules, .again known tours, by simpa using follows', nested,
        places⟩
  | @merged resolver between _ used rest source module inner body names _ new found reads inside
      replaces ih ih' =>
      have unknown : ¬ workspace.Known first earlier (workspace.modulePath used.path) := by
        rw [← follows.isResolved_iff, new]
        exact Bool.false_ne_true
      have spells : workspace.Spells (workspace.modulePath used.path) module :=
        ⟨source, found, reads⟩
      obtain ⟨met, entered, modules, tours, follows', nested, places⟩ :=
        ih (follows.merge unknown) (replaces.keeps.trans keeps)
      obtain ⟨met', entered', modules', tours', follows'', nested', places'⟩ :=
        ih' follows' keeps
      have parts : earlier ++ used :: (met ++ met') = earlier ++ [used] ++ met ++ met' := by simp
      have place : workspace.Places later used
          (Program.qualified (Stmt.accessAll names inner) used.namespaceName) := by
        refine ⟨module, spells, ?_⟩
        rw [Program.own_qualified inside.own_eq,
          ← inside.aliases_eq (replaces.keeps.trans keeps)]
      refine ⟨used :: (met ++ met'), used :: (entered ++ entered'), _ :: (modules ++ modules'),
        .first unknown spells tours ?_, ?_, ?_, .cons place (List.rel_append places places')⟩
      · simpa using tours'
      · rwa [parts]
      · rw [allModules_of_allParsed (allParsed_of_read reads), List.append_nil] at nested
        rw [Stmt.allModules, Stmt.modules, Program.modules_qualified, Stmt.allModules_access]
        refine List.Perm.cons _ ?_
        simpa [Stmt.allModules, Stmt.modules] using nested.append nested'
  | @kept _ _ s rest body _ notUse _ ih =>
      obtain ⟨met, entered, modules, tours, follows', nested, places⟩ := ih follows keeps
      refine ⟨met, entered, modules, .skipped notUse tours, follows', ?_, places⟩
      exact (nested.append_left s.modules).trans (List.perm_append_comm_assoc ..)

theorem Follows.start (resolver : Resolver) : workspace.Follows resolver [] resolver :=
  fun _ => (Option.or_none ..).symm

variable (workspace) in
/-- How the files that a program uses are merged, when the uses are met in some order and files are
entered at some of them: each file that can be reached is merged once, no other is, and its
namespace is the name that the first use of it gives it. -/
structure MergesOnce (resolver later : Resolver) (program merged : Program)
    (met entered : List Use) (modules : List Program) : Prop where
  tours : workspace.Tours resolver [] program met entered
  once : (entered.map fun used => (workspace.modulePath used.path).parts).Nodup
  reachable : ∀ path, (∃ used ∈ entered, workspace.names path used = true) ↔
    workspace.Reachable resolver program path ∧ resolver.isResolved path = false
  resolved : ∀ path, later.isResolved path = true ↔
    resolver.isResolved path = true ∨ ∃ used ∈ entered, workspace.names path used = true
  first : ∀ used ∈ entered,
    met.find? (workspace.names (workspace.modulePath used.path)) = some used ∧
      later.namespace? (workspace.modulePath used.path) = some used.namespaceName
  nested : (Stmt.allModules merged).Perm (modules ++ Stmt.allModules program)
  places : List.Forall₂ (workspace.Places later) entered modules

theorem mergesOnce_of_resolve {merged : Program}
    (ends : workspace.resolve program resolver = .ok merged later) :
    ∃ met entered modules,
      workspace.MergesOnce resolver later program merged met entered modules := by
  obtain ⟨body, aliases, replaces, rfl⟩ := replaces_of_resolve ends
  obtain ⟨met, entered, modules, tours, follows, nested, places⟩ :=
    replaces.toured (Follows.start resolver) (.refl later)
  rw [List.nil_append] at follows
  refine ⟨met, entered, modules, tours, tours.once, tours.exists_entered_iff, fun path => ?_,
    fun used present => ⟨tours.find?_entered used present, ?_⟩,
    by rwa [Stmt.allModules_access], places⟩
  · rw [follows.isResolved_iff]
    exact ⟨fun known => known.of_all tours.covered,
      fun known => Known.mono known tours.entered_subset⟩
  · have open' : resolver.done.lookup (workspace.modulePath used.path).parts = none := by
      rw [← Option.not_isSome_iff_eq_none]
      exact fun done => tours.entered_new used present (.inl done)
    have found := tours.find?_entered used present
    rw [List.nil_append] at found
    rw [Resolver.namespace?, follows, open', found]
    rfl

/-- Resolution ends, with a program or at a file without a module. With a program, each file that
can be reached was merged once. -/
theorem resolve_merges_once (workspace : Workspace) (resolver : Resolver) (program : Program) :
    ((∃ merged later body aliases, workspace.resolve program resolver = .ok merged later ∧
        workspace.Replaces resolver program body aliases later) ∨
      ∃ error later blamed, workspace.resolve program resolver = .error error later ∧
        workspace.Fails resolver program error blamed later) ∧
    ∀ merged later, workspace.resolve program resolver = .ok merged later →
      ∃ met entered modules,
        workspace.MergesOnce resolver later program merged met entered modules := by
  refine ⟨?_, fun merged later ends => mergesOnce_of_resolve ends⟩
  cases ends : workspace.resolve program resolver with
  | ok merged later =>
      obtain ⟨body, aliases, replaces, _⟩ := replaces_of_resolve ends
      exact .inl ⟨merged, later, body, aliases, rfl, replaces⟩
  | error error later =>
      obtain ⟨blamed, fails⟩ := fails_of_resolve ends
      exact .inr ⟨error, later, blamed, rfl, fails⟩

end Workspace

namespace ThreeFiles

/-- Three files that use each other, themselves and the entry, under changing names. -/
def workspace : Workspace :=
  ⟨[(⟨"app/a.lang"⟩, "use b as x\nuse a\nlet p := 1"),
    (⟨"app/b.lang"⟩, "use a\nuse c\nlet q := c.r"),
    (⟨"app/c.lang"⟩, "use b as y\nuse main\nlet r := 2")], ⟨"app"⟩, ⟨"std"⟩⟩

def constant (name file : String) (offset : Nat) (value : Expr) : Stmt :=
  .declare ⟨name, true, none, some value, ⟨file, offset⟩, none⟩

/-- A program that uses all of them, the first twice. -/
def entry : Program :=
  [.use ⟨"a", none, ⟨"app/main.lang", 0⟩⟩, .use ⟨"b", none, ⟨"app/main.lang", 6⟩⟩,
   .use ⟨"c", some "z", ⟨"app/main.lang", 12⟩⟩, .use ⟨"a", some "w", ⟨"app/main.lang", 23⟩⟩,
   constant "s" "app/main.lang" 34 (.member (.identifier "z" ⟨"app/main.lang", 43⟩) "r")]

def merged : Program :=
  [.merged [.merged [.merged [constant "c.r" "app/c.lang" 20 (.number "2")],
      constant "x.q" "app/b.lang" 12 (.identifier "c.r" ⟨"app/b.lang", 21⟩)],
    constant "a.p" "app/a.lang" 17 (.number "1")],
   constant "s" "app/main.lang" 34 (.identifier "c.r" ⟨"app/main.lang", 43⟩)]

def later : Resolver :=
  ⟨[(["app", "c.lang"], some "c"), (["app", "b.lang"], some "x"), (["app", "a.lang"], some "a"),
    (["app", "main.lang"], none)]⟩

end ThreeFiles

open ThreeFiles in
/-- Each of three files in cycles is merged once, under the name of the first use of it. -/
theorem Workspace.resolve_merges_once_cycle :
    Program.read "use a\nuse b\nuse c as z\nuse a as w\nlet s := z.r" "app/main.lang" = .ok entry ∧
      workspace.resolve entry (Resolver.start.mark ⟨"app/main.lang"⟩) = .ok merged later ∧
      ∃ met entered modules,
        workspace.MergesOnce (Resolver.start.mark ⟨"app/main.lang"⟩) later entry merged met entered
          modules := by
  have resolves : workspace.resolve entry (Resolver.start.mark ⟨"app/main.lang"⟩) =
      .ok merged later := Workspace.resolve_of_run (by decide +kernel)
  exact ⟨Program.read_of_toOption (by decide +kernel), resolves,
    (workspace.resolve_merges_once _ entry).2 merged later resolves⟩

end SmallLang
