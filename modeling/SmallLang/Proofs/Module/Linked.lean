import SmallLang.Module.Uses
import SmallLang.Proofs.Module.Apart
import SmallLang.Proofs.Module.Visits

/-!
# Merged files mean what they meant

In a merged program every file is still there, with other names. An access to a module has become
the name that a declaration in the file of the module has now, whichever use merged that file and
under whatever name. A name of the file itself has become the new name of a declaration at its top
exactly where inference over the file would bind it to that declaration.
-/

set_option autoImplicit false

namespace SmallLang

open Infer Walk

/-- Where inference over a file comes to an expression of a statement, a name gets the new name of
a declaration at the top only if no scope inside the root has it. -/
def Stmt.BindsAlike (naming : Naming) (before : List Stmt) (s s' : Stmt) : Prop :=
  ∀ (first engine place : Engine) (part : List Stmt) (e e' : Expr), first.scopes = .start →
    (Stmt.walkAll before).Ends first part engine → s.Visits s' engine place e e' →
    ∃ hidden, place.Hides hidden ∧ e.Rebound naming hidden e'

namespace Workspace

variable (workspace : Workspace)

/-- The names in a file of a merged program. A name of a module stands for the namespace of its
file. A declaration at the top is qualified if the file itself was merged. -/
def naming (resolver : Resolver) (program : Program) (space : Option String) : Naming where
  space? := fun name => (program.uses.find? (·.namespaceName == name)).bind fun used =>
    resolver.namespace? (workspace.modulePath used.path)
  own? := fun name =>
    if name ∈ program.declared then space.map (Expr.qualifiedName · name) else none

/-- How the statements of a file are found in a merged program. Before them stand those that were
found already. -/
inductive Linked (resolver : Resolver) : Naming → List Stmt → List Stmt → Program → Prop where
  | nil {naming : Naming} {before : List Stmt} : Linked resolver naming before [] []
  | dropped {naming : Naming} {before rest : List Stmt} {used : Use} {space : String}
      {body : Program} :
      resolver.namespace? (workspace.modulePath used.path) = some space →
      Linked resolver naming (before ++ [.use used]) rest body →
      Linked resolver naming before (.use used :: rest) body
  | merged {naming : Naming} {before rest : List Stmt} {used : Use} {source space : String}
      {module inner body : Program} :
      workspace.files.read? (workspace.modulePath used.path) = some source →
      Program.read source (workspace.modulePath used.path).text = .ok module →
      resolver.namespace? (workspace.modulePath used.path) = some space →
      Linked resolver (workspace.naming resolver module (some space)) [] module inner →
      Linked resolver naming (before ++ [.use used]) rest body →
      Linked resolver naming before (.use used :: rest) (.merged inner :: body)
  | kept {naming : Naming} {before rest : List Stmt} {s s' : Stmt} {body : Program} :
      (∀ used, s ≠ .use used) → s.ReboundTop naming s' → s.BindsAlike naming before s' →
      Linked resolver naming (before ++ [s]) rest body →
      Linked resolver naming before (s :: rest) (s' :: body)

/-- The programs of the files that a program uses. -/
def usedPrograms (program : Program) : List Program :=
  program.uses.filterMap fun used =>
    (workspace.files.read? (workspace.modulePath used.path)).bind fun source =>
      (Program.read source (workspace.modulePath used.path).text).toOption

/-- The programs that take part in resolution: that of the entry, and those of the files that such
a program uses. -/
inductive Reaches (entry : Program) : Program → Prop where
  | entry : Reaches entry entry
  | use {program module : Program} :
      Reaches entry program → module ∈ workspace.usedPrograms program → Reaches entry module

/-- A program gives no two files the same name. -/
def NamesApart (program : Program) : Prop :=
  ∀ used ∈ program.uses, ∀ used' ∈ program.uses, used.namespaceName = used'.namespaceName →
    (workspace.modulePath used.path).parts = (workspace.modulePath used'.path).parts

instance (program : Program) : Decidable (workspace.NamesApart program) :=
  inferInstanceAs (Decidable (∀ used ∈ program.uses, ∀ used' ∈ program.uses, _ → _))

end Workspace

theorem Program.uses_cons {s : Stmt} (notUse : ∀ used, s ≠ .use used) (rest : List Stmt) :
    Program.uses (s :: rest) = Program.uses rest := by
  cases s with
  | use used => exact absurd rfl (notUse used)
  | _ => rfl

theorem Stmt.ReboundTop.bindsAlike {naming : Naming} {s s' : Stmt}
    (rebound : s.ReboundTop naming s') (before : List Stmt) : s.BindsAlike naming before s' := by
  intro first engine place part e e' scopes ends visits
  have passes := Stmt.passes_walkAll before ends (scopes ▸ Scopes.sane_start)
  obtain ⟨_, _, grows⟩ := passes.grows
  have root : engine.scopes.isRoot = true := by
    rw [grows.isRoot, scopes]
    rfl
  exact visits.reboundTop rebound (passes.sane (scopes ▸ Scopes.sane_start)) root

namespace Resolver

/-- A later resolver has the namespaces that were given. -/
def Extends (resolver later : Resolver) : Prop :=
  ∀ path space, resolver.namespace? path = some space → later.namespace? path = some space

/-- Every file that is done was merged. -/
def Named (resolver : Resolver) : Prop :=
  ∀ path, resolver.isResolved path = true → ∃ space, resolver.namespace? path = some space

variable {resolver : Resolver} {path : Path}

theorem namespace?_merge (resolver : Resolver) (path : Path) (space : String) :
    (resolver.merge path space).namespace? path = some space := by
  rw [namespace?, merge, List.lookup_cons_self]
  rfl

theorem lookup_merge_of_ne {other : Path} (resolver : Resolver) (space : String)
    (apart : other.parts ≠ path.parts) :
    (resolver.merge path space).done.lookup other.parts = resolver.done.lookup other.parts := by
  rw [merge, List.lookup_cons, beq_false_of_ne apart]

theorem extends_merge (new : resolver.isResolved path = false) (space : String) :
    resolver.Extends (resolver.merge path space) := by
  intro other found named
  rw [namespace?, lookup_merge_of_ne resolver space, ← namespace?]
  · exact named
  · intro same
    rw [isResolved, ← same, Option.isSome_eq_false_iff, Option.isNone_iff_eq_none] at new
    rw [namespace?, new] at named
    cases named

theorem Named.merge (named : resolver.Named) (path : Path) (space : String) :
    (resolver.merge path space).Named := by
  intro other done
  by_cases same : other.parts = path.parts
  · refine ⟨space, ?_⟩
    rw [namespace?, same, ← namespace?, namespace?_merge]
  · rw [isResolved, lookup_merge_of_ne resolver space same] at done
    obtain ⟨found, named⟩ := named other done
    refine ⟨found, ?_⟩
    rw [namespace?, lookup_merge_of_ne resolver space same]
    exact named

theorem named_start : start.Named := by
  intro path done
  cases done

end Resolver

namespace Workspace

variable {workspace : Workspace} {resolver resolver' later : Resolver} {program body : Program}
  {aliases : Aliases}

/-- Resolution gives namespaces to files and takes none back. -/
theorem Replaces.extends (replaces : workspace.Replaces resolver program body aliases resolver') :
    resolver.Extends resolver' ∧ (resolver.Named → resolver'.Named) := by
  induction replaces with
  | nil => exact ⟨fun _ _ found => found, id⟩
  | dropped _ _ ih => exact ih
  | @merged _ _ _ used _ _ _ _ _ _ _ new _ _ _ _ inside rest =>
      have grown := Resolver.extends_merge new used.namespaceName
      exact ⟨fun path space found =>
          rest.1 path space (inside.1 path space (grown path space found)),
        fun named => rest.2 (inside.2 (named.merge _ _))⟩
  | kept _ _ ih => exact ih

private theorem names_of_use {first : Use} {rest : List Stmt} {space : String}
    (found : later.namespace? (workspace.modulePath first.path) = some space)
    (sound : ∀ entry ∈ aliases, ∃ used ∈ Program.uses rest, used.namespaceName = entry.1 ∧
      later.namespace? (workspace.modulePath used.path) = some entry.2)
    (complete : ∀ used ∈ Program.uses rest, ∃ entry ∈ aliases, used.namespaceName = entry.1) :
    (∀ entry ∈ aliases ++ [(first.namespaceName, space)],
      ∃ used ∈ Program.uses (.use first :: rest), used.namespaceName = entry.1 ∧
        later.namespace? (workspace.modulePath used.path) = some entry.2) ∧
    ∀ used ∈ Program.uses (.use first :: rest),
      ∃ entry ∈ aliases ++ [(first.namespaceName, space)], used.namespaceName = entry.1 := by
  constructor
  · intro entry present
    rcases List.mem_append.mp present with present | present
    · obtain ⟨other, present', same⟩ := sound entry present
      exact ⟨other, List.mem_cons_of_mem _ present', same⟩
    · obtain rfl := List.mem_singleton.mp present
      exact ⟨first, List.mem_cons_self, rfl, found⟩
  · intro other present
    rcases List.mem_cons.mp present with rfl | present
    · exact ⟨_, List.mem_append_right _ (List.mem_singleton.mpr rfl), rfl⟩
    · obtain ⟨entry, present', same⟩ := complete other present
      exact ⟨entry, List.mem_append_left _ present', same⟩

/-- The names that a file gives to modules stand for the namespaces that their files have at last.
-/
theorem Replaces.named_aliases
    (replaces : workspace.Replaces resolver program body aliases resolver')
    (named : resolver.Named) (grown : resolver'.Extends later) :
    (∀ entry ∈ aliases, ∃ used ∈ program.uses, used.namespaceName = entry.1 ∧
      later.namespace? (workspace.modulePath used.path) = some entry.2) ∧
    ∀ used ∈ program.uses, ∃ entry ∈ aliases, used.namespaceName = entry.1 := by
  induction replaces with
  | nil => exact ⟨nofun, nofun⟩
  | @dropped resolver _ used _ _ aliases done rest ih =>
      obtain ⟨sound, complete⟩ := ih named grown
      obtain ⟨space, found⟩ := named _ done
      have target : workspace.target resolver used = space := by
        rw [target, found]
        rfl
      rw [target]
      exact names_of_use (grown _ _ (rest.extends.1 _ _ found)) sound complete
  | @merged resolver between _ used _ _ _ _ _ _ _ new _ _ inside rest _ ih =>
      have inside' := inside.extends
      obtain ⟨sound, complete⟩ := ih (inside'.2 (named.merge _ _)) grown
      have found := inside'.1 _ _ (resolver.namespace?_merge _ _)
      exact names_of_use (grown _ _ (rest.extends.1 _ _ found)) sound complete
  | @kept _ _ stmt rest _ _ notUse _ ih =>
      rw [Program.uses_cons notUse]
      exact ih named grown

/-- Where no two files have one name, the latest entry for a name says the same as all others. -/
theorem Replaces.lookup_aliases
    (replaces : workspace.Replaces resolver program body aliases resolver')
    (named : resolver.Named) (grown : resolver'.Extends later)
    (apart : workspace.NamesApart program) (space : Option String) (name : String) :
    aliases.lookup name = (workspace.naming later program space).space? name := by
  obtain ⟨sound, complete⟩ := replaces.named_aliases named grown
  change _ = (program.uses.find? (·.namespaceName == name)).bind _
  cases found : program.uses.find? (·.namespaceName == name) with
  | none =>
      refine List.lookup_eq_none_iff.mpr ?_
      intro entry present
      obtain ⟨used, present', same, _⟩ := sound entry present
      have other := List.find?_eq_none.mp found used present'
      rw [bne_iff_ne]
      exact fun same' => other (beq_iff_eq.mpr (same.trans same'.symm))
  | some used =>
      have present := List.mem_of_find?_eq_some found
      have calls : used.namespaceName = name := by simpa using List.find?_some found
      obtain ⟨entry, present', same⟩ := complete used present
      have isSome : (aliases.lookup name).isSome :=
        List.lookup_isSome_iff.mpr ⟨entry, present', beq_iff_eq.mpr (calls.symm.trans same)⟩
      obtain ⟨other, looks⟩ := Option.isSome_iff_exists.mp isSome
      obtain ⟨_, _, split, _⟩ := List.lookup_eq_some_iff.mp looks
      have listed : (name, other) ∈ aliases := by
        rw [split]
        exact List.mem_append_right _ List.mem_cons_self
      obtain ⟨used', present'', same', known⟩ := sound _ listed
      rw [looks, Option.bind_some, Resolver.namespace?,
        apart used present used' present'' (calls.trans same'.symm), ← Resolver.namespace?, known]

/-- The names in a program that is not merged itself. -/
theorem Replaces.ofAliases_eq
    (replaces : workspace.Replaces resolver program body aliases resolver')
    (named : resolver.Named) (grown : resolver'.Extends later)
    (apart : workspace.NamesApart program) :
    Naming.ofAliases aliases = workspace.naming later program none := by
  have spaces : (fun name => aliases.lookup name) = (workspace.naming later program none).space? :=
    funext (replaces.lookup_aliases named grown apart none)
  have own : (fun _ => none) = (workspace.naming later program none).own? := by
    funext name
    change none = if _ then none else none
    rw [ite_self]
  rw [Naming.ofAliases, spaces, own]

/-- The names in a program that is merged under a namespace. -/
theorem Replaces.qualify_eq
    (replaces : workspace.Replaces resolver program body aliases resolver')
    (named : resolver.Named) (grown : resolver'.Extends later)
    (apart : workspace.NamesApart program) {qualifier : Qualifier}
    (exported : qualifier.exported = program.declared) :
    (Naming.ofAliases aliases).qualify qualifier =
      workspace.naming later program (some qualifier.space) := by
  have spaces : (fun name => aliases.lookup name) =
      (workspace.naming later program (some qualifier.space)).space? :=
    funext (replaces.lookup_aliases named grown apart _)
  rw [Naming.ofAliases, Naming.qualify, spaces, exported]
  rfl

/-- What a merged file declares has no dot, so that no name in it is qualified twice. -/
theorem plain_of_undotted {program : Program} {qualifier : Qualifier}
    (undotted : ∀ s ∈ program, s.Undotted) (exported : qualifier.exported = program.declared) :
    qualifier.Plain := by
  intro space name present
  rw [exported] at present
  obtain ⟨s, present', declares⟩ := List.mem_filterMap.mp present
  exact ((undotted s present').declared _ declares).ne_qualifiedName rfl

/-- In a merged file accesses are replaced, and the names at its top are qualified. -/
theorem reboundTop_qualified {source file : String} {program : Program}
    (reads : Program.read source file = .ok program) (aliases : Aliases) {qualifier : Qualifier}
    (exported : qualifier.exported = program.declared) {s : Stmt} (present : s ∈ program) :
    s.ReboundTop ((Naming.ofAliases aliases).qualify qualifier)
      ((s.access aliases).qualifyTop qualifier) := by
  have parsed := Stmt.allParsed_iff.mp (allParsed_of_read reads) s present
  refine (Stmt.reboundTop_access aliases parsed.bare).qualifyTop (fun _ => rfl)
    (plain_of_undotted (Program.undotted_of_read reads) exported) ?_
  intro name declared
  exact exported ▸ List.mem_filterMap.mpr ⟨s, present, declared⟩

/-- The statements of a merged file are rebound to the names that its module has at last. -/
theorem Replaces.rebinds_qualified {source file : String} (space : String)
    (replaces : workspace.Replaces resolver program body aliases resolver')
    (named : resolver.Named) (grown : resolver'.Extends later)
    (apart : workspace.NamesApart program) (reads : Program.read source file = .ok program) :
    ∃ rewrite : Stmt → Stmt, Program.qualified (Stmt.accessAll aliases body) space =
        body.map rewrite ∧ (∀ inner, rewrite (.merged inner) = .merged inner) ∧
      ∀ s ∈ program, s.ReboundTop (workspace.naming later program (some space)) (rewrite s) := by
  obtain ⟨qualifier, same⟩ : ∃ qualifier, qualifier =
      Qualifier.ofModule space (Stmt.accessAll aliases body) := ⟨_, rfl⟩
  have exported : qualifier.exported = program.declared := by
    rw [same]
    exact (Program.declared_access aliases body).trans
      (replaces.merges (allParsed_of_read reads) (Program.undotted_of_read reads)).1
  have spaced : qualifier.space = space := by rw [same]; rfl
  refine ⟨fun s => (s.access aliases).qualifyTop qualifier, ?_, fun _ => rfl, ?_⟩
  · rw [Program.qualified, ← same, Stmt.accessAll_eq_map, List.map_map]
    rfl
  · intro s present
    have rebound := reboundTop_qualified reads aliases exported present
    rwa [replaces.qualify_eq named grown apart exported, spaced] at rebound

theorem mem_usedPrograms {module : Program} {used : Use} {source : String}
    (present : used ∈ program.uses)
    (reads : workspace.files.read? (workspace.modulePath used.path) = some source)
    (parsed : Program.read source (workspace.modulePath used.path).text = .ok module) :
    module ∈ workspace.usedPrograms program := by
  refine List.mem_filterMap.mpr ⟨used, present, ?_⟩
  rw [reads, Option.bind_some, parsed]
  rfl

/-- Where each statement that stays is rewritten as the names in its file change, the statements
of the file are found in what they are replaced by, and so are those of each file merged there. -/
theorem Replaces.linked {entry : Program}
    (apart : ∀ program, workspace.Reaches entry program → workspace.NamesApart program)
    (replaces : workspace.Replaces resolver program body aliases resolver')
    (named : resolver.Named) (grown : resolver'.Extends later) {whole : Program}
    (before : List Stmt) {naming : Naming} {rewrite : Stmt → Stmt}
    (reached : workspace.Reaches entry whole)
    (part : program.uses ⊆ whole.uses) (merges : ∀ inner, rewrite (.merged inner) = .merged inner)
    (rebinds : ∀ s ∈ program, s.ReboundTop naming (rewrite s)) :
    workspace.Linked later naming before program (body.map rewrite) := by
  induction replaces generalizing whole before naming rewrite with
  | nil => exact .nil
  | @dropped _ _ used _ _ _ done rest ih =>
      obtain ⟨space, found⟩ := named _ done
      have linked := ih named grown (before ++ [.use used]) reached
        (fun _ present => part (List.mem_cons_of_mem _ present)) merges
        fun s present => rebinds s (List.mem_cons_of_mem _ present)
      exact .dropped (grown _ _ (rest.extends.1 _ _ found)) linked
  | @merged resolver between _ used _ source module inner _ names _ new reads parsed inside rest
      ih ih' =>
      have named' := named.merge (workspace.modulePath used.path) used.namespaceName
      have grown' : between.Extends later := fun path space found =>
        grown path space (rest.extends.1 path space found)
      have reached' := reached.use (mem_usedPrograms (part List.mem_cons_self) reads parsed)
      obtain ⟨rewrite', same, merges', rebinds'⟩ :=
        inside.rebinds_qualified used.namespaceName named' grown' (apart _ reached') parsed
      have found := inside.extends.1 _ _ (resolver.namespace?_merge _ _)
      have linked := ih' (inside.extends.2 named') grown (before ++ [.use used]) reached
        (fun _ present => part (List.mem_cons_of_mem _ present)) merges
        fun s present => rebinds s (List.mem_cons_of_mem _ present)
      rw [List.map_cons, merges, same]
      exact .merged reads parsed (grown' _ _ found)
        (ih named' grown' [] reached' (List.Subset.refl _) merges' rebinds') linked
  | @kept _ _ stmt rest _ _ notUse _ ih =>
      have rebound := rebinds stmt List.mem_cons_self
      rw [Program.uses_cons notUse] at part
      exact .kept notUse rebound (rebound.bindsAlike _)
        (ih named grown _ reached part merges
          fun s present => rebinds s (List.mem_cons_of_mem _ present))

/-- In a merged program every name means what it meant in its file. -/
theorem resolve_preserves_bindings {tokens : List Token} {program merged : Program}
    {resolver : Resolver} (parsed : Program.parse tokens = .ok program)
    (resolves : workspace.resolve program .start = .ok merged resolver)
    (apart : ∀ file, workspace.Reaches program file → workspace.NamesApart file) :
    workspace.Linked resolver (workspace.naming resolver program none) [] program merged := by
  obtain ⟨body, aliases, replaces, rfl⟩ := replaces_of_resolve resolves
  have later : resolver.Extends resolver := fun _ _ found => found
  have given := Program.allParsed_of_parse parsed
  rw [Stmt.accessAll_eq_map]
  refine replaces.linked apart Resolver.named_start later [] .entry (List.Subset.refl _)
    (fun _ => rfl) ?_
  intro s present
  rw [← replaces.ofAliases_eq Resolver.named_start later (apart _ .entry)]
  exact Stmt.reboundTop_access aliases (Stmt.allParsed_iff.mp given s present).bare

/-- Programs that use no others but themselves are all that take part. -/
theorem Reaches.mem {entry : Program} {programs : List Program} (present : entry ∈ programs)
    (closed : ∀ program ∈ programs, workspace.usedPrograms program ⊆ programs) {file : Program}
    (reached : workspace.Reaches entry file) : file ∈ programs := by
  induction reached with
  | entry => exact present
  | use _ used ih => exact closed _ ih used

end Workspace

namespace MutualUse

/-- Two files that use each other, each with a parameter called `n`. The second declares an `n`
at its top too. -/
def workspace : Workspace :=
  ⟨[(⟨"app/a.lang"⟩, "use b\nfn f(n: int) -> int \x7b\nreturn b.n\n\x7d"),
    (⟨"app/b.lang"⟩,
      "use a\nlet n := 1\nfn g(n: int) -> int \x7b\nreturn a.f(n)\n\x7d\nlet m := n")],
    ⟨"app"⟩, ⟨"std"⟩⟩

/-- What the first file declares, under some name and with some value returned. -/
def first (name : String) (value : Position → Expr) : Program :=
  [.function ⟨name, [⟨"n", "int", "app/a.lang", 14⟩], some ⟨"int", "app/a.lang", 22⟩, [],
    ⟨"app/a.lang", 6⟩, none⟩ (some [.returns (some (value ⟨"app/a.lang", 35⟩))])]

/-- What the second file declares, under some names and with some function called. -/
def second (name function last : String) (callee : Position → Expr) : Program :=
  [.declare ⟨name, true, none, some (.number "1"), ⟨"app/b.lang", 6⟩, none⟩,
   .function ⟨function, [⟨"n", "int", "app/b.lang", 25⟩], some ⟨"int", "app/b.lang", 33⟩, [],
    ⟨"app/b.lang", 17⟩, none⟩ (some [.returns (some (.call (callee ⟨"app/b.lang", 46⟩)
      [.identifier "n" ⟨"app/b.lang", 50⟩]))]),
   .declare ⟨last, true, none, some (.identifier name ⟨"app/b.lang", 64⟩),
     ⟨"app/b.lang", 55⟩, none⟩]

/-- The two files as they are read. -/
def files : List Program :=
  [.use ⟨"b", none, ⟨"app/a.lang", 0⟩⟩ :: first "f" fun place =>
    .member (.identifier "b" place) "n",
   .use ⟨"a", none, ⟨"app/b.lang", 0⟩⟩ ::
    second "n" "g" "m" fun place => .member (.identifier "a" place) "f"]

/-- A program that uses both, the first under a name of its own. -/
def entry : Program :=
  [.use ⟨"a", some "x", ⟨"main", 0⟩⟩, .use ⟨"b", none, ⟨"main", 11⟩⟩,
   .declare ⟨"z", true, none, some (.call (.member (.identifier "b" ⟨"main", 26⟩) "g")
      [.call (.member (.identifier "x" ⟨"main", 30⟩) "f") [.number "1"]]), ⟨"main", 17⟩, none⟩]

/-- The merged program. -/
def merged : Program :=
  [.merged (.merged (second "b.n" "b.g" "b.m" fun place => .identifier "x.f" place) ::
    first "x.f" fun place => .identifier "b.n" place),
   .declare ⟨"z", true, none, some (.call (.identifier "b.g" ⟨"main", 26⟩)
      [.call (.identifier "x.f" ⟨"main", 30⟩) [.number "1"]]), ⟨"main", 17⟩, none⟩]

/-- The resolver after both were merged. -/
def resolver : Resolver := ⟨[(["app", "b.lang"], some "b"), (["app", "a.lang"], some "x")]⟩

end MutualUse

open MutualUse in
/-- In two files that use each other, one of them merged under another name than it uses itself,
a parameter keeps its name, and a name at the top does not. -/
theorem Workspace.resolve_preserves_bindings_mutual_use :
    Program.read "use a as x\nuse b\nlet z := b.g(x.f(1))" "main" = .ok entry ∧
      workspace.resolve entry .start = .ok merged resolver ∧
      (∀ file, workspace.Reaches entry file → workspace.NamesApart file) ∧
      workspace.Linked resolver (workspace.naming resolver entry none) [] entry merged := by
  have reads : Program.read "use a as x\nuse b\nlet z := b.g(x.f(1))" "main" = .ok entry :=
    Program.read_of_toOption (by decide +kernel)
  have resolves : workspace.resolve entry .start = .ok merged resolver :=
    Workspace.resolve_of_run (by decide +kernel)
  have closed : ∀ program ∈ entry :: MutualUse.files,
      workspace.usedPrograms program ⊆ entry :: MutualUse.files ∧ workspace.NamesApart program := by
    decide +kernel
  have apart : ∀ file, workspace.Reaches entry file → workspace.NamesApart file :=
    fun file reached => (closed file (reached.mem List.mem_cons_self
      fun program present => (closed program present).1)).2
  obtain ⟨tokens, _, parsed⟩ := Program.exists_tokens_of_read reads
  exact ⟨reads, resolves, apart, Workspace.resolve_preserves_bindings parsed resolves apart⟩

end SmallLang
