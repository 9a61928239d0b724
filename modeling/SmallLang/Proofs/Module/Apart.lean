import Mathlib.Data.List.Basic
import Mathlib.Data.List.Forall2
import SmallLang.Proofs.Module.Replaces
import SmallLang.Proofs.Module.Words
import SmallLang.Proofs.Parse.Shape
import SmallLang.Tree.Equality

/-!
# Files stay apart

A merged module declares the names of its file, under its namespace. Files that were merged under
different namespaces therefore never declare the same name, nor does the program that uses them.
Nothing keeps two files from one namespace, though: it is the name that the first use of a file
gives it, or the last part of the path, and the namespaces of other files are not looked at.
-/

set_option autoImplicit false

namespace SmallLang

mutual

/-- The modules merged in place of a statement, each before those merged into it. -/
def Stmt.modules : Stmt → List Program
  | .merged body => body :: Stmt.allModules body
  | _ => []

/-- The modules merged into a program, each before those merged into it. -/
def Stmt.allModules : List Stmt → List Program
  | [] => []
  | first :: rest => first.modules ++ Stmt.allModules rest

end

/-- The names that a program declares at its top, apart from modules merged into it. -/
def Program.declared (program : Program) : List String := program.filterMap Stmt.declared?

/-- The files merged since an earlier state of the resolver, in order, with their namespaces. -/
def Resolver.since (resolver earlier : Resolver) : List (List String × Option String) :=
  (resolver.done.take (resolver.done.length - earlier.done.length)).reverse

section Rewriting

theorem Stmt.modules_access (aliases : Aliases) (s : Stmt) :
    (s.access aliases).modules = s.modules := by
  cases s with
  | function header body => cases body <;> rfl
  | _ => rfl

theorem Stmt.allModules_access (aliases : Aliases) (body : List Stmt) :
    Stmt.allModules (Stmt.accessAll aliases body) = Stmt.allModules body := by
  induction body with
  | nil => rfl
  | cons first rest ih =>
      rw [Stmt.accessAll, Stmt.allModules, Stmt.allModules, modules_access, ih]

theorem Stmt.declared?_access (aliases : Aliases) (s : Stmt) :
    (s.access aliases).declared? = s.declared? := by
  cases s with
  | function header body => cases body <;> rfl
  | _ => rfl

theorem Stmt.accessAll_eq_map (aliases : Aliases) (body : List Stmt) :
    Stmt.accessAll aliases body = body.map (Stmt.access aliases) := by
  induction body with
  | nil => rfl
  | cons first rest ih => rw [Stmt.accessAll, ih, List.map_cons]

theorem Program.declared_access (aliases : Aliases) (program : Program) :
    Program.declared (Stmt.accessAll aliases program) = program.declared := by
  unfold declared
  rw [Stmt.accessAll_eq_map, List.filterMap_map]
  exact congrArg (List.filterMap · program) (funext (Stmt.declared?_access aliases))

theorem Stmt.modules_qualifyTop (qualifier : Qualifier) (s : Stmt) :
    (s.qualifyTop qualifier).modules = s.modules := by
  cases s with
  | function header body => cases body <;> rfl
  | _ => rfl

theorem Stmt.declared?_qualifyTop (qualifier : Qualifier) (s : Stmt) :
    (s.qualifyTop qualifier).declared? = s.declared?.map qualifier.declaration := by
  cases s with
  | function header body => cases body <;> rfl
  | _ => rfl

theorem Program.modules_qualified (space : String) (module : Program) :
    Stmt.allModules (module.qualified space) = Stmt.allModules module := by
  unfold qualified
  generalize Qualifier.ofModule space module = qualifier
  induction module with
  | nil => rfl
  | cons first rest ih =>
      rw [List.map_cons, Stmt.allModules, Stmt.allModules, Stmt.modules_qualifyTop, ih]

theorem Program.declared_qualified (space : String) (module : Program) :
    (module.qualified space).declared = module.declared.map (Expr.qualifiedName space) := by
  unfold declared qualified
  rw [List.filterMap_map, List.map_filterMap]
  exact congrArg (List.filterMap · module)
    (funext (Stmt.declared?_qualifyTop (.ofModule space module)))

end Rewriting

namespace Workspace

variable (workspace : Workspace)

/-- A merged module is that of a file: it declares what the file declares, under the namespace of
the file. -/
def Merges (file : List String × Option String) (module : Program) : Prop :=
  ∃ path source program space, file = (path.parts, some space) ∧
    workspace.files.read? path = some source ∧ Program.read source path.text = .ok program ∧
    module.declared = program.declared.map (Expr.qualifiedName space)

variable {workspace}

theorem allParsed_of_read {source file : String} {program : Program}
    (reads : Program.read source file = .ok program) : Stmt.AllParsed program := by
  obtain ⟨tokens, _, parsed⟩ := Program.exists_tokens_of_read reads
  exact Program.allParsed_of_parse parsed

/-- The modules that take the place of uses are those of the files that the resolver takes note of
in the meantime. -/
theorem Replaces.merges {resolver resolver' : Resolver} {program body : Program}
    {aliases : Aliases} (replaces : workspace.Replaces resolver program body aliases resolver')
    (parsed : Stmt.AllParsed program) (undotted : ∀ s ∈ program, s.Undotted) :
    body.declared = program.declared ∧ ∃ files,
      resolver'.done = files.reverse ++ resolver.done ∧
      List.Forall₂ workspace.Merges files (Stmt.allModules body) ∧
      ∀ file ∈ files, ∃ space, file.2 = some space ∧ Undotted space := by
  induction replaces with
  | nil => exact ⟨rfl, [], rfl, .nil, nofun⟩
  | @dropped _ _ used rest body _ _ _ ih =>
      obtain ⟨same, files, done, merges, spaces⟩ :=
        ih parsed.2 fun s present => undotted s (List.mem_cons_of_mem _ present)
      exact ⟨same, files, done, merges, spaces⟩
  | @merged resolver between _ used rest source module inner body names _ new reads parsed' _ _
      inside ih =>
      obtain ⟨same, files, done, merges, spaces⟩ :=
        ih parsed.2 fun s present => undotted s (List.mem_cons_of_mem _ present)
      obtain ⟨same', files', done', merges', spaces'⟩ :=
        inside (allParsed_of_read parsed') (Program.undotted_of_read parsed')
      let path := workspace.modulePath used.path
      refine ⟨same, (path.parts, some used.namespaceName) :: (files' ++ files), ?_, ?_, ?_⟩
      · rw [done, done', List.reverse_cons, List.reverse_append]
        simp [Resolver.merge, path]
      · rw [Stmt.allModules, Stmt.modules, Program.modules_qualified, Stmt.allModules_access]
        refine .cons ⟨path, source, module, used.namespaceName, rfl, reads, parsed', ?_⟩
          (List.rel_append merges' merges)
        rw [Program.declared_qualified, Program.declared_access, same']
      · intro file present
        cases present with
        | head => exact ⟨_, rfl, (undotted _ List.mem_cons_self).used used rfl⟩
        | tail _ later =>
            exact (List.mem_append.mp later).elim (spaces' file) (spaces file)
  | @kept _ _ stmt rest body _ notUse _ ih =>
      obtain ⟨same, files, done, merges, spaces⟩ :=
        ih parsed.2 fun s present => undotted s (List.mem_cons_of_mem _ present)
      have none : stmt.modules = [] := by
        cases stmt with
        | merged body => exact parsed.1.elim
        | _ => rfl
      refine ⟨?_, files, done, ?_, spaces⟩
      · unfold Program.declared at same ⊢
        rw [List.filterMap_cons, List.filterMap_cons, same]
      · rw [Stmt.allModules, none]
        exact merges

theorem Merges.disjoint {file file' : List String × Option String} {module module' : Program}
    (merges : workspace.Merges file module) (merges' : workspace.Merges file' module')
    (spaces : ∃ space, file.2 = some space ∧ Undotted space)
    (spaces' : ∃ space, file'.2 = some space ∧ Undotted space) (apart : file.2 ≠ file'.2) :
    List.Disjoint module.declared module'.declared := by
  obtain ⟨_, _, program, space, rfl, _, _, same⟩ := merges
  obtain ⟨_, _, program', space', rfl, _, _, same'⟩ := merges'
  obtain ⟨_, ⟨⟩, undotted⟩ := spaces
  obtain ⟨_, ⟨⟩, undotted'⟩ := spaces'
  intro name declared declared'
  rw [same] at declared
  rw [same'] at declared'
  obtain ⟨first, _, rfl⟩ := List.mem_map.mp declared
  obtain ⟨second, _, same⟩ := List.mem_map.mp declared'
  exact apart (congrArg some (Expr.qualifiedName_inj undotted undotted' same.symm).1)

/-- Modules of files with different namespaces have no name in common. -/
theorem pairwise_disjoint {files : List (List String × Option String)} {modules : List Program}
    (merges : List.Forall₂ workspace.Merges files modules)
    (spaces : ∀ file ∈ files, ∃ space, file.2 = some space ∧ Undotted space)
    (apart : (files.map Prod.snd).Nodup) :
    modules.Pairwise fun first second => List.Disjoint first.declared second.declared := by
  induction merges with
  | nil => exact .nil
  | @cons file module files modules merge merges ih =>
      rw [List.map_cons, List.nodup_cons] at apart
      refine .cons ?_
        (ih (fun file present => spaces file (List.mem_cons_of_mem _ present)) apart.2)
      intro module' present
      obtain ⟨index, bound, rfl⟩ := List.mem_iff_getElem.mp present
      have bound' : index < files.length := merges.length_eq ▸ bound
      have present' : files[index] ∈ files := List.getElem_mem bound'
      refine merge.disjoint (merges.get bound' bound) (spaces file List.mem_cons_self)
        (spaces _ (List.mem_cons_of_mem _ present')) fun same => apart.1 ?_
      exact same ▸ List.mem_map_of_mem present'

theorem since_eq {resolver resolver' : Resolver}
    {files : List (List String × Option String)}
    (done : resolver'.done = files.reverse ++ resolver.done) :
    resolver'.since resolver = files := by
  unfold Resolver.since
  rw [done, List.length_append, Nat.add_sub_cancel, List.take_left', List.reverse_reverse]
  rfl

/-- Where no two files are merged under one namespace, no name is declared twice at the top: not in
two modules, and not in a module and the program that uses it. -/
theorem resolve_keeps_apart {source file : String} {program merged : Program}
    {resolver resolver' : Resolver} (reads : Program.read source file = .ok program)
    (resolves : workspace.resolve program resolver = .ok merged resolver')
    (apart : ((resolver'.since resolver).map Prod.snd).Nodup) :
    merged.declared = program.declared ∧
      List.Forall₂ workspace.Merges (resolver'.since resolver) (Stmt.allModules merged) ∧
      (merged :: Stmt.allModules merged).Pairwise fun first second =>
        List.Disjoint first.declared second.declared := by
  have undotted := Program.undotted_of_read reads
  obtain ⟨body, aliases, replaces, rfl⟩ := replaces_of_resolve resolves
  obtain ⟨same, files, done, merges, spaces⟩ :=
    replaces.merges (allParsed_of_read reads) undotted
  rw [since_eq done] at apart ⊢
  rw [Program.declared_access, Stmt.allModules_access]
  refine ⟨same, merges, .cons ?_ (pairwise_disjoint merges spaces apart)⟩
  intro module present name declared declared'
  rw [Program.declared_access, same] at declared
  obtain ⟨s, present', declares⟩ := List.mem_filterMap.mp declared
  obtain ⟨index, bound, rfl⟩ := List.mem_iff_getElem.mp present
  obtain ⟨_, _, _, space, _, _, _, qualified⟩ := merges.get (merges.length_eq ▸ bound) bound
  rw [List.get_eq_getElem] at qualified
  rw [qualified] at declared'
  obtain ⟨inner, _, rfl⟩ := List.mem_map.mp declared'
  exact ((undotted s present').declared _ declares).ne_qualifiedName rfl

end Workspace

namespace TwoUtilities

/-- A file of one function. -/
def source : String := "fn f() \x7b\x7d"

/-- Two such files, both called `util`. -/
def workspace : Workspace :=
  ⟨[(⟨"app/a/util.lang"⟩, source), (⟨"app/b/util.lang"⟩, source)], ⟨"app"⟩, ⟨"std"⟩⟩

/-- A program that uses both, the second under a name of its own or as it is called. -/
def program (name : Option String) : Program :=
  [.use ⟨"a/util", none, ⟨"main", 0⟩⟩, .use ⟨"b/util", name, ⟨"main", 11⟩⟩]

/-- What each of the two becomes under a namespace. -/
def module (path space : String) : Stmt :=
  .merged [.function ⟨Expr.qualifiedName space "f", [], none, [], ⟨path, 0⟩, none⟩ (some [])]

/-- The resolver once both are merged. -/
def resolver (space : String) : Resolver :=
  ⟨[(["app", "b", "util.lang"], some space), (["app", "a", "util.lang"], some "util")]⟩

end TwoUtilities

open TwoUtilities in
/-- A second use under a name of its own keeps two files of one name apart. -/
theorem Workspace.resolve_keeps_apart_two_utilities :
    Program.read "use a/util\nuse b/util as other" "main" = .ok (program (some "other")) ∧
      workspace.resolve (program (some "other")) .start =
        .ok [module "app/a/util.lang" "util", module "app/b/util.lang" "other"]
          (resolver "other") ∧
      (((resolver "other").since .start).map Prod.snd).Nodup ∧
      ([module "app/a/util.lang" "util", module "app/b/util.lang" "other"] ::
        Stmt.allModules [module "app/a/util.lang" "util",
          module "app/b/util.lang" "other"]).Pairwise
          fun first second => List.Disjoint (Program.declared first) (Program.declared second) := by
  have reads : Program.read "use a/util\nuse b/util as other" "main" =
      .ok (program (some "other")) := Program.read_of_toOption (by decide +kernel)
  have resolves : workspace.resolve (program (some "other")) .start =
      .ok [module "app/a/util.lang" "util", module "app/b/util.lang" "other"] (resolver "other") :=
    Workspace.resolve_of_run (by decide +kernel)
  have apart : (((resolver "other").since .start).map Prod.snd).Nodup := by decide
  exact ⟨reads, resolves, apart, (Workspace.resolve_keeps_apart reads resolves apart).2.2⟩

open TwoUtilities in
/-- Two files whose paths end alike get the same namespace, and their functions the same name. -/
theorem Workspace.resolve_shares_namespace :
    ¬ ∀ (workspace : Workspace) (source file : String) (program merged : Program)
      (resolver : Resolver), Program.read source file = .ok program → program.declared.Nodup →
      (∀ entry ∈ workspace.files, ∀ inner, Program.read entry.2 entry.1.text = .ok inner →
        inner.declared.Nodup) →
      workspace.resolve program .start = .ok merged resolver →
      (merged :: Stmt.allModules merged).Pairwise fun first second =>
        List.Disjoint first.declared second.declared := by
  intro apart
  have reads : Program.read "use a/util\nuse b/util" "main" = .ok (program none) :=
    Program.read_of_toOption (by decide +kernel)
  have resolves : workspace.resolve (program none) .start =
      .ok [module "app/a/util.lang" "util", module "app/b/util.lang" "util"] (resolver "util") :=
    Workspace.resolve_of_run (by decide +kernel)
  have own : ∀ entry ∈ workspace.files, ∀ inner, Program.read entry.2 entry.1.text = .ok inner →
      inner.declared.Nodup := by
    intro entry present inner reads'
    have checked : workspace.files.all (fun entry =>
        (Program.read entry.2 entry.1.text).toOption.all fun inner =>
          inner.declared.Nodup) = true := by
      decide +kernel
    have distinct := List.all_eq_true.mp checked entry present
    rw [reads'] at distinct
    exact of_decide_eq_true distinct
  have disjoint := apart workspace _ _ _ _ _ reads (by decide) own resolves
  have clash := (List.pairwise_cons.mp (List.pairwise_cons.mp disjoint).2).1 _ List.mem_cons_self
  exact clash (a := "util.f") (List.mem_singleton.mpr rfl) (List.mem_singleton.mpr rfl)

end SmallLang
