import SmallLang.Analysis
import SmallLang.Proofs.Import.Scopes
import SmallLang.Proofs.Import.Use
import SmallLang.Proofs.Module.Entry

/-!
# Declarations and types

What is declared is checked to be named like no type, under the name that it has once modules are
merged. Such a name is that of the source, but for what a module declares at its top.
-/

set_option autoImplicit false

namespace SmallLang

mutual

/-- The names that are declared inside of a statement. -/
def Stmt.inner : Stmt → List String
  | .function header (some body) => header.parameters.map (·.name) ++ Stmt.allNames body
  | .branch _ body alternate => Stmt.allNames body ++ alternate.inner
  | .loop _ body => Stmt.allNames body
  | .switch _ arms => Arm.allInner arms
  | .arm single => single.inner
  | .merged body => Stmt.allNames body
  | .function _ none | .expr _ | .comment _ | .use _ | .parameter _ | .returns _ | .declare _ => []

def Alternate.inner : Alternate → List String
  | .none => []
  | .elseBranch _ body alternate => Stmt.allNames body ++ alternate.inner
  | .otherwise body => Stmt.allNames body

def Arm.inner : Arm → List String
  | .value _ body => Stmt.allNames body
  | .otherwise body => Stmt.allNames body

/-- The names that statements declare, at every depth. -/
def Stmt.allNames : List Stmt → List String
  | [] => []
  | first :: rest => first.declared?.toList ++ first.inner ++ Stmt.allNames rest

def Arm.allInner : List Arm → List String
  | [] => []
  | first :: rest => first.inner ++ Arm.allInner rest

end

/-- None of some names is that of a type. -/
def SparesTypes (names : List String) : Prop := ∀ name ∈ names, Ty.isTypeName name = false

theorem sparesTypes_nil : SparesTypes [] := List.forall_mem_nil _

theorem sparesTypes_append {names more : List String} :
    SparesTypes (names ++ more) ↔ SparesTypes names ∧ SparesTypes more :=
  List.forall_mem_append

/-! ### New names -/

section Access

variable (aliases : Aliases)

mutual

theorem Stmt.inner_access : ∀ s : Stmt, (s.access aliases).inner = s.inner
  | .expr _ | .comment _ | .use _ | .parameter _ | .returns _ | .declare _ | .merged _
  | .function _ none => rfl
  | .function header (some body) => by
      rw [Stmt.access, Stmt.inner, Stmt.inner, Stmt.allNames_access body]
  | .branch _ body alternate => by
      rw [Stmt.access, Stmt.inner, Stmt.inner, Stmt.allNames_access body,
        Alternate.inner_access alternate]
  | .loop _ body => by rw [Stmt.access, Stmt.inner, Stmt.inner, Stmt.allNames_access body]
  | .switch _ arms => by rw [Stmt.access, Stmt.inner, Stmt.inner, Arm.allInner_access arms]
  | .arm single => by rw [Stmt.access, Stmt.inner, Stmt.inner, Arm.inner_access single]

theorem Alternate.inner_access : ∀ alternate : Alternate,
    (alternate.access aliases).inner = alternate.inner
  | .none => rfl
  | .elseBranch _ body alternate => by
      rw [Alternate.access, Alternate.inner, Alternate.inner, Stmt.allNames_access body,
        Alternate.inner_access alternate]
  | .otherwise body => by
      rw [Alternate.access, Alternate.inner, Alternate.inner, Stmt.allNames_access body]

theorem Arm.inner_access : ∀ arm : Arm, (arm.access aliases).inner = arm.inner
  | .value _ body | .otherwise body => by
      rw [Arm.access, Arm.inner, Arm.inner, Stmt.allNames_access body]

theorem Stmt.allNames_access : ∀ body : List Stmt,
    Stmt.allNames (Stmt.accessAll aliases body) = Stmt.allNames body
  | [] => rfl
  | first :: rest => by
      rw [Stmt.accessAll, Stmt.allNames, Stmt.allNames, Stmt.declared?_access,
        Stmt.inner_access first, Stmt.allNames_access rest]

theorem Arm.allInner_access : ∀ arms : List Arm,
    Arm.allInner (Arm.accessAll aliases arms) = Arm.allInner arms
  | [] => rfl
  | first :: rest => by
      rw [Arm.accessAll, Arm.allInner, Arm.allInner, Arm.inner_access first,
        Arm.allInner_access rest]

end

end Access

section Qualify

variable {qualifier : Qualifier}

theorem Stmt.declared?_qualify (hidden : List String) (s : Stmt) :
    (s.qualify qualifier hidden).declared? = s.declared? := by
  cases s with
  | function header body => cases body <;> rfl
  | _ => rfl

mutual

theorem Stmt.inner_qualify : ∀ (hidden : List String) (s : Stmt),
    (s.qualify qualifier hidden).inner = s.inner
  | _, .expr _ | _, .comment _ | _, .use _ | _, .parameter _ | _, .returns _ | _, .declare _
  | _, .merged _ | _, .function _ none => rfl
  | _, .function header (some body) => by
      rw [Stmt.qualify, Stmt.inner, Stmt.inner, Stmt.allNames_qualify _ body]
  | _, .branch _ body alternate => by
      rw [Stmt.qualify, Stmt.inner, Stmt.inner, Stmt.allNames_qualify _ body,
        Alternate.inner_qualify _ alternate]
  | _, .loop _ body => by rw [Stmt.qualify, Stmt.inner, Stmt.inner, Stmt.allNames_qualify _ body]
  | _, .switch _ arms => by rw [Stmt.qualify, Stmt.inner, Stmt.inner, Arm.allInner_qualify _ arms]
  | _, .arm single => by rw [Stmt.qualify, Stmt.inner, Stmt.inner, Arm.inner_qualify _ single]

theorem Alternate.inner_qualify : ∀ (hidden : List String) (alternate : Alternate),
    (alternate.qualify qualifier hidden).inner = alternate.inner
  | _, .none => rfl
  | _, .elseBranch _ body alternate => by
      rw [Alternate.qualify, Alternate.inner, Alternate.inner, Stmt.allNames_qualify _ body,
        Alternate.inner_qualify _ alternate]
  | _, .otherwise body => by
      rw [Alternate.qualify, Alternate.inner, Alternate.inner, Stmt.allNames_qualify _ body]

theorem Arm.inner_qualify : ∀ (hidden : List String) (arm : Arm),
    (arm.qualify qualifier hidden).inner = arm.inner
  | _, .value _ body | _, .otherwise body => by
      rw [Arm.qualify, Arm.inner, Arm.inner, Stmt.allNames_qualify _ body]

theorem Stmt.allNames_qualify : ∀ (hidden : List String) (body : List Stmt),
    Stmt.allNames (Stmt.qualifyAll qualifier hidden body) = Stmt.allNames body
  | _, [] => rfl
  | _, first :: rest => by
      rw [Stmt.qualifyAll, Stmt.allNames, Stmt.allNames, Stmt.declared?_qualify,
        Stmt.inner_qualify _ first, Stmt.allNames_qualify _ rest]

theorem Arm.allInner_qualify : ∀ (hidden : List String) (arms : List Arm),
    Arm.allInner (Arm.qualifyAll qualifier hidden arms) = Arm.allInner arms
  | _, [] => rfl
  | _, first :: rest => by
      rw [Arm.qualifyAll, Arm.allInner, Arm.allInner, Arm.inner_qualify _ first,
        Arm.allInner_qualify _ rest]

end

/-- Only what a statement at the top of a module declares itself is named anew. -/
theorem Stmt.inner_qualifyTop (qualifier : Qualifier) (s : Stmt) :
    (s.qualifyTop qualifier).inner = s.inner := by
  cases s with
  | declare decl => rfl
  | function header body =>
      cases body with
      | none => rfl
      | some body =>
          rw [Stmt.qualifyTop, Option.map_some, Stmt.inner, Stmt.inner, Stmt.allNames_qualify]
  | _ => exact Stmt.inner_qualify [] _

end Qualify

mutual

theorem Stmt.inner_detached : ∀ s : Stmt, s.detached.inner = s.inner
  | .expr _ | .comment _ | .use _ | .parameter _ | .returns _ | .declare _
  | .function _ none => rfl
  | .function header (some body) => by
      rw [Stmt.detached, Stmt.inner, Stmt.inner, Stmt.allNames_detached body,
        FunctionHeader.detached, List.map_map]
      rfl
  | .branch _ body alternate => by
      rw [Stmt.detached, Stmt.inner, Stmt.inner, Stmt.allNames_detached body,
        Alternate.inner_detached alternate]
  | .loop _ body => by rw [Stmt.detached, Stmt.inner, Stmt.inner, Stmt.allNames_detached body]
  | .switch _ arms => by rw [Stmt.detached, Stmt.inner, Stmt.inner, Arm.allInner_detached arms]
  | .arm single => by rw [Stmt.detached, Stmt.inner, Stmt.inner, Arm.inner_detached single]
  | .merged body => by rw [Stmt.detached, Stmt.inner, Stmt.inner, Stmt.allNames_detached body]

theorem Alternate.inner_detached : ∀ alternate : Alternate,
    alternate.detached.inner = alternate.inner
  | .none => rfl
  | .elseBranch _ body alternate => by
      rw [Alternate.detached, Alternate.inner, Alternate.inner, Stmt.allNames_detached body,
        Alternate.inner_detached alternate]
  | .otherwise body => by
      rw [Alternate.detached, Alternate.inner, Alternate.inner, Stmt.allNames_detached body]

theorem Arm.inner_detached : ∀ arm : Arm, arm.detached.inner = arm.inner
  | .value _ body | .otherwise body => by
      rw [Arm.detached, Arm.inner, Arm.inner, Stmt.allNames_detached body]

theorem Stmt.allNames_detached : ∀ body : List Stmt,
    Stmt.allNames (Stmt.allDetached body) = Stmt.allNames body
  | [] => rfl
  | first :: rest => by
      have declared : first.detached.declared? = first.declared? := by
        cases first with
        | function header body => cases body <;> rfl
        | _ => rfl
      rw [Stmt.allDetached, Stmt.allNames, Stmt.allNames, declared, Stmt.inner_detached first,
        Stmt.allNames_detached rest]

theorem Arm.allInner_detached : ∀ arms : List Arm,
    Arm.allInner (Arm.allDetached arms) = Arm.allInner arms
  | [] => rfl
  | first :: rest => by
      rw [Arm.allDetached, Arm.allInner, Arm.allInner, Arm.inner_detached first,
        Arm.allInner_detached rest]

end

/-! ### What inference accepts -/

section Walks

open Infer Walk

theorem Infer.sparesTypes_parameters : ∀ {parameters : List Parameter} {engine engine' : Engine},
    Yields (Infer.parameters parameters) engine () engine' →
      SparesTypes (parameters.map (·.name))
  | [], _, _, _ => sparesTypes_nil
  | _ :: _, _, _, yields => by
      obtain ⟨_, _, first, later⟩ := yields_bind.mp yields
      obtain ⟨_, _, notType, _⟩ := yields_parameter.mp first
      exact List.forall_mem_cons.mpr ⟨notType, Infer.sparesTypes_parameters later⟩

mutual

/-- What is declared in a statement that is walked is named like no type. -/
theorem Stmt.sparesTypes_inner : ∀ (s : Stmt) {engine engine' : Engine} {s' : Stmt},
    s.walk.Ends engine s' engine' → s.Loaded → SparesTypes s.inner
  | .expr _, _, _, _, _, _ | .comment _, _, _, _, _, _ | .use _, _, _, _, _, _
  | .returns _, _, _, _, _, _ | .declare _, _, _, _, _, _ | .function _ none, _, _, _, _, _ =>
      sparesTypes_nil
  | .parameter _, _, _, _, _, loaded | .arm _, _, _, _, _, loaded => by cases loaded
  | .function header (some body), _, _, _, ends, loaded => by
      obtain ⟨_, _, _, _, _, _, _, _, yields, ends, _⟩ := Stmt.ends_function.mp ends
      exact sparesTypes_append.mpr ⟨Infer.sparesTypes_parameters yields,
        Stmt.sparesTypes_allNames body ends loaded.2.2⟩
  | .branch _ body alternate, _, _, _, ends, loaded => by
      obtain ⟨_, _, _, _, _, inside, rest, _⟩ := Stmt.ends_branch.mp ends
      exact sparesTypes_append.mpr ⟨Stmt.sparesTypes_allNames body inside loaded.1,
        Alternate.sparesTypes_inner alternate rest loaded.2⟩
  | .loop _ body, _, _, _, ends, loaded => by
      obtain ⟨_, _, _, _, inside, _⟩ := Stmt.ends_loop.mp ends
      exact Stmt.sparesTypes_allNames body inside loaded
  | .switch _ arms, _, _, _, ends, loaded => by
      obtain ⟨_, _, _, _, inside, _⟩ := Stmt.ends_switch.mp ends
      exact Arm.sparesTypes_allInner arms inside loaded
  | .merged body, _, _, _, ends, loaded => by
      obtain ⟨_, inside, _⟩ := Stmt.ends_merged.mp ends
      exact Stmt.sparesTypes_allNames body inside loaded
termination_by structural part => part

theorem Alternate.sparesTypes_inner : ∀ (alternate : Alternate) {engine engine' : Engine}
    {alternate' : Alternate}, alternate.walk.Ends engine alternate' engine' → alternate.Loaded →
      SparesTypes alternate.inner
  | .none, _, _, _, _, _ => sparesTypes_nil
  | .elseBranch _ body alternate, _, _, _, ends, loaded => by
      obtain ⟨_, _, _, _, _, inside, rest, _⟩ := Alternate.ends_elseBranch.mp ends
      exact sparesTypes_append.mpr ⟨Stmt.sparesTypes_allNames body inside loaded.1,
        Alternate.sparesTypes_inner alternate rest loaded.2⟩
  | .otherwise body, _, _, _, ends, loaded => by
      obtain ⟨_, _, inside, _⟩ := Alternate.ends_otherwise.mp ends
      exact Stmt.sparesTypes_allNames body inside loaded
termination_by structural part => part

theorem Arm.sparesTypes_inner : ∀ (arm : Arm) {subject : Option Term} {engine engine' : Engine}
    {arm' : Arm}, (arm.walk subject).Ends engine arm' engine' → arm.Loaded → SparesTypes arm.inner
  | .value _ body, _, _, _, _, ends, loaded => by
      obtain ⟨_, _, _, _, inside, _⟩ := Arm.ends_value.mp ends
      exact Stmt.sparesTypes_allNames body inside loaded
  | .otherwise body, _, _, _, _, ends, loaded => by
      obtain ⟨_, _, inside, _⟩ := Arm.ends_otherwise.mp ends
      exact Stmt.sparesTypes_allNames body inside loaded
termination_by structural part => part

theorem Stmt.sparesTypes_allNames : ∀ (body : List Stmt) {engine engine' : Engine}
    {body' : List Stmt}, (Stmt.walkAll body).Ends engine body' engine' → Stmt.AllLoaded body →
      SparesTypes (Stmt.allNames body)
  | [], _, _, _, _, _ => sparesTypes_nil
  | first :: rest, _, _, _, ends, loaded => by
      obtain ⟨_, _, _, begins, goes, _⟩ := Stmt.ends_cons.mp ends
      refine sparesTypes_append.mpr ⟨sparesTypes_append.mpr ⟨fun name declared => ?_,
        Stmt.sparesTypes_inner first begins loaded.1⟩,
        Stmt.sparesTypes_allNames rest goes loaded.2⟩
      exact Stmt.notType_of_walk begins name (Option.mem_toList.mp declared)
termination_by structural part => part

theorem Arm.sparesTypes_allInner : ∀ (arms : List Arm) {subject : Option Term}
    {engine engine' : Engine} {arms' : List Arm},
    (Arm.walkAll subject arms).Ends engine arms' engine' → Arm.AllLoaded arms →
      SparesTypes (Arm.allInner arms)
  | [], _, _, _, _, _, _ => sparesTypes_nil
  | first :: rest, _, _, _, _, ends, loaded => by
      obtain ⟨_, _, _, begins, goes, _⟩ := Arm.ends_cons.mp ends
      exact sparesTypes_append.mpr ⟨Arm.sparesTypes_inner first begins loaded.1,
        Arm.sparesTypes_allInner rest goes loaded.2⟩
termination_by structural part => part

end

end Walks

theorem Program.sparesTypes_of_infer {program typed : Program} {order : ForwardOrder}
    (loaded : Stmt.AllLoaded program) (inferred : program.infer order = .ok typed) :
    SparesTypes (Stmt.allNames program) := by
  obtain ⟨part, last, ends, _⟩ := infer_eq_ok_iff.mp inferred
  exact Stmt.sparesTypes_allNames program ends loaded

/-! ### Merged modules -/

theorem Stmt.mem_allNames {body : List Stmt} {name : String} :
    name ∈ Stmt.allNames body ↔ ∃ s ∈ body, s.declared? = some name ∨ name ∈ s.inner := by
  induction body with
  | nil => simp [Stmt.allNames]
  | cons first rest ih => simp [Stmt.allNames, ih, or_assoc]

/-- What a merged module declares, the whole program declares. -/
theorem Stmt.allNames_subset_of_mem_allModules {program module : Program}
    (nested : module ∈ Stmt.allModules program) :
    Stmt.allNames module ⊆ Stmt.allNames program := by
  induction program using Program.nested with
  | step program ih =>
      obtain ⟨body, merged, inside⟩ := Stmt.mem_allModules.mp nested
      have within : Stmt.allNames body ⊆ Stmt.allNames program := fun name present =>
        Stmt.mem_allNames.mpr ⟨_, merged, .inr present⟩
      rcases inside with rfl | deeper
      · exact within
      · exact List.Subset.trans (ih body merged deeper) within

/-- The names that are declared inside of what a program states. -/
def Program.inner (program : Program) : List String := program.flatMap Stmt.inner

theorem Program.inner_detached (program : Program) : program.detached.inner = program.inner := by
  rw [detached, inner, inner, Stmt.allDetached_eq_map, List.flatMap_map]
  exact congrArg (List.flatMap · program) (funext Stmt.inner_detached)

section Own

variable {program : Program}

theorem Program.mem_own (parsed : Stmt.AllParsed program) {s : Stmt} (present : s ∈ program) :
    s ∈ program.own ∨ s.declared? = none ∧ s.inner = [] := by
  cases s with
  | use used => exact .inr ⟨rfl, rfl⟩
  | merged body => exact (Stmt.allParsed_iff.mp parsed _ present).elim
  | _ => exact .inl (List.mem_filter.mpr ⟨present, rfl⟩)

theorem Program.sparesTypes_inner (parsed : Stmt.AllParsed program)
    (own : ∀ s ∈ program.own, SparesTypes s.inner) : SparesTypes program.inner := by
  intro name inside
  obtain ⟨s, present, inside⟩ := List.mem_flatMap.mp inside
  rcases Program.mem_own parsed present with stated | ⟨_, none⟩
  · exact own s stated name inside
  · rw [none] at inside
    cases inside

theorem Program.sparesTypes_allNames (parsed : Stmt.AllParsed program)
    (declared : SparesTypes program.declared) (own : ∀ s ∈ program.own, SparesTypes s.inner) :
    SparesTypes (Stmt.allNames program) := by
  intro name present
  obtain ⟨s, stated, itself | inside⟩ := Stmt.mem_allNames.mp present
  · exact declared name (List.mem_filterMap.mpr ⟨s, stated, itself⟩)
  · exact Program.sparesTypes_inner parsed own name (List.mem_flatMap.mpr ⟨s, stated, inside⟩)

end Own

namespace Workspace

variable {workspace : Workspace} {resolver later : Resolver} {program merged module : Program}
  {met entered : List Use} {modules : List Program} {source file : String}

/-- What an entry declares at any depth is what it declares once its uses are resolved. -/
theorem sparesTypes_entry (reads : Program.read source file = .ok program)
    (resolves : workspace.resolve program resolver = .ok merged later)
    (spares : SparesTypes (Stmt.allNames merged)) : SparesTypes (Stmt.allNames program) := by
  obtain ⟨aliases, own⟩ := own_of_resolve resolves
  refine Program.sparesTypes_allNames (allParsed_of_read reads) ?_ fun s stated => ?_
  · rw [← declared_of_resolve resolves]
    intro name declared
    obtain ⟨s, stated, itself⟩ := List.mem_filterMap.mp declared
    exact spares name (Stmt.mem_allNames.mpr ⟨s, stated, .inl itself⟩)
  · have stated' : s.access aliases ∈ merged.own := own ▸ List.mem_map_of_mem stated
    rw [← Stmt.inner_access aliases s]
    intro name inside
    exact spares name (Stmt.mem_allNames.mpr ⟨_, List.mem_of_mem_filter stated', .inr inside⟩)

/-- What is declared inside of a file is declared so where the file is merged. -/
theorem Places.sparesTypes_inner {used : Use} {path : Path}
    (places : workspace.Places later used module) (spells : workspace.Spells path program)
    (same : (workspace.modulePath used.path).parts = path.parts)
    (spares : SparesTypes (Stmt.allNames module)) : SparesTypes program.inner := by
  obtain ⟨file, spells', own⟩ := places
  rw [← Program.inner_detached, ← spells.detached_eq spells' same.symm, Program.inner_detached]
  obtain ⟨_, _, reads⟩ := spells'
  refine Program.sparesTypes_inner (allParsed_of_read reads) ?_
  intro s stated
  have stated' := List.mem_of_mem_filter
    (own ▸ List.mem_map_of_mem stated : _ ∈ Program.own module)
  rw [← Stmt.inner_access (workspace.aliases later file) s, ← Stmt.inner_qualifyTop]
  exact fun name inside => spares name (Stmt.mem_allNames.mpr ⟨_, stated', .inr inside⟩)

end Workspace

/-- What is declared under a namespace is named like no type. -/
theorem Ty.isTypeName_qualifiedName (space name : String) :
    Ty.isTypeName (Expr.qualifiedName space name) = false := by
  rw [← Bool.not_eq_true]
  exact fun isType => (Qualifier.undotted_of_isTypeName isType).ne_qualifiedName rfl

namespace Analysis

variable {analysis : Analysis} {source file : String} {order : ForwardOrder}

/-- A source that stands alone declares nothing that is named like a type. -/
theorem sparesTypes_of_ofSource (accepts : ofSource order source file = .ok analysis) :
    ∃ program, Program.read source file = .ok program ∧ SparesTypes (Stmt.allNames program) := by
  cases reads : Program.read source file with
  | error error =>
      rw [ofSource, reads] at accepts
      cases accepts
  | ok program =>
      rw [ofSource_of_read reads] at accepts
      obtain ⟨_, _, parses⟩ := Program.exists_tokens_of_read reads
      have loaded := (Program.allParsed_of_parse parses).allLoaded
      exact ⟨program, rfl, Program.sparesTypes_of_infer loaded (ofProgram_eq_ok_iff.mp accepts).1⟩

theorem exists_of_ofModules {workspace : Workspace} {resolver : Resolver}
    (accepts : ofModules order workspace resolver source file = .ok analysis) :
    ∃ entry merged later, Program.read source file = .ok entry ∧
      workspace.resolve entry resolver = .ok merged later ∧
      ofProgram order merged = .ok analysis := by
  cases reads : Program.read source file with
  | error error =>
      rw [ofModules, reads] at accepts
      cases accepts
  | ok entry =>
      cases resolves : workspace.resolve entry resolver with
      | error error later =>
          rw [ofModules_eq_error_of_resolve reads resolves] at accepts
          cases accepts
      | ok merged later =>
          exact ⟨entry, merged, later, rfl, resolves,
            (ofModules_of_resolve reads resolves).symm.trans accepts⟩

/-- No declaration of an entry that is accepted is named like a type, and none inside of what is
declared in a file that is merged. At the top of such a file anything may be declared: it stands
under the namespace of the file, where no type is named. -/
theorem ofModules_spares_types (order : ForwardOrder) (workspace : Workspace)
    (resolver : Resolver) :
    (∀ source file analysis, ofSource order source file = .ok analysis →
      ∃ program, Program.read source file = .ok program ∧ SparesTypes (Stmt.allNames program)) ∧
    ∀ source file analysis, ofModules order workspace resolver source file = .ok analysis →
      ∃ entry merged later, Program.read source file = .ok entry ∧
        workspace.resolve entry resolver = .ok merged later ∧
        SparesTypes (Stmt.allNames entry) ∧
        ∀ path module, workspace.Reachable resolver entry path →
          resolver.isResolved path = false → workspace.Spells path module →
          SparesTypes module.inner ∧
          ∃ space, later.namespace? path = some space ∧ ∀ name ∈ module.declared,
            Expr.qualifiedName space name ∈ Stmt.allNames merged ∧
              Ty.isTypeName (Expr.qualifiedName space name) = false := by
  refine ⟨fun _ _ _ => sparesTypes_of_ofSource, fun source file analysis accepts => ?_⟩
  obtain ⟨entry, merged, later, reads, resolves, accepts⟩ := exists_of_ofModules accepts
  have loaded := Workspace.allLoaded_of_resolve resolves reads
  have spares := Program.sparesTypes_of_infer loaded (ofProgram_eq_ok_iff.mp accepts).1
  refine ⟨entry, merged, later, reads, resolves,
    Workspace.sparesTypes_entry reads resolves spares, fun path module reachable new spells => ?_⟩
  obtain ⟨met, entered, modules, once⟩ := Workspace.mergesOnce_of_resolve resolves
  obtain ⟨used, present, named⟩ := (once.reachable path).mpr ⟨reachable, new⟩
  have same := Workspace.names_iff.mp named
  obtain ⟨body, listed, places⟩ := exists_of_mem_left once.places used present
  have nested := (once.mem_allModules (Workspace.allParsed_of_read reads)).mpr listed
  have within := Stmt.allNames_subset_of_mem_allModules nested
  refine ⟨places.sparesTypes_inner spells same fun name inside => spares name (within inside),
    used.namespaceName, ?_, fun name declared => ⟨within ?_, Ty.isTypeName_qualifiedName _ name⟩⟩
  · rw [Resolver.namespace?, ← same]
    exact (once.first used present).2
  · have declared' : Expr.qualifiedName used.namespaceName name ∈ body.declared :=
      places.declared_eq spells same ▸ List.mem_map_of_mem declared
    obtain ⟨s, stated, itself⟩ := List.mem_filterMap.mp declared'
    exact Stmt.mem_allNames.mpr ⟨s, stated, .inl itself⟩

end Analysis

namespace TypeNamedConstant

/-- A constant that is named like a type, and a function that is not. -/
def source : String := "let int := 1\nfn f(a: int) -> int \x7b\nreturn a\n\x7d"

/-- One file. -/
def workspace : Workspace := ⟨[(⟨"app/m.lang"⟩, source)], ⟨"app"⟩, ⟨"std"⟩⟩

/-- What the file spells. -/
def module : Program :=
  [.declare ⟨"int", true, none, some (.number "1"), ⟨"app/m.lang", 0⟩, none⟩,
   .function ⟨"f", [⟨"a", "int", "app/m.lang", 21⟩], some ⟨"int", "app/m.lang", 29⟩, [],
    ⟨"app/m.lang", 13⟩, none⟩ (some [.returns (some (.identifier "a" ⟨"app/m.lang", 42⟩))])]

/-- The use of the file. -/
def used : Use := ⟨"m", none, ⟨"main", 0⟩⟩

/-- A program that uses what the file declares. -/
def entry : Program :=
  [.use used, .declare ⟨"n", true, none, some (.call (.member (.identifier "m" ⟨"main", 15⟩) "f")
    [.member (.identifier "m" ⟨"main", 19⟩) "int"]), ⟨"main", 6⟩, none⟩]

end TypeNamedConstant

open TypeNamedConstant in
/-- Alone, a file may not declare a constant that is named like a type. Merged, it may, but the
parameter of its function is still checked. -/
theorem Analysis.ofModules_spares_types_constant :
    ofSource .byUse source "app/m.lang" = .error ⟨.builtinRedefined "int", ⟨"app/m.lang", 0⟩⟩ ∧
      ∃ analysis merged later,
        ofModules .byUse workspace .start "use m\nlet n := m.f(m.int)" "main" = .ok analysis ∧
        workspace.resolve entry .start = .ok merged later ∧
        SparesTypes (Stmt.allNames entry) ∧ SparesTypes module.inner ∧
        ∃ space, later.namespace? ⟨"app/m.lang"⟩ = some space ∧ ∀ name ∈ module.declared,
          Expr.qualifiedName space name ∈ Stmt.allNames merged ∧
            Ty.isTypeName (Expr.qualifiedName space name) = false := by
  have reads : Program.read "use m\nlet n := m.f(m.int)" "main" = .ok entry :=
    Program.read_of_toOption (by decide +kernel)
  have spelled : Program.read source "app/m.lang" = .ok module :=
    Program.read_of_toOption (by decide +kernel)
  have spells : workspace.Spells ⟨"app/m.lang"⟩ module := ⟨source, by decide +kernel, spelled⟩
  have alone : ofSource .byUse source "app/m.lang" =
      .error ⟨.builtinRedefined "int", ⟨"app/m.lang", 0⟩⟩ := by
    have rejects : module.infer .byUse = .error ⟨.builtinRedefined "int", ⟨"app/m.lang", 0⟩⟩ := by
      decide +kernel
    rw [ofSource_of_read spelled, ofProgram, rejects]
    rfl
  have accepted :
      (ofModules .byUse workspace .start "use m\nlet n := m.f(m.int)" "main").isOk = true := by
    decide +kernel
  obtain ⟨analysis, accepts⟩ : ∃ analysis,
      ofModules .byUse workspace .start "use m\nlet n := m.f(m.int)" "main" = .ok analysis := by
    cases found : ofModules .byUse workspace .start "use m\nlet n := m.f(m.int)" "main" with
    | ok analysis => exact ⟨analysis, rfl⟩
    | error error =>
        rw [found] at accepted
        cases accepted
  obtain ⟨entry', merged, later, reads', resolves, spares, inside⟩ :=
    (ofModules_spares_types .byUse workspace .start).2 _ _ _ accepts
  obtain rfl : entry = entry' := Except.ok.inj (reads.symm.trans reads')
  have named : workspace.names ⟨"app/m.lang"⟩ used = true := by decide +kernel
  obtain ⟨spares', merges⟩ :=
    inside ⟨"app/m.lang"⟩ module (.entry List.mem_cons_self named) rfl spells
  exact ⟨alone, analysis, merged, later, accepts, resolves, spares, spares', merges⟩

end SmallLang
