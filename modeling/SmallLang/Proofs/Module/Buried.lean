import SmallLang.Proofs.Module.Entry

/-!
# Uses that are not resolved

A use may stand wherever a statement may, but only those at the top of a file give way to modules. A
use inside of another statement is buried there: it stays in the program and names no module. So a
resolved program is without uses exactly if no file in it has one buried.
-/

set_option autoImplicit false

namespace SmallLang

mutual

/-- The uses in a statement, at any depth. -/
def Stmt.usesWithin : Stmt → List Use
  | .use used => [used]
  | .function _ (some body) => Stmt.allUsesWithin body
  | .branch _ body alternate => Stmt.allUsesWithin body ++ alternate.usesWithin
  | .loop _ body => Stmt.allUsesWithin body
  | .switch _ arms => Arm.allUsesWithin arms
  | .arm single => single.usesWithin
  | .merged body => Stmt.allUsesWithin body
  | .expr _ | .comment _ | .parameter _ | .returns _ | .declare _ | .function _ none => []

def Alternate.usesWithin : Alternate → List Use
  | .none => []
  | .elseBranch _ body alternate => Stmt.allUsesWithin body ++ alternate.usesWithin
  | .otherwise body => Stmt.allUsesWithin body

def Arm.usesWithin : Arm → List Use
  | .value _ body => Stmt.allUsesWithin body
  | .otherwise body => Stmt.allUsesWithin body

/-- The uses in statements, at any depth. -/
def Stmt.allUsesWithin : List Stmt → List Use
  | [] => []
  | first :: rest => first.usesWithin ++ Stmt.allUsesWithin rest

def Arm.allUsesWithin : List Arm → List Use
  | [] => []
  | first :: rest => first.usesWithin ++ Arm.allUsesWithin rest

end

/-- The uses that a program has inside of its own statements. -/
def Program.buriedUses (program : Program) : List Use := Stmt.allUsesWithin program.own

/-! ### Rewriting keeps uses -/

section Rewriting

variable (aliases : Aliases) (qualifier : Qualifier)

mutual

theorem Stmt.usesWithin_access : ∀ s : Stmt, (s.access aliases).usesWithin = s.usesWithin
  | .expr _ | .comment _ | .use _ | .parameter _ | .returns _ | .declare _ | .function _ none
  | .merged _ => rfl
  | .function _ (some body) => Stmt.allUsesWithin_access body
  | .branch _ body alternate => by
      rw [Stmt.access, Stmt.usesWithin, Stmt.usesWithin, Stmt.allUsesWithin_access body,
        Alternate.usesWithin_access alternate]
  | .loop _ body => Stmt.allUsesWithin_access body
  | .switch _ arms => Arm.allUsesWithin_access arms
  | .arm single => Arm.usesWithin_access single

theorem Alternate.usesWithin_access : ∀ alternate : Alternate,
    (alternate.access aliases).usesWithin = alternate.usesWithin
  | .none => rfl
  | .elseBranch _ body alternate => by
      rw [Alternate.access, Alternate.usesWithin, Alternate.usesWithin,
        Stmt.allUsesWithin_access body, Alternate.usesWithin_access alternate]
  | .otherwise body => Stmt.allUsesWithin_access body

theorem Arm.usesWithin_access : ∀ arm : Arm, (arm.access aliases).usesWithin = arm.usesWithin
  | .value _ body | .otherwise body => Stmt.allUsesWithin_access body

theorem Stmt.allUsesWithin_access : ∀ body : List Stmt,
    Stmt.allUsesWithin (Stmt.accessAll aliases body) = Stmt.allUsesWithin body
  | [] => rfl
  | first :: rest => by
      rw [Stmt.accessAll, Stmt.allUsesWithin, Stmt.allUsesWithin, Stmt.usesWithin_access first,
        Stmt.allUsesWithin_access rest]

theorem Arm.allUsesWithin_access : ∀ arms : List Arm,
    Arm.allUsesWithin (Arm.accessAll aliases arms) = Arm.allUsesWithin arms
  | [] => rfl
  | first :: rest => by
      rw [Arm.accessAll, Arm.allUsesWithin, Arm.allUsesWithin, Arm.usesWithin_access first,
        Arm.allUsesWithin_access rest]

end

mutual

theorem Stmt.usesWithin_qualify : ∀ (s : Stmt) (hidden : List String),
    (s.qualify qualifier hidden).usesWithin = s.usesWithin
  | .expr _, _ | .comment _, _ | .use _, _ | .parameter _, _ | .returns _, _ | .declare _, _
  | .function _ none, _ | .merged _, _ => rfl
  | .function _ (some body), _ => Stmt.allUsesWithin_qualify body _
  | .branch _ body alternate, hidden => by
      rw [Stmt.qualify, Stmt.usesWithin, Stmt.usesWithin, Stmt.allUsesWithin_qualify body,
        Alternate.usesWithin_qualify alternate]
  | .loop _ body, _ => Stmt.allUsesWithin_qualify body _
  | .switch _ arms, _ => Arm.allUsesWithin_qualify arms _
  | .arm single, _ => Arm.usesWithin_qualify single _

theorem Alternate.usesWithin_qualify : ∀ (alternate : Alternate) (hidden : List String),
    (alternate.qualify qualifier hidden).usesWithin = alternate.usesWithin
  | .none, _ => rfl
  | .elseBranch _ body alternate, _ => by
      rw [Alternate.qualify, Alternate.usesWithin, Alternate.usesWithin,
        Stmt.allUsesWithin_qualify body, Alternate.usesWithin_qualify alternate]
  | .otherwise body, _ => Stmt.allUsesWithin_qualify body _

theorem Arm.usesWithin_qualify : ∀ (arm : Arm) (hidden : List String),
    (arm.qualify qualifier hidden).usesWithin = arm.usesWithin
  | .value _ body, _ | .otherwise body, _ => Stmt.allUsesWithin_qualify body _

theorem Stmt.allUsesWithin_qualify : ∀ (body : List Stmt) (hidden : List String),
    Stmt.allUsesWithin (Stmt.qualifyAll qualifier hidden body) = Stmt.allUsesWithin body
  | [], _ => rfl
  | first :: rest, _ => by
      rw [Stmt.qualifyAll, Stmt.allUsesWithin, Stmt.allUsesWithin, Stmt.usesWithin_qualify first,
        Stmt.allUsesWithin_qualify rest]

theorem Arm.allUsesWithin_qualify : ∀ (arms : List Arm) (hidden : List String),
    Arm.allUsesWithin (Arm.qualifyAll qualifier hidden arms) = Arm.allUsesWithin arms
  | [], _ => rfl
  | first :: rest, _ => by
      rw [Arm.qualifyAll, Arm.allUsesWithin, Arm.allUsesWithin, Arm.usesWithin_qualify first,
        Arm.allUsesWithin_qualify rest]

end

theorem Stmt.usesWithin_qualifyTop (s : Stmt) :
    (s.qualifyTop qualifier).usesWithin = s.usesWithin := by
  cases s with
  | declare decl => rfl
  | function header body =>
      cases body with
      | none => rfl
      | some body => exact Stmt.allUsesWithin_qualify qualifier body _
  | _ => exact Stmt.usesWithin_qualify qualifier _ []

end Rewriting

section Programs

variable {program : Program} {used : Use}

theorem Stmt.mem_allUsesWithin :
    used ∈ Stmt.allUsesWithin program ↔ ∃ s ∈ program, used ∈ s.usesWithin := by
  induction program with
  | nil => simp [Stmt.allUsesWithin]
  | cons first rest ih => simp [Stmt.allUsesWithin, ih]

theorem Program.mem_uses : used ∈ program.uses ↔ .use used ∈ program := by
  rw [uses, List.mem_filterMap]
  constructor
  · rintro ⟨s, present, same⟩
    split at same
    · cases same
      exact present
    · cases same
  · exact fun present => ⟨_, present, rfl⟩

/-- Where statements are rewritten one by one and keep their uses, a program has the same uses
buried. -/
theorem Program.buriedUses_eq {module : Program} {rewrite : Stmt → Stmt}
    (same : module.own = program.own.map rewrite)
    (keeps : ∀ s, (rewrite s).usesWithin = s.usesWithin) :
    module.buriedUses = program.buriedUses := by
  rw [buriedUses, same, buriedUses]
  induction program.own with
  | nil => rfl
  | cons first rest ih =>
      rw [List.map_cons, Stmt.allUsesWithin, Stmt.allUsesWithin, keeps, ih]

/-- The uses in a program stand at the top of it or of a module in it, or are buried in one of
these. -/
theorem Program.mem_allUsesWithin : used ∈ Stmt.allUsesWithin program ↔
    ∃ part ∈ program :: Stmt.allModules program, used ∈ part.uses ∨ used ∈ part.buriedUses := by
  induction program using Program.nested with
  | step program ih =>
      rw [Stmt.mem_allUsesWithin]
      constructor
      · rintro ⟨s, present, inside⟩
        cases s with
        | use other =>
            obtain rfl := List.mem_singleton.mp inside
            exact ⟨program, List.mem_cons_self, .inl (mem_uses.mpr present)⟩
        | merged body =>
            obtain ⟨part, among, uses⟩ := (ih body present).mp inside
            have nested := Stmt.mem_allModules.mpr ⟨body, present, List.mem_cons.mp among⟩
            exact ⟨part, List.mem_cons_of_mem _ nested, uses⟩
        | _ =>
            have own : _ ∈ program.own := List.mem_filter.mpr ⟨present, rfl⟩
            exact ⟨program, List.mem_cons_self, .inr (Stmt.mem_allUsesWithin.mpr ⟨_, own, inside⟩)⟩
      · rintro ⟨part, among, uses⟩
        rcases List.mem_cons.mp among with rfl | nested
        · rcases uses with top | buried
          · exact ⟨_, mem_uses.mp top, List.mem_singleton_self _⟩
          · obtain ⟨s, own, inside⟩ := Stmt.mem_allUsesWithin.mp buried
            exact ⟨s, List.mem_of_mem_filter own, inside⟩
        · obtain ⟨body, present, deeper⟩ := Stmt.mem_allModules.mp nested
          have inside := (ih body present).mpr ⟨part, List.mem_cons.mpr deeper, uses⟩
          exact ⟨_, present, inside⟩

theorem Program.uses_access (aliases : Aliases) (program : Program) :
    Program.uses (Stmt.accessAll aliases program) = program.uses := by
  rw [Stmt.accessAll_eq_map, uses, List.filterMap_map]
  refine congrArg (List.filterMap · program) (funext fun s => ?_)
  cases s with
  | function header body => cases body <;> rfl
  | _ => rfl

theorem Program.uses_qualified (program : Program) (space : String) :
    (program.qualified space).uses = program.uses := by
  rw [qualified, uses, List.filterMap_map]
  refine congrArg (List.filterMap · program) (funext fun s => ?_)
  cases s with
  | function header body => cases body <;> rfl
  | _ => rfl

end Programs

namespace Workspace

variable {workspace : Workspace} {resolver later : Resolver} {program body : Program}
  {aliases : Aliases}

/-- No use is left at the top of what replaces a program, nor of a module that was merged. -/
theorem Replaces.unused (replaces : workspace.Replaces resolver program body aliases later) :
    body.uses = [] ∧ ∀ module ∈ Stmt.allModules body,
      module ∈ Stmt.allModules program ∨ module.uses = [] := by
  induction replaces with
  | nil => exact ⟨rfl, List.forall_mem_nil _⟩
  | dropped _ _ ih => exact ih
  | @merged resolver between _ used rest source module inner body names _ _ _ reads _ _ inside
      others =>
      refine ⟨others.1, ?_⟩
      rw [Stmt.allModules, Stmt.modules, Program.modules_qualified, Stmt.allModules_access]
      rw [allModules_of_allParsed (allParsed_of_read reads)] at inside
      refine List.forall_mem_append.mpr ⟨List.forall_mem_cons.mpr ⟨.inr ?_, ?_⟩, others.2⟩
      · rw [Program.uses_qualified, Program.uses_access, inside.1]
      · exact fun module nested => .inr ((inside.2 module nested).resolve_left List.not_mem_nil)
  | @kept _ _ s rest body _ notUse _ ih =>
      refine ⟨(Program.uses_cons notUse body).trans ih.1, ?_⟩
      refine List.forall_mem_append.mpr ⟨fun module present => ?_, fun module present => ?_⟩
      · exact .inl (List.mem_append_left _ present)
      · exact (ih.2 module present).imp_left (List.mem_append_right _)

/-- A module has the uses buried that its file has. -/
theorem Places.buriedUses_eq {used : Use} {module : Program}
    (places : workspace.Places later used module) :
    ∃ file, workspace.Spells (workspace.modulePath used.path) file ∧
      module.buriedUses = file.buriedUses := by
  obtain ⟨file, spells, own⟩ := places
  refine ⟨file, spells, Program.buriedUses_eq own fun s => ?_⟩
  rw [Stmt.usesWithin_qualifyTop, Stmt.usesWithin_access]

theorem unused_of_resolve (ends : workspace.resolve program resolver = .ok body later) :
    body.uses = [] ∧ ∀ module ∈ Stmt.allModules body,
      module ∈ Stmt.allModules program ∨ module.uses = [] := by
  obtain ⟨_, _, replaces, rfl⟩ := replaces_of_resolve ends
  rw [Program.uses_access, Stmt.allModules_access]
  exact replaces.unused

/-- A resolved program has no use at its top, nor at that of any module in it: each has given way to
its module, or was dropped since the file was done. What is left of uses are those that are buried
in the program and in the files that were entered. -/
theorem resolve_leaves_buried {tokens : List Token} {entry merged : Program}
    (parsed : Program.parse tokens = .ok entry)
    (ends : workspace.resolve entry resolver = .ok merged later) :
    (∃ body aliases, workspace.Replaces resolver entry body aliases later ∧
      merged = Stmt.accessAll aliases body) ∧
    (merged.uses = [] ∧ ∀ module ∈ Stmt.allModules merged, module.uses = []) ∧
    ∃ met entered modules, workspace.MergesOnce resolver later entry merged met entered modules ∧
      ∀ used, used ∈ Stmt.allUsesWithin merged ↔ used ∈ entry.buriedUses ∨
        ∃ outer ∈ entered, ∃ file, workspace.Spells (workspace.modulePath outer.path) file ∧
          used ∈ file.buriedUses := by
  have flat : Stmt.allModules entry = [] :=
    allModules_of_allParsed (Program.allParsed_of_parse parsed)
  obtain ⟨met, entered, modules, once⟩ := mergesOnce_of_resolve ends
  obtain ⟨top, inside⟩ := unused_of_resolve ends
  have modulesUnused : ∀ module ∈ Stmt.allModules merged, module.uses = [] := by
    intro module nested
    refine (inside module nested).resolve_left ?_
    rw [flat]
    exact List.not_mem_nil
  refine ⟨replaces_of_resolve ends, ⟨top, modulesUnused⟩, met, entered, modules, once, ?_⟩
  intro used
  obtain ⟨aliases, own⟩ := own_of_resolve ends
  have entryUses := Program.buriedUses_eq own (Stmt.usesWithin_access aliases)
  have nested : ∀ module, module ∈ Stmt.allModules merged ↔ module ∈ modules := by
    intro module
    rw [once.nested.mem_iff, flat, List.append_nil]
  rw [Program.mem_allUsesWithin]
  constructor
  · rintro ⟨part, among, uses⟩
    rcases List.mem_cons.mp among with rfl | present
    · rw [top] at uses
      exact .inl (entryUses ▸ uses.resolve_left List.not_mem_nil)
    · rw [modulesUnused part present] at uses
      obtain ⟨outer, met', places⟩ :=
        exists_of_mem_right once.places part ((nested part).mp present)
      obtain ⟨file, spells, same⟩ := places.buriedUses_eq
      exact .inr ⟨outer, met', file, spells, same ▸ uses.resolve_left List.not_mem_nil⟩
  · rintro (buried | ⟨outer, met', file, spells, buried⟩)
    · exact ⟨merged, List.mem_cons_self, .inr (entryUses ▸ buried)⟩
    · obtain ⟨module, present, places⟩ := exists_of_mem_left once.places outer met'
      obtain ⟨file', spells', same⟩ := places.buriedUses_eq
      rw [spells.unique spells', ← same] at buried
      exact ⟨module, List.mem_cons_of_mem _ ((nested module).mpr present), .inr buried⟩

end Workspace

namespace TwoBuriedUses

/-- A file that uses another one in a loop. -/
def workspace : Workspace :=
  ⟨[(⟨"app/a.lang"⟩, "while true \x7b\nuse b\n\x7d"), (⟨"app/b.lang"⟩, "let x := 1")], ⟨"app"⟩,
    ⟨"std"⟩⟩

def buried (file : String) (offset : Nat) : Use := ⟨"b", none, ⟨file, offset⟩⟩

/-- A function that has a use in its body. -/
def function : Stmt :=
  .function ⟨"f", [], none, [], ⟨"app/main.lang", 6⟩, none⟩
    (some [.use (buried "app/main.lang" 15)])

def entry : Program := [.use ⟨"a", none, ⟨"app/main.lang", 0⟩⟩, function]

def merged : Program :=
  [.merged [.loop (.boolean true) [.use (buried "app/a.lang" 13)]], function]

def later : Resolver := ⟨[(["app", "a.lang"], some "a")]⟩

end TwoBuriedUses

open TwoBuriedUses in
/-- A use in the body of a function and one in a loop of a merged file stay where they are, though
the file that they name exists. -/
theorem Workspace.resolve_leaves_buried_in_bodies :
    Program.read "use a\nfn f() \x7b\nuse b\n\x7d" "app/main.lang" = .ok entry ∧
      workspace.resolve entry .start = .ok merged later ∧
      Stmt.allUsesWithin merged = [buried "app/a.lang" 13, buried "app/main.lang" 15] ∧
      later.isResolved (workspace.modulePath "b") = false ∧
      ∃ met entered modules, workspace.MergesOnce .start later entry merged met entered modules ∧
        ∀ used, used ∈ Stmt.allUsesWithin merged ↔ used ∈ entry.buriedUses ∨
          ∃ outer ∈ entered, ∃ file, workspace.Spells (workspace.modulePath outer.path) file ∧
            used ∈ file.buriedUses := by
  have reads : Program.read "use a\nfn f() \x7b\nuse b\n\x7d" "app/main.lang" = .ok entry :=
    Program.read_of_toOption (by decide +kernel)
  have resolves : workspace.resolve entry .start = .ok merged later :=
    Workspace.resolve_of_run (by decide +kernel)
  obtain ⟨tokens, _, parsed⟩ := Program.exists_tokens_of_read reads
  exact ⟨reads, resolves, rfl, by decide +kernel,
    (Workspace.resolve_leaves_buried parsed resolves).2.2⟩

end SmallLang
