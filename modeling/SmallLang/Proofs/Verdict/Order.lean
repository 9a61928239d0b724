import SmallLang.Proofs.Module.Loaded
import SmallLang.Proofs.Module.Nested
import SmallLang.Proofs.Tree.Declarations
import SmallLang.Proofs.Verdict.Hoisting
import SmallLang.Tree.Equality

/-!
# The order of a program

A root statement whose declarations were made ahead of its turn leaves the names as they are. So the
check of a program does not depend on the order of its statements: what it complains of is the same,
though expressions without a position may be blamed at another place.
-/

set_option autoImplicit false

namespace SmallLang

mutual

/-- A root statement in which each variable of the root has a type of its own. -/
def Stmt.RootTyped : Stmt → Prop
  | .declare decl => decl.isTyped = true
  | .merged body => Stmt.AllRootTyped body
  | .expr _ | .comment _ | .use _ | .parameter _ | .returns _ | .function .. | .branch ..
  | .loop .. | .switch .. | .arm _ => True

/-- Root statements in which each variable of the root has a type of its own. -/
def Stmt.AllRootTyped : List Stmt → Prop
  | [] => True
  | first :: rest => first.RootTyped ∧ Stmt.AllRootTyped rest

end

theorem Stmt.allRootTyped_iff {body : List Stmt} :
    Stmt.AllRootTyped body ↔ ∀ s ∈ body, s.RootTyped := by
  induction body with
  | nil => simp [Stmt.AllRootTyped]
  | cons first rest ih => simp [Stmt.AllRootTyped, ih]

theorem Stmt.allDeclares_eq_flatMap (body : List Stmt) :
    Stmt.allDeclares body = body.flatMap Stmt.declares := by
  induction body with
  | nil => rfl
  | cons first rest ih => rw [Stmt.allDeclares, List.flatMap_cons, ih]

open Check

section Turns

variable {base : Context}

theorem Check.Context.Alike.left {context : Context} (alike : base.Alike context)
    (last : Context) : base.Alike (context.leave last) :=
  ⟨alike.scopes, alike.returns⟩

theorem Check.ensures_declaration (root : base.scopes.isRoot = true) {context : Context}
    (alike : base.Alike context) {decl : Variable} (typed : decl.isTyped = true) :
    Ensures (declaration context decl) base.Alike := by
  unfold declaration
  dsimp only
  split
  · exact ensures_fail
  · refine ensures_bind fun annotated => ensures_bind fun value => ensures_bind ?_
    intro _
    rw [declareVariable, ← alike.scopes.isRoot_eq, root, typed]
    exact ensures_pure ⟨alike.scopes, alike.returns⟩

theorem Check.ensures_function (root : base.scopes.isRoot = true) {context : Context}
    (alike : base.Alike context) (header : FunctionHeader) :
    Ensures (Check.function context header) base.Alike := by
  unfold Check.function
  dsimp only
  rw [← alike.scopes.isRoot_eq, root]
  exact ensures_pure ⟨alike.scopes, alike.returns⟩

/-- Whatever follows a branch leaves the names as they are. -/
theorem Alternate.ensures_check : ∀ (alternate : Alternate) {context : Context},
    base.Alike context → Ensures (alternate.check context) base.Alike
  | .none, _, alike => ensures_pure alike
  | .elseBranch _ _ alternate, _, alike =>
      ensures_bind fun _ => ensures_bind fun last =>
        Alternate.ensures_check alternate (alike.left last)
  | .otherwise _, _, alike => ensures_bind fun last => ensures_pure (alike.left last)

/-- An arm leaves the names as they are. -/
theorem Arm.ensures_check (subject : Option Ty) (arm : Arm) {context : Context}
    (alike : base.Alike context) : Ensures (arm.check context subject) base.Alike := by
  cases arm with
  | value => exact ensures_bind fun _ => ensures_bind fun last => ensures_pure (alike.left last)
  | otherwise => exact ensures_bind fun last => ensures_pure (alike.left last)

theorem Arm.ensures_checkAll (subject : Option Ty) : ∀ (arms : List Arm) {context : Context},
    base.Alike context → Ensures (Arm.checkAll context subject arms) base.Alike
  | [], _, alike => ensures_pure alike
  | first :: rest, _, alike =>
      (Arm.ensures_check subject first alike).bind fun _ alike' =>
        Arm.ensures_checkAll subject rest alike'

mutual

/-- A root statement whose declarations were hoisted leaves the names as they are. -/
theorem Stmt.ensures_check (root : base.scopes.isRoot = true) : ∀ (s : Stmt) {context : Context},
    s.bare.Loaded → s.RootTyped → base.Alike context → Ensures (s.check context) base.Alike
  | .expr _, _, _, _, alike | .returns _, _, _, _, alike => ensures_bind fun _ => ensures_pure alike
  | .comment _, _, _, _, alike | .use _, _, _, _, alike => ensures_pure alike
  | .parameter _, _, loaded, _, _ => loaded.elim
  | .arm _, _, loaded, _, _ => loaded.elim
  | .declare _, _, _, typed, alike => ensures_declaration root alike typed
  | .function header none, _, _, _, alike => ensures_function root alike header
  | .function header (some _), _, _, _, alike =>
      (ensures_function root alike header).bind fun _ alike' =>
        ensures_bind fun _ => ensures_bind fun last => ensures_pure (alike'.left last)
  | .branch _ _ alternate, _, _, _, alike =>
      ensures_bind fun _ => ensures_bind fun last => alternate.ensures_check (alike.left last)
  | .loop _ _, _, _, _, alike =>
      ensures_bind fun _ => ensures_bind fun last => ensures_pure (alike.left last)
  | .switch _ arms, _, _, _, alike => ensures_bind fun type => Arm.ensures_checkAll type arms alike
  | .merged body, _, loaded, typed, alike => Stmt.ensures_checkAll root body loaded typed alike

theorem Stmt.ensures_checkAll (root : base.scopes.isRoot = true) :
    ∀ (body : List Stmt) {context : Context}, Stmt.AllLoaded (Stmt.allBare body) →
      Stmt.AllRootTyped body → base.Alike context → Ensures (Stmt.checkAll context body) base.Alike
  | [], _, _, _, alike => ensures_pure alike
  | first :: rest, _, loaded, typed, alike =>
      (Stmt.ensures_check root first loaded.1 typed.1 alike).bind fun _ alike' =>
        Stmt.ensures_checkAll root rest loaded.2 typed.2 alike'

end

/-- Checking root statements one after the other is checking each of them on its own. -/
theorem Stmt.agree_checkAll_all (root : base.scopes.isRoot = true) :
    ∀ (body : List Stmt) {context : Context}, Stmt.AllLoaded (Stmt.allBare body) →
      Stmt.AllRootTyped body → base.Alike context →
        Agree (fun last _ => base.Alike last) (Stmt.checkAll context body)
          (all (body.map (·.check base)))
  | [], _, _, _, alike => agree_pure alike
  | first :: rest, _, loaded, typed, alike => by
      have turn := (Stmt.agree_check first alike.symm).ensuring
        (Stmt.ensures_check root first loaded.1 typed.1 alike)
      refine turn.bind fun next _ ⟨_, alike'⟩ => ?_
      have others := Stmt.agree_checkAll_all root rest loaded.2 typed.2 alike'
      exact others.returning fun _ _ ends => ends

end Turns

theorem Program.check_eq_ok_iff {program : Program} {reports : List Error} :
    program.check = .ok reports ↔ ∃ hoisted checked,
      (Stmt.hoistAll .start program).Finds hoisted ∧
      (Stmt.checkAll hoisted.value program).Finds checked ∧
      reports = hoisted.reports ++ checked.reports := by
  have whole : program.check = .ok reports ↔ ∃ found, Finds (do
      let context ← Stmt.hoistAll .start program
      Stmt.checkAll context program) found ∧ reports = found.reports := by
    unfold Program.check
    dsimp only
    generalize (do
      let context ← Stmt.hoistAll .start program
      Stmt.checkAll context program : Check Context) = result
    cases result with
    | error error => exact ⟨nofun, nofun⟩
    | ok found =>
        constructor
        · rintro ⟨⟩
          exact ⟨found, rfl, rfl⟩
        · rintro ⟨_, ⟨⟩, rfl⟩
          rfl
  rw [whole]
  simp only [finds_bind_iff]
  constructor
  · rintro ⟨_, ⟨hoisted, checked, hoists, checks, rfl⟩, rfl⟩
    exact ⟨hoisted, checked, hoists, checks, rfl⟩
  · rintro ⟨hoisted, checked, hoists, checks, rfl⟩
    exact ⟨_, ⟨hoisted, checked, hoists, checks, rfl⟩, rfl⟩

/-- The statements of a program can be put in any order. If no name is declared twice in the root,
and its variables have types of their own, the check goes on to the end in each order, and has the
same complaints. Their order and their places may be others. -/
theorem Program.check_perm {program program' : Program} {reports : List Error}
    (loaded : Program.Loaded (Stmt.allBare program)) (typed : Stmt.AllRootTyped program)
    (distinct : (Stmt.allDeclares program).Nodup) (perm : program.Perm program')
    (ends : program.check = .ok reports) :
    ∃ reports', program'.check = .ok reports' ∧
      (reports'.map (·.cause)).Perm (reports.map (·.cause)) := by
  have distinct' : (Stmt.allDeclares program').Nodup := by
    rw [Stmt.allDeclares_eq_flatMap] at distinct ⊢
    exact (perm.flatMap_right _).nodup_iff.mp distinct
  have bare := loaded.allLoaded
  have bare' : Stmt.AllLoaded (Stmt.allBare program') := by
    rw [Stmt.allLoaded_iff, Stmt.allBare_eq_map] at bare ⊢
    exact fun s present => bare s ((perm.map _).mem_iff.mpr present)
  have typed' : Stmt.AllRootTyped program' :=
    Stmt.allRootTyped_iff.mpr fun s present =>
      Stmt.allRootTyped_iff.mp typed s (perm.mem_iff.mpr present)
  obtain ⟨hoisted, checked, hoists, checks, rfl⟩ := Program.check_eq_ok_iff.mp ends
  obtain ⟨hoisted', parts, parts', hoists', joins, joins', same, complaints⟩ :=
    (Stmt.agree_hoistAll_all program Context.joins_start (Context.frees_start _)
      distinct).exists_reordered (Stmt.agree_hoistAll_all program' Context.joins_start
        (Context.frees_start _) distinct') (perm.map _) hoists
  rw [List.append_nil] at joins joins'
  -- Both orders start the check with names that mean the same, and no turn changes them.
  have root := joins.outermost.isRoot
  have alike : hoisted.value.Alike hoisted'.value := joins.alike (joins'.perm same)
  obtain ⟨checked', _, _, checks', _, _, _, complaints'⟩ :=
    (Stmt.agree_checkAll_all root program bare typed (.refl _)).exists_reordered
      (Stmt.agree_checkAll_all root program' bare' typed' alike) (perm.map _) checks
  refine ⟨_, Program.check_eq_ok_iff.mpr ⟨hoisted', checked', hoists', checks', rfl⟩, ?_⟩
  rw [List.map_append, List.map_append]
  exact complaints.append complaints'

namespace ThreeComplaints

def early : Stmt := .expr (.call (.identifier "f" ⟨"main", 0⟩) [.number "2"])

def flawed : Stmt :=
  .declare ⟨"x", true, some ⟨"int", ⟨"main", 13⟩⟩, some (.boolean true), ⟨"main", 5⟩, none⟩

def late : Stmt :=
  .function ⟨"f", [⟨"n", ⟨"string", ⟨"main", 33⟩⟩⟩], some ⟨"void", ⟨"main", 44⟩⟩, [], ⟨"main", 24⟩,
    none⟩ (some [.returns (some (.identifier "x" ⟨"main", 58⟩))])

def source : String :=
  "f(2)\nlet x : int = true\nfn f(n : string) -> void \x7b\nreturn x\n\x7d"

end ThreeComplaints

open ThreeComplaints in
/-- A call of a function that is declared behind it, and the same program the other way round. The
argument has no position, and is blamed on whatever declaration was the latest. -/
theorem Program.check_perm_reversed :
    Program.read source "main" = .ok [early, flawed, late] ∧
      Program.check [early, flawed, late] =
        .ok [⟨.argumentMismatch "string" "int", .null⟩, ⟨.typeMismatch "int" "bool", ⟨"main", 5⟩⟩,
          ⟨.typeMismatch "void" "int", ⟨"main", 58⟩⟩] ∧
      ∃ reports, Program.check [late, flawed, early] = .ok reports ∧
        (reports.map (·.cause)).Perm
          [.argumentMismatch "string" "int", .typeMismatch "int" "bool",
            .typeMismatch "void" "int"] := by
  have reads : Program.read source "main" = .ok [early, flawed, late] :=
    Program.read_of_toOption (by decide +kernel)
  have complains : Program.check [early, flawed, late] =
      .ok [⟨.argumentMismatch "string" "int", .null⟩, ⟨.typeMismatch "int" "bool", ⟨"main", 5⟩⟩,
        ⟨.typeMismatch "void" "int", ⟨"main", 58⟩⟩] := by decide +kernel
  obtain ⟨tokens, _, parsed⟩ := Program.exists_tokens_of_read reads
  have loaded : Program.Loaded (Stmt.allBare [early, flawed, late]) := .parsed parsed
  have turned : [early, flawed, late].Perm [late, flawed, early] :=
    List.reverse_perm [late, flawed, early]
  exact ⟨reads, complains,
    Program.check_perm loaded ⟨trivial, rfl, trivial, trivial⟩ (by decide) turned complains⟩

end SmallLang
