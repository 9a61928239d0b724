import SmallLang.Analysis
import SmallLang.Proofs.Import.Top
import SmallLang.Proofs.Module.Linked

/-!
# The use of one module

A program that does nothing but use a module which uses no others means what the module means alone.
-/

set_option autoImplicit false

namespace SmallLang

/-! ### Without modules -/

mutual

/-- Where no name stands for a module, nothing is an access to one. -/
theorem Expr.access_nil : ∀ e : Expr, e.access [] = e
  | .identifier _ _ | .number _ | .string _ | .boolean _ | .null => rfl
  | .member object property => by
      have inside := Expr.access_nil object
      cases object with
      | identifier => rfl
      | _ => exact congrArg (Expr.member · property) inside
  | .call callee arguments => by
      rw [Expr.access, Expr.access_nil callee, Expr.accessAll_nil arguments]
  | .binary _ left right => by rw [Expr.access, Expr.access_nil left, Expr.access_nil right]
  | .prefixed _ operand => by rw [Expr.access, Expr.access_nil operand]
  | .postfixed _ operand => by rw [Expr.access, Expr.access_nil operand]

theorem Expr.accessAll_nil : ∀ expressions : List Expr, Expr.accessAll [] expressions = expressions
  | [] => rfl
  | first :: rest => by rw [Expr.accessAll, Expr.access_nil first, Expr.accessAll_nil rest]

end

theorem Expr.map_access_nil (value : Option Expr) : value.map (·.access []) = value := by
  cases value with
  | none => rfl
  | some e => exact congrArg some e.access_nil

mutual

theorem Stmt.access_nil : ∀ s : Stmt, s.access [] = s
  | .expr e => by rw [Stmt.access, e.access_nil]
  | .comment _ | .use _ | .parameter _ | .merged _ | .function _ none => rfl
  | .returns value => by rw [Stmt.access, Expr.map_access_nil]
  | .declare decl => by rw [Stmt.access, Expr.map_access_nil]
  | .function _ (some body) => by rw [Stmt.access, Stmt.accessAll_nil body]
  | .branch condition body alternate => by
      rw [Stmt.access, condition.access_nil, Stmt.accessAll_nil body,
        Alternate.access_nil alternate]
  | .loop condition body => by rw [Stmt.access, condition.access_nil, Stmt.accessAll_nil body]
  | .switch subject arms => by rw [Stmt.access, subject.access_nil, Arm.accessAll_nil arms]
  | .arm single => by rw [Stmt.access, Arm.access_nil single]

theorem Alternate.access_nil : ∀ alternate : Alternate, alternate.access [] = alternate
  | .none => rfl
  | .elseBranch condition body alternate => by
      rw [Alternate.access, condition.access_nil, Stmt.accessAll_nil body,
        Alternate.access_nil alternate]
  | .otherwise body => by rw [Alternate.access, Stmt.accessAll_nil body]

theorem Arm.access_nil : ∀ arm : Arm, arm.access [] = arm
  | .value pattern body => by rw [Arm.access, pattern.access_nil, Stmt.accessAll_nil body]
  | .otherwise body => by rw [Arm.access, Stmt.accessAll_nil body]

theorem Stmt.accessAll_nil : ∀ body : List Stmt, Stmt.accessAll [] body = body
  | [] => rfl
  | first :: rest => by rw [Stmt.accessAll, Stmt.access_nil first, Stmt.accessAll_nil rest]

theorem Arm.accessAll_nil : ∀ arms : List Arm, Arm.accessAll [] arms = arms
  | [] => rfl
  | first :: rest => by rw [Arm.accessAll, Arm.access_nil first, Arm.accessAll_nil rest]

end

namespace Workspace

variable {workspace : Workspace}

/-- A program without uses stays as it is. -/
theorem replaceUses_of_unused (load : Use → Resolve (Option Program)) (resolver : Resolver) :
    ∀ program : Program, program.uses = [] →
      workspace.replaceUses load program resolver = .ok (program, []) resolver
  | [], _ => rfl
  | first :: rest, unused => by
      cases first with
      | use used => cases unused
      | _ =>
          unfold replaceUses
          exact Resolve.bind_eq_ok_iff.mpr
            ⟨(rest, []), resolver, replaceUses_of_unused load resolver rest unused, rfl⟩

theorem resolveBy_of_unused (load : Use → Resolve (Option Program)) (resolver : Resolver)
    {program : Program} (unused : program.uses = []) :
    workspace.resolveBy load program resolver = .ok program resolver := by
  refine Resolve.bind_eq_ok_iff.mpr
    ⟨(program, []), resolver, replaceUses_of_unused load resolver program unused, ?_⟩
  exact congrArg (EStateM.Result.ok · resolver) (Stmt.accessAll_nil program)

/-- A module without uses is merged as it is read, under its namespace. -/
theorem resolve_use {used : Use} {source : String} {module : Program}
    (held : workspace.files.read? (workspace.modulePath used.path) = some source)
    (reads : Program.read source (workspace.modulePath used.path).text = .ok module)
    (unused : module.uses = []) :
    workspace.resolve [.use used] .start = .ok [.merged (module.qualified used.namespaceName)]
      (Resolver.start.merge (workspace.modulePath used.path) used.namespaceName) := by
  have loads : workspace.load used .start = .ok (some (module.qualified used.namespaceName))
      (Resolver.start.merge (workspace.modulePath used.path) used.namespaceName) := by
    obtain ⟨depth, deep⟩ : ∃ depth, workspace.files.length = depth + 1 := by
      refine Nat.exists_eq_add_one.mpr (List.length_pos_iff.mpr ?_)
      rintro empty
      rw [Files.read?, empty] at held
      cases held
    rw [load, deep]
    refine Resolve.bind_eq_ok_iff.mpr ⟨_, _, rfl, ?_⟩
    refine Resolve.bind_eq_ok_iff.mpr ⟨(), _, rfl, ?_⟩
    refine Resolve.bind_eq_ok_iff.mpr ⟨module, _, ?_, rfl⟩
    rw [readWithin, held]
    simp only [reads]
    exact resolveBy_of_unused _ _ unused
  refine Resolve.bind_eq_ok_iff.mpr ⟨([.merged (module.qualified used.namespaceName)],
    [(used.namespaceName, workspace.target .start used)]), _, ?_, rfl⟩
  rw [replaceUses]
  refine Resolve.bind_eq_ok_iff.mpr ⟨_, _, rfl, ?_⟩
  exact Resolve.bind_eq_ok_iff.mpr ⟨_, _, loads, rfl⟩

end Workspace

/-- What a module declares at its top is named anew, and the notes stay. -/
theorem Program.rebound_qualified {source file : String} {program typed : Program}
    {order : ForwardOrder} (reads : Program.read source file = .ok program)
    (inferred : program.infer order = .ok typed) (space : String) :
    List.Forall₂ (Stmt.ReboundTop ((Naming.ofAliases []).qualify (.ofModule space program))) typed
      (typed.qualified space) := by
  have parsed := Workspace.allParsed_of_read reads
  obtain ⟨_, bare, _⟩ := noted_of_infer parsed.allLoaded inferred
  have shape : Stmt.AllParsed (Stmt.allBare typed) := bare ▸ parsed
  have same := ofModule_of_infer inferred space
  have plain : (Qualifier.ofModule space program).Plain :=
    Workspace.plain_of_undotted (Program.undotted_of_read reads) rfl
  rw [Program.qualified, same, List.forall₂_map_right_iff]
  refine List.forall₂_same.mpr ?_
  intro s present
  have among : s.bare ∈ Stmt.allBare typed := by
    rw [Stmt.allBare_eq_map]
    exact List.mem_map_of_mem present
  have rebound := Stmt.reboundTop_access [] (Stmt.allParsed_iff.mp shape _ among)
  rw [Stmt.access_nil] at rebound
  refine rebound.qualifyTop (fun _ => rfl) plain ?_
  intro name declared
  rw [← same]
  exact List.mem_filterMap.mpr ⟨s, present, declared⟩

namespace Analysis

variable {program : Program} {analysis : Analysis} {order : ForwardOrder}

theorem ofProgram_eq_ok_iff : ofProgram order program = .ok analysis ↔
    program.infer order = .ok analysis.program ∧
      analysis.program.check = .ok analysis.reports := by
  unfold ofProgram
  cases program.infer order with
  | error error =>
      constructor
      · intro ends
        cases ends
      · rintro ⟨same, _⟩
        cases same
  | ok typed =>
      change typed.check.map (mk typed) = .ok analysis ↔ _
      cases checked : typed.check with
      | error error =>
          constructor
          · intro ends
            cases ends
          · rintro ⟨same, ends⟩
            cases same
            rw [checked] at ends
            cases ends
      | ok reports =>
          constructor
          · intro ends
            cases ends
            exact ⟨rfl, checked⟩
          · rintro ⟨same, ends⟩
            cases same
            rw [checked] at ends
            cases ends
            rfl

theorem ofSource_of_read {source file : String} (reads : Program.read source file = .ok program) :
    ofSource order source file = ofProgram order program := by
  rw [ofSource, reads]
  rfl

/-- A program that does nothing but use a module means what the module means alone, under new names.
What the module declares at its top is found under its namespace, with the notes that it has alone,
and the complaints are those about the module, in the same order and at the same places. -/
theorem use_preserves_analysis {workspace : Workspace} {entry file source : String} {used : Use}
    {module : Program} {analysis : Analysis} {order : ForwardOrder}
    (uses : Program.read entry file = .ok [.use used])
    (held : workspace.files.read? (workspace.modulePath used.path) = some source)
    (reads : Program.read source (workspace.modulePath used.path).text = .ok module)
    (unused : module.uses = [])
    (alone : ofSource order source (workspace.modulePath used.path).text = .ok analysis)
    (order' : ForwardOrder) :
    let qualifier := Qualifier.ofModule used.namespaceName module
    let body := analysis.program.qualified used.namespaceName
    ∃ reports, ofModules order' workspace .start entry file = .ok ⟨[.merged body], reports⟩ ∧
      List.Forall₂ (Stmt.ReboundTop ((Naming.ofAliases []).qualify qualifier)) analysis.program
        body ∧
      List.Forall₂ (Error.Renamed qualifier module.appearances) analysis.reports reports := by
  obtain ⟨inferred, checked⟩ := ofProgram_eq_ok_iff.mp ((ofSource_of_read reads).symm.trans alone)
  obtain ⟨reports, checked', renamed⟩ :=
    Program.check_qualified reads inferred used.namespaceName checked
  have merges : ofProgram order' [.merged (module.qualified used.namespaceName)] =
      .ok ⟨[.merged (analysis.program.qualified used.namespaceName)], reports⟩ :=
    ofProgram_eq_ok_iff.mpr
      ⟨Program.infer_qualified reads inferred used.namespaceName order', checked'⟩
  refine ⟨reports, ?_, Program.rebound_qualified reads inferred used.namespaceName, renamed⟩
  exact (ofModules_of_resolve uses (Workspace.resolve_use held reads unused)).trans merges

end Analysis

namespace ShadowedConstant

/-- A constant that is incremented, and a function with a parameter of the same name. -/
def source : String := "const n := 1\nfn f(n: int) -> int \x7b\nreturn n\n\x7d\nn++\nlet k := f(n)"

/-- One file. -/
def workspace : Workspace := ⟨[(⟨"app/m.lang"⟩, source)], ⟨"app"⟩, ⟨"std"⟩⟩

/-- The module in the file, with a type noted in each declaration or with none. -/
def module (note : Option Term) : Program :=
  [.declare ⟨"n", false, none, some (.number "1"), ⟨"app/m.lang", 0⟩, note⟩,
   .function ⟨"f", [⟨"n", "int", "app/m.lang", 21⟩], some ⟨"int", "app/m.lang", 29⟩, [],
    ⟨"app/m.lang", 13⟩, note⟩ (some [.returns (some (.identifier "n" ⟨"app/m.lang", 42⟩))]),
   .expr (.postfixed .increment (.identifier "n" ⟨"app/m.lang", 46⟩)),
   .declare ⟨"k", true, none, some (.call (.identifier "f" ⟨"app/m.lang", 59⟩)
    [.identifier "n" ⟨"app/m.lang", 61⟩]), ⟨"app/m.lang", 50⟩, note⟩]

/-- The use of the file under another name. -/
def used : Use := ⟨"m", some "a", ⟨"main", 0⟩⟩

/-- What is found about the file alone. -/
def analysis : Analysis :=
  ⟨module (some (.concrete .int)), [⟨.constantModified "n", ⟨"app/m.lang", 46⟩⟩]⟩

end ShadowedConstant

open ShadowedConstant in
/-- In a module that is used, the constant gets a new name where it is declared and where it is
incremented, and so it does in the complaint. The parameter keeps its name. -/
theorem Analysis.use_preserves_analysis_shadowed_constant :
    Program.read "use m as a" "main" = .ok [.use used] ∧
      workspace.files.read? (workspace.modulePath used.path) = some source ∧
      Program.read source (workspace.modulePath used.path).text = .ok (module none) ∧
      (module none).uses = [] ∧
      ofSource .byUse source (workspace.modulePath used.path).text = .ok analysis ∧
      ∃ reports, ofModules .byUse workspace .start "use m as a" "main" =
          .ok ⟨[.merged (analysis.program.qualified used.namespaceName)], reports⟩ ∧
        List.Forall₂ (Stmt.ReboundTop
          ((Naming.ofAliases []).qualify (.ofModule used.namespaceName (module none))))
          analysis.program (analysis.program.qualified used.namespaceName) ∧
        List.Forall₂ (Error.Renamed (.ofModule used.namespaceName (module none))
          (module none).appearances) analysis.reports reports := by
  have uses : Program.read "use m as a" "main" = .ok [.use used] :=
    Program.read_of_toOption (by decide +kernel)
  have held : workspace.files.read? (workspace.modulePath used.path) = some source := by
    decide +kernel
  have reads : Program.read source (workspace.modulePath used.path).text = .ok (module none) :=
    Program.read_of_toOption (by decide +kernel)
  have alone : ofSource .byUse source (workspace.modulePath used.path).text = .ok analysis :=
    (ofSource_of_read reads).trans
      (ofProgram_eq_ok_iff.mpr ⟨by decide +kernel, by decide +kernel⟩)
  have unused : (module none).uses = [] := rfl
  exact ⟨uses, held, reads, unused, alone,
    use_preserves_analysis uses held reads unused alone .byUse⟩

end SmallLang
