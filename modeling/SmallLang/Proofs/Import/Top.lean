import SmallLang.Proofs.Import.Statements
import SmallLang.Proofs.Inference.Again

/-!
# The check of a merged module

The check of a module that is merged complains of the same as that of the module alone, in the same
order and at the same places.
-/

set_option autoImplicit false

namespace SmallLang

open Check

variable {qualifier : Qualifier} {places : List Appearance} {context : Context}

namespace Check

theorem bind_pure {α : Type} : ∀ check : Check α, check >>= pure = check
  | .error _ => rfl
  | .ok ⟨value, reports⟩ =>
      congrArg (fun all => Except.ok (Checked.mk value all)) (List.append_nil reports)

/-- In the root scope of a module. What is declared there hides nothing. -/
structure Context.AtTop (context : Context) : Prop where
  hosts : context.scopes.Hosts []
  isRoot : context.scopes.isRoot = true

theorem Context.Extends.atTop {after : Context} {scopes : Scopes} {names : List String}
    (root : scopes.isRoot = true) (later : after.Extends scopes names []) : after.AtTop :=
  ⟨Scopes.within_of_isRoot root names [] ▸ later.hosts, later.isRoot.trans root⟩

theorem Context.AtTop.named (top : context.AtTop) (name : String) :
    qualifier.use [] name = context.scopes.named qualifier name :=
  (Scopes.named_of_isRoot top.isRoot name).symm

end Check

section Statement

variable (proper : qualifier.Proper) {s : Stmt} (parsed : s.bare.Parsed)
  (present : ∀ appearance ∈ s.bare.topAppearances, appearance ∈ places)
  (exported : ∀ name ∈ s.declared?, name ∈ qualifier.exported)

include proper parsed present exported

/-- A declaration is made ahead of its turn as it was. -/
theorem Stmt.follows_hoist (undotted : ∀ appearance ∈ places, SmallLang.Undotted appearance.name)
    (top : context.AtTop) :
    Follows (Error.Renamed qualifier places) (Context.qualify qualifier) Context.AtTop
      (s.hoist context) ((s.qualifyTop qualifier).hoist (context.qualify qualifier)) := by
  cases s with
  | declare decl =>
      obtain ⟨among, _⟩ := List.forall_mem_cons.mp present
      have named := Scopes.named_of_mem top.isRoot (exported decl.name rfl)
      rw [Stmt.hoist, Stmt.qualifyTop, Stmt.hoist]
      change Follows _ _ _ _ (if decl.isTyped then _ else _)
      split
      · refine (follows_ofExcept fun type known =>
          declaredType_qualify proper top.hosts _ _ known).andThen ?_
        intro type _
        have new : ∀ other, Symbol.variable (.concrete type) decl.mutable ≠ .builtin other :=
          fun _ same => by cases same
        have defines := follows_define proper top.hosts (undotted _ among) new among (top.named _)
        rw [named] at defines
        exact defines.imp fun _ later => later.atTop top.isRoot
      · exact follows_pure top
  | function header body =>
      have among : ⟨header.name, header.position, []⟩ ∈ places := by
        cases body <;> exact present _ List.mem_cons_self
      have named := Scopes.named_of_mem top.isRoot (exported header.name rfl)
      rw [Stmt.hoist, Stmt.qualifyTop, Stmt.hoist]
      refine (follows_ofExcept fun symbol known =>
        (symbol_qualify proper top.hosts _ known).1).andThen ?_
      intro symbol known
      have new := (symbol_qualify proper top.hosts "" known).2
      have defines := follows_define proper top.hosts (undotted _ among) new among (top.named _)
      rw [named] at defines
      exact defines.imp fun _ later => later.atTop top.isRoot
  | merged => exact parsed.elim
  | _ => exact follows_pure top

/-- A statement at the top of a module is checked as it was. -/
theorem Stmt.follows_check_top
    (undotted : ∀ appearance ∈ places, SmallLang.Undotted appearance.name) (top : context.AtTop) :
    Follows (Error.Renamed qualifier places) (Context.qualify qualifier) Context.AtTop
      (s.check context) ((s.qualifyTop qualifier).check (context.qualify qualifier)) := by
  by_cases undeclared : s.declared? = none
  · have further : ∀ appearance ∈ s.bare.appearances [], appearance ∈ places := by
      cases s with
      | declare | function => cases undeclared
      | _ => exact present
    rw [Stmt.qualifyTop_of_undeclared undeclared]
    exact (Stmt.follows_check proper undotted s parsed further top.hosts (by simp [undeclared])).imp
      fun _ later => later.atTop top.isRoot
  cases s with
  | declare decl =>
      obtain ⟨among, values⟩ := List.forall_mem_cons.mp present
      have declares := @follows_declaration qualifier places [] context proper undotted top.hosts
        decl _ among (top.named _) values
      rw [Scopes.named_of_mem top.isRoot (exported decl.name rfl)] at declares
      exact declares.imp fun _ later => later.atTop top.isRoot
  | function header body =>
      have named := Scopes.named_of_mem top.isRoot (exported header.name rfl)
      cases body with
      | none =>
          have among := present _ List.mem_cons_self
          have declares := @Check.follows_function qualifier places [] context proper top.hosts
            header _ (undotted _ among) among (top.named _)
          rw [named] at declares
          exact declares.imp fun _ later => later.atTop top.isRoot
      | some body =>
          simp only [Stmt.bare, Stmt.topAppearances, List.forall_mem_cons, List.forall_mem_append,
            List.forall_mem_map] at present
          obtain ⟨among, params, bodies⟩ := present
          have opened : header.parameters.map (·.name) =
              header.parameters.map (·.name) ++ context.scopes.within [header.name] [] := by
            rw [Scopes.within_of_isRoot top.isRoot, List.append_nil]
          have checked := Stmt.follows_check_function proper top.hosts (undotted _ among) among
            (top.named _)
            (fun param given => ⟨undotted _ (params param given), List.mem_map_of_mem given,
              params param given⟩) opened
            (fun start hosts inner =>
              Stmt.follows_checkAll proper undotted body parsed.2.2 bodies hosts inner)
          rw [named] at checked
          exact checked.imp fun _ later => later.atTop top.isRoot
  | _ => exact absurd rfl undeclared

end Statement

section Statements

variable (proper : qualifier.Proper)
  (undotted : ∀ appearance ∈ places, SmallLang.Undotted appearance.name)

include proper undotted

theorem Stmt.follows_hoistAll : ∀ (body : List Stmt) {context : Context},
    Stmt.AllParsed (Stmt.allBare body) →
    (∀ appearance ∈ Program.appearances (Stmt.allBare body), appearance ∈ places) →
    (∀ s ∈ body, ∀ name ∈ s.declared?, name ∈ qualifier.exported) → context.AtTop →
    Follows (Error.Renamed qualifier places) (Context.qualify qualifier) Context.AtTop
      (Stmt.hoistAll context body)
      (Stmt.hoistAll (context.qualify qualifier) (body.map (·.qualifyTop qualifier)))
  | [], _, _, _, _, top => follows_pure top
  | first :: rest, _, ⟨parsed, parsed'⟩, present, exported, top => by
      rw [Stmt.allBare, Program.appearances, List.flatMap_cons, List.forall_mem_append] at present
      obtain ⟨exported, exported'⟩ := List.forall_mem_cons.mp exported
      rw [Stmt.hoistAll, List.map_cons, Stmt.hoistAll]
      refine (Stmt.follows_hoist proper parsed present.1 exported undotted top).bind ?_
      intro between top
      exact Stmt.follows_hoistAll rest parsed' present.2 exported' top

/-- The statements of a module are checked as they were. -/
theorem Stmt.follows_checkAll_top : ∀ (body : List Stmt) {context : Context},
    Stmt.AllParsed (Stmt.allBare body) →
    (∀ appearance ∈ Program.appearances (Stmt.allBare body), appearance ∈ places) →
    (∀ s ∈ body, ∀ name ∈ s.declared?, name ∈ qualifier.exported) → context.AtTop →
    Follows (Error.Renamed qualifier places) (Context.qualify qualifier) Context.AtTop
      (Stmt.checkAll context body)
      (Stmt.checkAll (context.qualify qualifier) (body.map (·.qualifyTop qualifier)))
  | [], _, _, _, _, top => follows_pure top
  | first :: rest, _, ⟨parsed, parsed'⟩, present, exported, top => by
      rw [Stmt.allBare, Program.appearances, List.flatMap_cons, List.forall_mem_append] at present
      obtain ⟨exported, exported'⟩ := List.forall_mem_cons.mp exported
      rw [Stmt.checkAll, List.map_cons, Stmt.checkAll]
      refine (Stmt.follows_check_top proper parsed present.1 exported undotted top).bind ?_
      intro between top
      exact Stmt.follows_checkAll_top rest parsed' present.2 exported' top

/-- A module is checked as it was, first ahead of its turn and then in turn. -/
theorem Stmt.follows_checks (body : List Stmt) (parsed : Stmt.AllParsed (Stmt.allBare body))
    (present : ∀ appearance ∈ Program.appearances (Stmt.allBare body), appearance ∈ places)
    (exported : ∀ s ∈ body, ∀ name ∈ s.declared?, name ∈ qualifier.exported)
    (top : context.AtTop) :
    Follows (Error.Renamed qualifier places) (Context.qualify qualifier) Context.AtTop
      (Stmt.hoistAll context body >>= (Stmt.checkAll · body))
      (Stmt.hoistAll (context.qualify qualifier) (body.map (·.qualifyTop qualifier)) >>=
        (Stmt.checkAll · (body.map (·.qualifyTop qualifier)))) :=
  (Stmt.follows_hoistAll proper undotted body parsed present exported top).bind fun _ top =>
    Stmt.follows_checkAll_top proper undotted body parsed present exported top

end Statements

namespace Program

variable {program typed : Program}

/-- A merged module is checked as its statements are. -/
theorem check_merged (body : Program) : Program.check [.merged body] = body.check := by
  have hoists : Stmt.hoistAll .start [.merged body] = Stmt.hoistAll .start body :=
    Check.bind_pure _
  have checks : ∀ context, Stmt.checkAll context [.merged body] = Stmt.checkAll context body :=
    fun _ => Check.bind_pure _
  simp only [check, hoists, checks]

/-- The complaints about a module that is merged are those about the module alone. -/
theorem check_qualified {source file : String} {order : ForwardOrder}
    (reads : Program.read source file = .ok program)
    (inferred : program.infer order = .ok typed) (space : String) {reports : List Error}
    (checked : typed.check = .ok reports) :
    ∃ reports', Program.check [.merged (typed.qualified space)] = .ok reports' ∧
      List.Forall₂ (Error.Renamed (.ofModule space program) program.appearances) reports
        reports' := by
  have parsed := Workspace.allParsed_of_read reads
  have proper := proper_of_infer reads inferred space
  have undotted := undotted_of_infer reads inferred
  have same := ofModule_of_infer inferred space
  obtain ⟨_, bare, _⟩ := noted_of_infer parsed.allLoaded inferred
  have exported : ∀ s ∈ typed, ∀ name ∈ s.declared?,
      name ∈ (Qualifier.ofModule space program).exported := fun s present name declared =>
    same ▸ List.mem_filterMap.mpr ⟨s, present, declared⟩
  have shape : Stmt.AllParsed (Stmt.allBare typed) := bare ▸ parsed
  have present : ∀ appearance ∈ Program.appearances (Stmt.allBare typed),
      appearance ∈ program.appearances := bare ▸ fun _ among => among
  have top : Context.start.AtTop := ⟨Scopes.Hosts.start, rfl⟩
  have follows := Stmt.follows_checks proper undotted typed shape present exported top
  have start : Context.start.qualify (.ofModule space program) = .start :=
    congrArg (Context.mk · none .null) (Scopes.qualify_start proper)
  rw [start] at follows
  rw [check_merged, qualified, same]
  simp only [check] at checked ⊢
  split at checked
  · next found ends =>
      cases checked
      obtain ⟨_, reports', ends', renamed⟩ := follows ends
      rw [ends']
      exact ⟨reports', rfl, renamed⟩
  · cases checked

end Program

end SmallLang
