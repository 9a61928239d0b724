import Mathlib.Data.List.Nodup
import SmallLang.Proofs.Scope.Scoping
import SmallLang.Proofs.Typing.Names
import SmallLang.Proofs.Verdict.Independent

/-!
# Hoisting in any order

What a root statement declares ahead of its turn does not depend on what others declare, unless they
declare the same name. So the root statements can as well be hoisted each on its own, and the names
that they add then be put together.
-/

set_option autoImplicit false

namespace SmallLang

theorem Variable.declaredType_eq_of_sane {scopes scopes' : Scopes} (sane : scopes.Sane)
    (sane' : scopes'.Sane) (decl : Variable) :
    decl.declaredType scopes = decl.declaredType scopes' := by
  unfold Variable.declaredType
  simp only [sane.typeOf_eq sane']

theorem FunctionHeader.symbol_eq_of_sane {scopes scopes' : Scopes} (sane : scopes.Sane)
    (sane' : scopes'.Sane) (header : FunctionHeader) :
    header.symbol scopes = header.symbol scopes' := by
  unfold FunctionHeader.symbol FunctionHeader.returnType
  simp only [sane.typeOf_eq sane', sane.typesOf_eq sane']

/-- A function is never declared as a type. -/
theorem FunctionHeader.symbol_ne_builtin {header : FunctionHeader} {scopes : Scopes}
    {symbol : Symbol} (declares : header.symbol scopes = .ok symbol) (type : Ty) :
    symbol ≠ .builtin type := by
  unfold FunctionHeader.symbol at declares
  cases parameters : scopes.typesOf (header.parameters.map (·.typeName)) with
  | error error =>
      rw [parameters] at declares
      cases declares
  | ok types =>
      rw [parameters] at declares
      cases result : header.returnType scopes with
      | error error =>
          rw [result] at declares
          cases declares
      | ok type =>
          rw [result] at declares
          cases declares
          exact Symbol.noConfusion

namespace Check

namespace Context

/-- A context outside of all blocks, where the names of types mean what they mean at the start. -/
structure Outermost (context : Context) : Prop where
  isRoot : context.scopes.isRoot = true
  sane : context.scopes.Sane
  returns : context.returns = none

/-- Some names are still free for declarations. Those of types never are. -/
def Frees (context : Context) (names : List String) : Prop :=
  ∀ name ∈ names, Ty.isTypeName name = false → context.scopes.resolve? name = none

/-- A context has the names that another one has, and those that a part adds to it. -/
structure Adds (base whole part : Context) : Prop where
  outermost : whole.Outermost
  part_outermost : part.Outermost
  resolve?_eq_some_iff : ∀ name symbol, whole.scopes.resolve? name = some symbol ↔
    part.scopes.resolve? name = some symbol ∨ base.scopes.resolve? name = some symbol

/-- A context has the names that some parts have, and those of the start. -/
structure Joins (whole : Context) (parts : List Context) : Prop where
  outermost : whole.Outermost
  resolve?_eq_some_iff : ∀ name symbol, whole.scopes.resolve? name = some symbol ↔
    (∃ part ∈ parts, part.scopes.resolve? name = some symbol) ∨
      start.scopes.resolve? name = some symbol

variable {base whole whole' part : Context} {parts parts' : List Context} {name : String}
  {symbol : Symbol} {position position' : Position} {names : List String}

theorem outermost_start : start.Outermost := ⟨rfl, Scopes.sane_start, rfl⟩

theorem frees_append {first second : List String} :
    base.Frees (first ++ second) ↔ base.Frees first ∧ base.Frees second :=
  List.forall_mem_append

theorem frees_start (names : List String) : start.Frees names := by
  intro name _ notType
  have unknown : Ty.ofName? name = none := by simpa [Ty.isTypeName] using notType
  rw [start, Scopes.resolve?_start, unknown]
  rfl

/-- What the start knows are types, which are known everywhere. -/
theorem Outermost.resolve?_of_start (outermost : base.Outermost)
    (known : start.scopes.resolve? name = some symbol) :
    base.scopes.resolve? name = some symbol := by
  rw [start, Scopes.resolve?_start, Option.map_eq_some_iff] at known
  obtain ⟨type, isType, rfl⟩ := known
  exact (outermost.sane name type).mpr isType

theorem Outermost.adds_start (outermost : base.Outermost) : base.Adds base start where
  outermost := outermost
  part_outermost := outermost_start
  resolve?_eq_some_iff _ _ := ⟨.inr, Or.rec outermost.resolve?_of_start id⟩

theorem joins_start : start.Joins [] where
  outermost := outermost_start
  resolve?_eq_some_iff _ _ := by simp

theorem Adds.joins (adds : base.Adds whole part) (joins : base.Joins parts) :
    whole.Joins (part :: parts) where
  outermost := adds.outermost
  resolve?_eq_some_iff name symbol := by
    rw [adds.resolve?_eq_some_iff, joins.resolve?_eq_some_iff, ← or_assoc]
    simp only [List.mem_cons, exists_eq_or_imp]

theorem Joins.perm (joins : whole.Joins parts) (perm : parts.Perm parts') :
    whole.Joins parts' where
  outermost := joins.outermost
  resolve?_eq_some_iff name symbol := by
    simp only [joins.resolve?_eq_some_iff, perm.mem_iff]

/-- Contexts with the same parts agree on what names mean. -/
theorem Joins.alike (joins : whole.Joins parts) (joins' : whole'.Joins parts) :
    whole.Alike whole' := by
  have root := joins.outermost.isRoot
  have root' := joins'.outermost.isRoot
  have inner : whole.scopes.inner = whole'.scopes.inner :=
    (List.isEmpty_iff.mp root).trans (List.isEmpty_iff.mp root').symm
  refine ⟨⟨inner, fun name => Option.ext fun symbol => ?_⟩,
    joins.outermost.returns.trans joins'.outermost.returns.symm⟩
  rw [Scopes.lookup_root_of_isRoot root, Scopes.lookup_root_of_isRoot root',
    joins.resolve?_eq_some_iff, joins'.resolve?_eq_some_iff]

theorem Outermost.insert (outermost : base.Outermost) (notType : Ty.isTypeName name = false)
    (new : ∀ type, symbol ≠ .builtin type) :
    { base with scopes := base.scopes.insert name symbol }.Outermost where
  isRoot := (base.scopes.isRoot_insert name symbol).trans outermost.isRoot
  sane := outermost.sane.insert notType new
  returns := outermost.returns

theorem Adds.insert (adds : base.Adds whole part) (free : base.Frees [name])
    (notType : Ty.isTypeName name = false) (new : ∀ type, symbol ≠ .builtin type) :
    base.Adds { whole with scopes := whole.scopes.insert name symbol }
      { part with scopes := part.scopes.insert name symbol } where
  outermost := adds.outermost.insert notType new
  part_outermost := adds.part_outermost.insert notType new
  resolve?_eq_some_iff other known := by
    have unknown := free name List.mem_cons_self notType
    rw [Scopes.resolve?_insert, Scopes.resolve?_insert]
    split
    · next same => simp [same, unknown]
    · exact adds.resolve?_eq_some_iff other known

/-- A name that is free in the base is declared in the part if it is in the whole. -/
theorem Adds.agree_define (adds : base.Adds whole part) (free : base.Frees [name])
    (new : ∀ type, symbol ≠ .builtin type) (position position' : Position) :
    Agree base.Adds (whole.define name symbol position) (part.define name symbol position') := by
  unfold define Scopes.define Scopes.definesHere
  rw [Scopes.innermost_of_isRoot adds.outermost.isRoot,
    Scopes.innermost_of_isRoot adds.part_outermost.isRoot]
  cases notType : Ty.isTypeName name with
  | true => exact ⟨adds, rfl⟩
  | false =>
      have unknown := free name List.mem_cons_self notType
      have same : whole.scopes.resolve? name = part.scopes.resolve? name :=
        Option.ext fun symbol => by simp [adds.resolve?_eq_some_iff, unknown]
      rw [same]
      cases (part.scopes.resolve? name).isSome with
      | true => exact ⟨adds, rfl⟩
      | false => exact ⟨adds.insert free notType new, rfl⟩

/-- A declaration takes no other name than its own. -/
theorem Frees.ensures_define (frees : base.Frees names) (other : name ∉ names) (symbol : Symbol)
    (position : Position) : Ensures (base.define name symbol position) (·.Frees names) := by
  unfold define
  cases defined : base.scopes.define name symbol position with
  | error error => exact ensures_bind fun _ => ensures_pure frees
  | ok scopes =>
      obtain ⟨_, _, rfl⟩ := Scopes.define_eq_ok_iff.mp defined
      refine ensures_pure ?_
      intro free present notType
      rw [Scopes.resolve?_insert, if_neg (ne_of_mem_of_not_mem present other)]
      exact frees free present notType

end Context

end Check

open Check

mutual

/-- What a statement adds to a context, it adds to the start as well, with the same complaints. -/
theorem Stmt.agree_hoist {base : Context} : ∀ (s : Stmt) {whole part : Context},
    base.Frees s.declares → base.Adds whole part → Agree base.Adds (s.hoist whole) (s.hoist part)
  | .function header _, whole, part, free, adds => by
      rw [Stmt.hoist, Stmt.hoist,
        header.symbol_eq_of_sane adds.outermost.sane adds.part_outermost.sane]
      refine ((agree_refl _).ensuring ensures_ofExcept).bind fun symbol _ ⟨same, declares⟩ => ?_
      rw [← same]
      exact adds.agree_define free (FunctionHeader.symbol_ne_builtin declares) _ _
  | .declare decl, whole, part, free, adds => by
      rw [Stmt.hoist, Stmt.hoist,
        decl.declaredType_eq_of_sane adds.outermost.sane adds.part_outermost.sane]
      split
      · refine (agree_refl _).andThen ?_
        intro type
        exact adds.agree_define free (fun _ => Symbol.noConfusion) _ _
      · exact agree_pure adds
  | .merged body, _, _, free, adds => Stmt.agree_hoistAll body free adds
  | .expr _, _, _, _, adds | .comment _, _, _, _, adds | .use _, _, _, _, adds
  | .parameter _, _, _, _, adds | .returns _, _, _, _, adds | .branch .., _, _, _, adds
  | .loop .., _, _, _, adds | .switch .., _, _, _, adds | .arm _, _, _, _, adds => agree_pure adds

theorem Stmt.agree_hoistAll {base : Context} : ∀ (body : List Stmt) {whole part : Context},
    base.Frees (Stmt.allDeclares body) → base.Adds whole part →
      Agree base.Adds (Stmt.hoistAll whole body) (Stmt.hoistAll part body)
  | [], _, _, _, adds => agree_pure adds
  | first :: rest, _, _, free, adds =>
      have ⟨freeFirst, freeRest⟩ := Context.frees_append.mp free
      (Stmt.agree_hoist first freeFirst adds).bind fun _ _ adds' =>
        Stmt.agree_hoistAll rest freeRest adds'

end

mutual

/-- A hoisted statement takes no other names than those that it declares. -/
theorem Stmt.ensures_hoist {names : List String} : ∀ (s : Stmt) {context : Context},
    context.Frees names → s.declares.Disjoint names → Ensures (s.hoist context) (·.Frees names)
  | .function header _, _, frees, apart =>
      ensures_bind fun symbol =>
        frees.ensures_define (fun present => apart List.mem_cons_self present) _ _
  | .declare decl, _, frees, apart => by
      rw [Stmt.hoist]
      split
      · refine ensures_bind ?_
        intro type
        exact frees.ensures_define (fun present => apart List.mem_cons_self present) _ _
      · exact ensures_pure frees
  | .merged body, _, frees, apart => Stmt.ensures_hoistAll body frees apart
  | .expr _, _, frees, _ | .comment _, _, frees, _ | .use _, _, frees, _
  | .parameter _, _, frees, _ | .returns _, _, frees, _ | .branch .., _, frees, _
  | .loop .., _, frees, _ | .switch .., _, frees, _ | .arm _, _, frees, _ => ensures_pure frees

theorem Stmt.ensures_hoistAll {names : List String} : ∀ (body : List Stmt) {context : Context},
    context.Frees names → (Stmt.allDeclares body).Disjoint names →
      Ensures (Stmt.hoistAll context body) (·.Frees names)
  | [], _, frees, _ => ensures_pure frees
  | first :: rest, _, frees, apart =>
      have ⟨apartFirst, apartRest⟩ := List.disjoint_append_left.mp apart
      (Stmt.ensures_hoist first frees apartFirst).bind fun _ frees' =>
        Stmt.ensures_hoistAll rest frees' apartRest

end

/-- Hoisting statements one after the other is hoisting each of them on its own. The names that they
add are those of the parts. -/
theorem Stmt.agree_hoistAll_all : ∀ (body : List Stmt) {context : Context} {parts : List Context},
    context.Joins parts → context.Frees (Stmt.allDeclares body) → (Stmt.allDeclares body).Nodup →
      Agree (fun last new => last.Joins (new ++ parts)) (Stmt.hoistAll context body)
        (all (body.map (·.hoist .start)))
  | [], _, _, joins, _, _ => agree_pure joins
  | first :: rest, context, parts, joins, free, distinct => by
      obtain ⟨freeFirst, freeRest⟩ := Context.frees_append.mp free
      rw [Stmt.allDeclares, List.nodup_append'] at distinct
      have hoists := (Stmt.agree_hoist first freeFirst joins.outermost.adds_start).ensuring
        (Stmt.ensures_hoist first freeRest distinct.2.2)
      -- The first statement adds no name that another declares, so those are still free.
      refine hoists.bind fun next part ⟨adds, freeRest⟩ => ?_
      have others := Stmt.agree_hoistAll_all rest (adds.joins joins) freeRest distinct.2.1
      exact others.returning fun _ _ joins => joins.perm List.perm_middle

end SmallLang
