import SmallLang.Proofs.Inference.Later
import SmallLang.Proofs.Module.Replaces
import SmallLang.Tree.Equality

/-!
# What operations come to

Every operation of a program is settled by the sweep: a division is a float, a comparison or a
connective a truth value, and any other operation is what its left operand is, a type or still
open. The placeholder of an operation is new when it is tied to its operand. So nothing that was
asked for before can have settled it otherwise, and what comes up later moves both alike.
-/

set_option autoImplicit false

namespace SmallLang

open Infer Walk

/-! ## The law of one operation -/

/-- What an operation comes to, given what its left operand comes to. -/
def BinaryOperator.verdict (left : Term) : BinaryOperator → Term
  | .divide => .concrete .float
  | .equals | .notEquals | .less | .greater | .lessEquals | .greaterEquals | .and | .or =>
      .concrete .bool
  | .add | .subtract | .multiply => left

/-- The term that inference returns for an operation comes to what the operator makes of its left
operand. -/
def Table.Concludes (table : Table) (operator : BinaryOperator) (left right : Expr)
    (engine : Engine) : Prop :=
  ∃ first between term last, Yields left.infer engine first between ∧
    Yields (Expr.binary operator left right).infer engine term last ∧
    table.resolve term = operator.verdict (table.resolve first)

theorem Table.resolve_result (table : Table) (operator : BinaryOperator) (left : Term) :
    table.resolve (operator.result left) = operator.verdict (table.resolve left) := by
  cases operator <;> rfl

theorem BinaryOperator.within_result {count : Nat} (operator : BinaryOperator) {left : Term}
    (inside : left.Within count) : (operator.result left).Within count := by
  cases operator <;> first | exact inside | trivial

/-- The newest placeholder of a table is open. -/
theorem Table.resolve_grow_next (table : Table) :
    table.grow.resolve (.pending table.next) = .pending table.next := by
  have unbound : table.grow.slot? table.next = some .unbound := by simp [slot?_grow]
  have isRoot : table.grow.IsRoot table.next := by simp [IsRoot, unbound]
  rw [resolve_pending, find_of_isRoot isRoot, unbound]

namespace Engine.Fit

variable {engine last : Engine}

/-- A new placeholder that is tied to a term comes to what the term comes to. -/
theorem resolve_tied (fit : engine.Fit) {known : Term}
    (inside : known.Within engine.grow.table.size)
    (same : last = engine.grow.constrain (.pending engine.table.next) known) :
    last.sweep.table.resolve (.pending engine.table.next) = last.sweep.table.resolve known := by
  obtain ⟨allocated, sound⟩ := fit
  have fresh : (Term.pending engine.table.next).Within engine.grow.table.size :=
    Nat.lt_of_lt_of_eq (Nat.lt_succ_self _) (Table.size_grow engine.table).symm
  have swept : last.sweep.table = (engine.table.unify engine.constraints).grow.require
      ⟨.pending engine.table.next, known⟩ := by
    rw [← sound.unify_grow _ allocated.constraints, same]
    exact Table.unify_append ..
  have within : Constraint.Within (engine.table.unify engine.constraints).grow.size
      ⟨.pending engine.table.next, known⟩ := by
    have size : (engine.table.unify engine.constraints).grow.size = engine.grow.table.size := by
      simp [Engine.grow]
    rw [size]
    exact ⟨fresh, inside⟩
  have next : (engine.table.unify engine.constraints).next = engine.table.next := by
    simp [Table.next]
  rw [swept]
  obtain ⟨closed, _⟩ | agree := (sound.unify _ allocated.constraints).grow.resolve_require_eq within
  · -- nothing is known of the placeholder yet
    rw [← next, Table.resolve_grow_next] at closed
    cases closed
  · exact agree

/-- An operation comes to what its operator makes of the left operand, as soon as it has a term. -/
theorem resolve_operation (fit : engine.Fit) {operator : BinaryOperator} {left right term : Term}
    {position : Position} (inside : left.Within engine.table.size)
    (inside' : right.Within engine.table.size)
    (yields : Yields (operation operator left right position) engine term last) :
    last.sweep.table.resolve term = last.sweep.table.resolve (operator.result left) := by
  unfold operation at yields
  split at yields
  · split at yields
    · obtain ⟨rfl, rfl⟩ := yields_pure.mp yields
      rfl
    · exact (yields_fail.mp yields).elim
  · simp only [yields_bind, yields_constrain, yields_fresh, yields_pure] at yields
    obtain ⟨_, between, rfl, _, _, ⟨rfl, rfl⟩, _, _, tied, rfl, rfl⟩ := yields
    have later : engine.Later (engine.constrain left right) :=
      (Later.refl fit.allocated).constrain inside inside'
    have grown : engine.table.size ≤ (engine.constrain left right).grow.table.size :=
      Nat.le_trans later.size_le (later.fit fit).allocated.grow.grown
    exact (later.fit fit).resolve_tied ((operator.within_result inside).mono grown) tied

end Engine.Fit

/-- The terms of both operands, and the engines in between. -/
theorem Engine.Allocated.operands {engine last : Engine} (allocated : engine.Allocated)
    {operator : BinaryOperator} {left right : Expr} {term : Term}
    (yields : Yields (Expr.binary operator left right).infer engine term last) :
    ∃ first between second between', Yields left.infer engine first between ∧
      Yields right.infer between second between' ∧
      first.Within between'.table.size ∧ second.Within between'.table.size ∧
      engine.Later between ∧ between.Later between' ∧ between'.Later last ∧
      Yields (operation operator first second
        (between'.positionOf (.binary operator left right))) between' term last := by
  simp only [Expr.infer, yields_bind, yields_get] at yields
  obtain ⟨first, between, begins, second, between', follows, _, _, ⟨rfl, rfl⟩, ends⟩ := yields
  have before := later_infer begins allocated
  have after := later_infer follows before.allocated
  have inside := (begins.inside (left.allocates_infer allocated)).mono after.size_le
  have inside' := follows.inside (right.allocates_infer before.allocated)
  exact ⟨first, between, second, _, begins, follows, inside, inside', before, after,
    later_operation ends after.allocated inside inside', ends⟩

/-- Where inference gets through an operation, every later sweep settles it as its operator says. -/
theorem Engine.Fit.concludes {engine last final : Engine} (fit : engine.Fit)
    {operator : BinaryOperator} {left right : Expr} {term : Term}
    (yields : Yields (Expr.binary operator left right).infer engine term last)
    (later : last.Later final) : final.sweep.table.Concludes operator left right engine := by
  obtain ⟨first, between, second, between', begins, follows, inside, inside', before, after,
    operated, ends⟩ := fit.allocated.operands yields
  have here : between'.Fit := (before.trans after).fit fit
  have agree := later.resolve_sweep_eq (operated.fit here)
    (ends.inside (allocates_operation here.allocated operator inside inside' _))
    ((operator.within_result inside).mono operated.size_le)
    (here.resolve_operation inside inside' ends)
  refine ⟨first, between, term, last, begins, yields, ?_⟩
  rw [agree, Table.resolve_result]

/-! ## All operations of a program -/

section Trees

variable (holds : BinaryOperator → Expr → Expr → Engine → Prop)

mutual

/-- Something holds of every operation in an expression, and of the engine with which inference
comes to the operation. -/
def Expr.Operations : Expr → Engine → Prop
  | .binary operator left right, engine =>
      holds operator left right engine ∧ left.Operations engine ∧
        ∃ term between, Yields left.infer engine term between ∧ right.Operations between
  | .call callee arguments, engine =>
      Expr.AllOperations arguments engine ∧
        ∃ terms between, Yields (Expr.inferAll arguments) engine terms between ∧
          callee.Operations between
  | .member object _, engine => object.Operations engine
  | .prefixed _ operand, engine => operand.Operations engine
  | .postfixed _ operand, engine => operand.Operations engine
  | .identifier .., _ | .number _, _ | .string _, _ | .boolean _, _ | .null, _ => True

/-- Something holds of every operation in expressions, which inference comes to from the left to
the right. -/
def Expr.AllOperations : List Expr → Engine → Prop
  | [], _ => True
  | first :: rest, engine =>
      first.Operations engine ∧
        ∃ term between, Yields first.infer engine term between ∧ Expr.AllOperations rest between

end

mutual

/-- Something holds of every operation in a statement, at any depth. -/
def Stmt.Operations : Stmt → Engine → Prop
  | .expr e, engine => e.Operations holds engine
  | .comment _, _ | .use _, _ | .parameter _, _ | .function _ none, _ => True
  | .returns value, engine => ∀ e ∈ value, e.Operations holds engine
  | .declare decl, engine => ∀ e ∈ decl.value, e.Operations holds
      { engine with
        anchor := decl.position
        declaring := if engine.scopes.isRoot then some decl.name else engine.declaring }
  | .function header (some body), engine =>
      ∃ found inner start, Yields (Infer.function header) engine found inner ∧
        Yields (Infer.parameters header.parameters) inner.enter () start ∧
        Stmt.AllOperations body start
  | .branch condition body alternate, engine =>
      condition.Operations holds engine ∧
        ∃ between body' last, Yields (Infer.condition condition) engine () between ∧
          Stmt.AllOperations body between.push ∧
          (Stmt.walkAll body).Ends between.push body' last ∧ alternate.Operations last.pop
  | .loop condition body, engine =>
      condition.Operations holds engine ∧
        ∃ between, Yields (Infer.condition condition) engine () between ∧
          Stmt.AllOperations body between.push
  | .switch subject arms, engine =>
      subject.Operations holds engine ∧
        ∃ term between, Yields subject.infer engine term between ∧
          Arm.AllOperations (some term) arms between
  | .arm single, engine => single.Operations none engine
  | .merged body, engine => Stmt.AllOperations body engine

def Alternate.Operations : Alternate → Engine → Prop
  | .none, _ => True
  | .elseBranch condition body alternate, engine =>
      condition.Operations holds engine ∧
        ∃ between body' last, Yields (Infer.condition condition) engine () between ∧
          Stmt.AllOperations body between.push ∧
          (Stmt.walkAll body).Ends between.push body' last ∧ alternate.Operations last.pop
  | .otherwise body, engine => Stmt.AllOperations body engine.push

/-- Something holds of every operation in an arm of a switch whose subject has a given term, or in
a lone arm. -/
def Arm.Operations (subject : Option Term) : Arm → Engine → Prop
  | .value pattern body, engine =>
      pattern.Operations holds engine ∧
        ∃ between, Yields (Infer.pattern subject pattern) engine () between ∧
          Stmt.AllOperations body between.push
  | .otherwise body, engine => Stmt.AllOperations body engine.push

def Stmt.AllOperations : List Stmt → Engine → Prop
  | [], _ => True
  | first :: rest, engine =>
      first.Operations engine ∧
        ∃ first' between, first.walk.Ends engine first' between ∧ Stmt.AllOperations rest between

def Arm.AllOperations (subject : Option Term) : List Arm → Engine → Prop
  | [], _ => True
  | first :: rest, engine =>
      first.Operations subject engine ∧
        ∃ first' between, (first.walk subject).Ends engine first' between ∧
          Arm.AllOperations subject rest between

end

end Trees

/-- An expression that names a symbol has no operation in it. -/
theorem Expr.operations_of_symbol? {holds : BinaryOperator → Expr → Expr → Engine → Prop} {e : Expr}
    {name : String} (symbol : e.symbol? = some name) (engine : Engine) :
    e.Operations holds engine := by
  cases e with
  | identifier => trivial
  | member object property =>
      cases object with
      | identifier => trivial
      | _ => cases symbol
  | _ => cases symbol

/-! ## The law of all operations -/

section Runs

variable {final : Engine}

mutual

/-- Where inference gets through an expression, every later sweep settles the operations in it. -/
theorem Expr.operations_infer : ∀ (e : Expr) {engine last : Engine} {term : Term}, engine.Fit →
    Yields e.infer engine term last → last.Later final →
      e.Operations final.sweep.table.Concludes engine
  | .binary operator left right, _, _, _, fit, yields, later => by
      obtain ⟨first, between, second, between', begins, follows, _, _, before, after, operated,
        _⟩ := fit.allocated.operands yields
      have later' := operated.trans later
      exact ⟨fit.concludes yields later,
        Expr.operations_infer left fit begins (after.trans later'), first, between, begins,
        Expr.operations_infer right (before.fit fit) follows later'⟩
  | .call callee arguments, _, _, _, fit, yields, later => by
      simp only [Expr.infer, yields_bind, yields_get] at yields
      obtain ⟨terms, between, begins, _, _, ⟨rfl, rfl⟩, ends⟩ := yields
      have before := later_inferAll begins fit.allocated
      have within := begins.inside (Expr.allocates_inferAll arguments fit.allocated)
      split at ends
      · next parameters result found =>
          obtain ⟨name, symbol, found⟩ := Option.bind_eq_some_iff.mp found
          have inside := before.allocated.of_lookup? found result rfl
          have after := later_application ends before.allocated inside within
          exact ⟨Expr.operations_inferAll arguments fit begins (after.trans later), terms, _,
            begins, Expr.operations_of_symbol? symbol _⟩
      · have after := later_infer ends before.allocated
        exact ⟨Expr.operations_inferAll arguments fit begins (after.trans later), terms, _,
          begins, Expr.operations_infer callee (before.fit fit) ends later⟩
  | .member object property, _, _, _, _, yields, _ => by
      cases object with
      | identifier space position => trivial
      | _ => simp [Expr.infer] at yields
  | .prefixed .negate operand, _, _, _, fit, yields, later =>
      Expr.operations_infer operand fit yields later
  | .prefixed .not operand, _, _, _, fit, yields, later => by
      simp only [Expr.infer, yields_bind, yields_constrain, yields_pure] at yields
      obtain ⟨term, between, begins, _, _, rfl, rfl, rfl⟩ := yields
      have before := later_infer begins fit.allocated
      have inside := begins.inside (operand.allocates_infer fit.allocated)
      have asked := (Engine.Later.refl before.allocated).constrain inside (Term.within_type .bool)
      exact Expr.operations_infer operand fit begins (asked.trans later)
  | .postfixed _ operand, _, _, _, fit, yields, later =>
      Expr.operations_infer operand fit yields later
  | .identifier .., _, _, _, _, _, _ | .number _, _, _, _, _, _, _ | .string _, _, _, _, _, _, _
  | .boolean _, _, _, _, _, _, _ | .null, _, _, _, _, _, _ => trivial

theorem Expr.operations_inferAll : ∀ (expressions : List Expr) {engine last : Engine}
    {terms : List Term}, engine.Fit → Yields (Expr.inferAll expressions) engine terms last →
      last.Later final →
        Expr.AllOperations final.sweep.table.Concludes expressions engine
  | [], _, _, _, _, _, _ => trivial
  | first :: rest, _, _, _, fit, yields, later => by
      simp only [Expr.inferAll, yields_bind, yields_pure] at yields
      obtain ⟨term, between, begins, terms, _, follows, rfl, rfl⟩ := yields
      have before := later_infer begins fit.allocated
      have after := later_inferAll follows before.allocated
      exact ⟨Expr.operations_infer first fit begins (after.trans later), term, between, begins,
        Expr.operations_inferAll rest (before.fit fit) follows later⟩

end

theorem operations_condition {engine last : Engine} {e : Expr} (fit : engine.Fit)
    (yields : Yields (Infer.condition e) engine () last) (later : last.Later final) :
    e.Operations final.sweep.table.Concludes engine := by
  obtain ⟨term, between, begins, rfl⟩ := yields_condition.mp yields
  have before := later_infer begins fit.allocated
  have inside := begins.inside (e.allocates_infer fit.allocated)
  have asked := (Engine.Later.refl before.allocated).constrain inside (Term.within_type .bool)
  exact e.operations_infer fit begins (asked.trans later)

theorem operations_pattern {engine last : Engine} {subject : Option Term} {e : Expr}
    (fit : engine.Fit) (subjectInside : Term.AnyWithin engine.table.size subject)
    (yields : Yields (Infer.pattern subject e) engine () last) (later : last.Later final) :
    e.Operations final.sweep.table.Concludes engine := by
  simp only [Infer.pattern, yields_bind] at yields
  obtain ⟨term, between, begins, ends⟩ := yields
  have before := later_infer begins fit.allocated
  have inside := begins.inside (e.allocates_infer fit.allocated)
  cases subject with
  | none =>
      obtain ⟨_, rfl⟩ := yields_pure.mp ends
      exact e.operations_infer fit begins later
  | some subject =>
      obtain rfl := yields_constrain.mp ends
      have asked := (Engine.Later.refl before.allocated).constrain
        ((subjectInside subject rfl).mono before.size_le) inside
      exact e.operations_infer fit begins (asked.trans later)

theorem operations_value? {engine last : Engine} {value : Option Expr} {found : Option Term}
    (fit : engine.Fit) (yields : Yields (Infer.value? value) engine found last)
    (later : last.Later final) :
    ∀ e ∈ value, e.Operations final.sweep.table.Concludes engine := by
  intro e present
  cases present
  obtain ⟨term, begins, _⟩ := yields_value?_some.mp yields
  exact e.operations_infer fit begins later

theorem Variable.operations_walk {engine last : Engine} {decl found : Variable}
    (fit : engine.Fit) (ends : decl.walk.Ends engine found last) (later : last.Later final) :
    (Stmt.declare decl).Operations final.sweep.table.Concludes engine := by
  obtain ⟨known, between, term, begins, follows, _⟩ := Variable.ends_walk.mp ends
  have initial := allocates_initial fit.allocated decl
  have inside := begins.inside initial
  have before : engine.Later between :=
    begins.later (composed_initial decl) initial
  have after := later_declare follows before.allocated inside
  obtain ⟨annotated, value, valued, _, yields, rfl, _⟩ := yields_initial.mp begins
  have start : Engine.Fit
      { engine with
        anchor := decl.position
        declaring := if engine.scopes.isRoot then some decl.name else engine.declaring } :=
    ⟨{ fit.allocated with }, fit.sound⟩
  exact operations_value? start yields ((after.trans later).congr rfl rfl)

mutual

/-- Where a walk gets through a statement, every later sweep settles the operations in it. -/
theorem Stmt.operations_walk : ∀ (s : Stmt) {engine last : Engine} {found : Stmt}, engine.Fit →
    s.walk.Ends engine found last → last.Later final →
      s.Operations final.sweep.table.Concludes engine
  | .expr e, _, _, _, fit, ends, later => by
      obtain ⟨_, term, yields⟩ := ends_still.mp ends
      exact e.operations_infer fit yields later
  | .comment _, _, _, _, _, _, _ | .use _, _, _, _, _, _, _ | .parameter _, _, _, _, _, _, _
  | .function _ none, _, _, _, _, _, _ => trivial
  | .returns value, _, _, _, fit, ends, later => by
      obtain ⟨_, term, yields⟩ := Stmt.ends_returns.mp ends
      obtain ⟨known, between, begins, _, rfl⟩ := yields_returns.mp yields
      have same : (between.addReturn term).table = between.table ∧
          (between.addReturn term).constraints = between.constraints := by
        unfold Engine.addReturn
        split <;> exact ⟨rfl, rfl⟩
      exact operations_value? fit begins (later.congr same.1.symm same.2.symm)
  | .declare decl, _, _, _, fit, ends, later => by
      obtain ⟨decl', ends, _⟩ := Stmt.ends_declare.mp ends
      exact Variable.operations_walk fit ends later
  | .function header (some body), _, _, _, fit, ends, later => by
      obtain ⟨declared, before, inner, start, body', last, term, begins, taken, walked, concluded,
        _⟩ := Stmt.ends_function.mp ends
      have entered := (later_function begins fit.allocated).enter
      have started := entered.trans (later_parameters taken entered.allocated)
      have through := Stmt.later_walkAll walked started.allocated
      have left := (Engine.Later.refl through.allocated).leave
      have inside := begins.inside (allocates_function fit.allocated header)
      have grown := ((later_parameters taken entered.allocated).trans (through.trans left)).size_le
      have after := later_conclusion concluded left.allocated (inside.mono grown)
        through.allocated.returned
      exact ⟨(declared, before), inner, start, begins, taken,
        Stmt.operations_walkAll body (started.fit fit) walked ((left.trans after).trans later)⟩
  | .branch condition body alternate, _, _, _, fit, ends, later => by
      obtain ⟨between, body', last, alternate', begins, walked, walked', _⟩ :=
        Stmt.ends_branch.mp ends
      have fit' := (later_condition begins fit.allocated).fit fit
      have block := Stmt.later_block walked fit'.allocated
      have rest := (Alternate.later_walk walked' block.allocated).trans later
      exact ⟨operations_condition fit begins (block.trans rest), between, body', last, begins,
        Stmt.operations_walkAll body fit'.push walked (rest.congr rfl rfl), walked,
        Alternate.operations_walk alternate (block.fit fit') walked' later⟩
  | .loop condition body, _, _, _, fit, ends, later => by
      obtain ⟨between, body', last, begins, walked, rfl, _⟩ := Stmt.ends_loop.mp ends
      have fit' := (later_condition begins fit.allocated).fit fit
      have block := Stmt.later_block walked fit'.allocated
      exact ⟨operations_condition fit begins (block.trans later), between, begins,
        Stmt.operations_walkAll body fit'.push walked (later.congr rfl rfl)⟩
  | .switch subject arms, _, _, _, fit, ends, later => by
      obtain ⟨term, between, arms', begins, walked, _⟩ := Stmt.ends_switch.mp ends
      have before := later_infer begins fit.allocated
      have inside := Term.anyWithin_some (begins.inside (subject.allocates_infer fit.allocated))
      have after := Arm.later_walkAll walked before.allocated inside
      exact ⟨subject.operations_infer fit begins (after.trans later), term, between, begins,
        Arm.operations_walkAll arms (before.fit fit) inside walked later⟩
  | .arm single, _, _, _, fit, ends, later => by
      obtain ⟨single', ends, _⟩ := Stmt.ends_arm.mp ends
      exact Arm.operations_walk single fit Term.anyWithin_none ends later
  | .merged body, _, _, _, fit, ends, later => by
      obtain ⟨body', ends, _⟩ := Stmt.ends_merged.mp ends
      exact Stmt.operations_walkAll body fit ends later
termination_by structural s => s

theorem Alternate.operations_walk : ∀ (alternate : Alternate) {engine last : Engine}
    {found : Alternate}, engine.Fit → alternate.walk.Ends engine found last → last.Later final →
      alternate.Operations final.sweep.table.Concludes engine
  | .none, _, _, _, _, _, _ => trivial
  | .elseBranch condition body alternate, _, _, _, fit, ends, later => by
      obtain ⟨between, body', last, alternate', begins, walked, walked', _⟩ :=
        Alternate.ends_elseBranch.mp ends
      have fit' := (later_condition begins fit.allocated).fit fit
      have block := Stmt.later_block walked fit'.allocated
      have rest := (Alternate.later_walk walked' block.allocated).trans later
      exact ⟨operations_condition fit begins (block.trans rest), between, body', last, begins,
        Stmt.operations_walkAll body fit'.push walked (rest.congr rfl rfl), walked,
        Alternate.operations_walk alternate (block.fit fit') walked' later⟩
  | .otherwise body, _, _, _, fit, ends, later => by
      obtain ⟨body', last, walked, rfl, _⟩ := Alternate.ends_otherwise.mp ends
      exact Stmt.operations_walkAll body fit.push walked (later.congr rfl rfl)
termination_by structural alternate => alternate

theorem Arm.operations_walk : ∀ (arm : Arm) {subject : Option Term} {engine last : Engine}
    {found : Arm}, engine.Fit → Term.AnyWithin engine.table.size subject →
      (arm.walk subject).Ends engine found last → last.Later final →
        arm.Operations final.sweep.table.Concludes subject engine
  | .value pattern body, _, _, _, _, fit, inside, ends, later => by
      obtain ⟨between, body', last, begins, walked, rfl, _⟩ := Arm.ends_value.mp ends
      have fit' := (later_pattern begins fit.allocated inside).fit fit
      have block := Stmt.later_block walked fit'.allocated
      exact ⟨operations_pattern fit inside begins (block.trans later), between, begins,
        Stmt.operations_walkAll body fit'.push walked (later.congr rfl rfl)⟩
  | .otherwise body, _, _, _, _, fit, _, ends, later => by
      obtain ⟨body', last, walked, rfl, _⟩ := Arm.ends_otherwise.mp ends
      exact Stmt.operations_walkAll body fit.push walked (later.congr rfl rfl)
termination_by structural arm => arm

theorem Stmt.operations_walkAll : ∀ (body : List Stmt) {engine last : Engine} {found : List Stmt},
    engine.Fit → (Stmt.walkAll body).Ends engine found last → last.Later final →
      Stmt.AllOperations final.sweep.table.Concludes body engine
  | [], _, _, _, _, _, _ => trivial
  | first :: rest, _, _, _, fit, ends, later => by
      obtain ⟨first', between, rest', begins, follows, _⟩ := Stmt.ends_cons.mp ends
      have before := Stmt.later_walk begins fit.allocated
      have after := Stmt.later_walkAll follows before.allocated
      exact ⟨Stmt.operations_walk first fit begins (after.trans later), first', between, begins,
        Stmt.operations_walkAll rest (before.fit fit) follows later⟩
termination_by structural body => body

theorem Arm.operations_walkAll : ∀ (arms : List Arm) {subject : Option Term} {engine last : Engine}
    {found : List Arm}, engine.Fit → Term.AnyWithin engine.table.size subject →
      (Arm.walkAll subject arms).Ends engine found last → last.Later final →
        Arm.AllOperations final.sweep.table.Concludes subject arms engine
  | [], _, _, _, _, _, _, _, _ => trivial
  | first :: rest, _, _, _, _, fit, inside, ends, later => by
      obtain ⟨first', between, rest', begins, follows, _⟩ := Arm.ends_cons.mp ends
      have before := Arm.later_walk begins fit.allocated inside
      have inside' := inside.mono before.size_le
      have after := Arm.later_walkAll follows before.allocated inside'
      exact ⟨Arm.operations_walk first fit inside begins (after.trans later), first', between,
        begins, Arm.operations_walkAll rest (before.fit fit) inside' follows later⟩
termination_by structural arms => arms

end

end Runs

namespace Infer

/-- A run up to its sweep, before its declarations are settled. -/
def toSweep (order : ForwardOrder) (program : Program) : Infer Program := do
  update (·.learn program)
  let part ← walk program
  requireSettled order
  update (·.sweep)
  return part

theorem run_eq_toSweep_bind (order : ForwardOrder) (program : Program) :
    run order program = (do
      let part ← toSweep order program
      ofExcept fun engine => Stmt.settleAll engine.table part) := by
  simp only [run, toSweep, bind_assoc, pure_bind]

/-- Whatever came of the runs before, a run that reaches its sweep settles every operation of its
program: a division as a float, comparisons and connectives as truth values, and the others as their
left operand. This is so whether or not its declarations can be settled then. -/
theorem operations_settle (earlier : List (ForwardOrder × Program)) (order : ForwardOrder)
    (program : Program) :
    (run order program = do
      let part ← toSweep order program
      ofExcept fun engine => Stmt.settleAll engine.table part) ∧
    ∀ part swept, Yields (toSweep order program) (Engine.start.afterRuns earlier) part swept →
      Stmt.AllOperations swept.table.Concludes program
        ((Engine.start.afterRuns earlier).learn program) := by
  refine ⟨run_eq_toSweep_bind order program, ?_⟩
  intro part swept yields
  simp only [toSweep, yields_bind, yields_update, yields_walk, yields_requireSettled,
    yields_pure] at yields
  obtain ⟨_, _, rfl, _, walked, ends, _, _, ⟨_, rfl⟩, _, _, rfl, rfl, rfl⟩ := yields
  have fit := (Engine.Fit.afterRuns earlier Engine.fit_start).learn program
  have later := Stmt.later_walkAll ends fit.allocated
  exact Stmt.operations_walkAll program fit ends (.refl later.allocated)

namespace LeftOver

/-- The table after the sweep of a run that reaches it. -/
def table? (program : Program) (engine : Engine) : Option Table :=
  match toSweep .byUse program engine with
  | .ok _ swept => some swept.table
  | .error _ _ => none

theorem yields_of_table? {program : Program} {engine : Engine} {table : Table}
    (found : table? program engine = some table) :
    ∃ part swept, Yields (toSweep .byUse program) engine part swept ∧ swept.table = table := by
  unfold table? at found
  cases ends : toSweep .byUse program engine with
  | ok part swept =>
      rw [ends] at found
      cases found
      exact ⟨part, swept, ends, rfl⟩
  | error error last =>
      rw [ends] at found
      cases found

/-- A sum with a name that is not declared yet, and an operation that fails. -/
def earlier : Program :=
  [.declare ⟨"a", true, none, some (.binary .add (.identifier "b" ⟨"one", 9⟩) (.number "1")),
    ⟨"one", 0⟩, none⟩,
   .declare ⟨"c", true, none, some (.binary .add (.string "x") (.number "1")), ⟨"one", 15⟩, none⟩]

/-- Operations with both variables, and a declaration of the name that does not suit the sum. -/
def later : Program :=
  [.declare ⟨"d", true, none, some (.binary .less
      (.binary .multiply (.identifier "b" ⟨"two", 9⟩) (.number "2.5"))
      (.binary .divide (.identifier "a" ⟨"two", 19⟩) (.number "2"))), ⟨"two", 0⟩, none⟩,
   .declare ⟨"b", true, none, some (.number "0.5"), ⟨"two", 25⟩, none⟩]

end LeftOver

open LeftOver in
/-- What a failed run has asked for makes the name an integer, and so the product with a float. -/
theorem operations_settle_left_over :
    Program.read "let a := b + 1\nlet c := \"x\" + 1" "one" = .ok earlier ∧
      Program.read "let d := b * 2.5 < a / 2\nlet b := 0.5" "two" = .ok later ∧
      (∃ error engine, run .byUse earlier .start = .error error engine) ∧
      ∃ part swept,
        Yields (toSweep .byUse later) (Engine.start.afterRuns [(.byUse, earlier)]) part swept ∧
        Stmt.AllOperations swept.table.Concludes later
          ((Engine.start.afterRuns [(.byUse, earlier)]).learn later) ∧
        swept.table.slots =
          #[.bound .int, .bound .int, .bound .int, .bound .float, .bound .bool] := by
  have reaches : table? later (Engine.start.afterRuns [(.byUse, earlier)]) =
      some ⟨#[.bound .int, .bound .int, .bound .int, .bound .float, .bound .bool]⟩ := by
    decide +kernel
  obtain ⟨part, swept, yields, table⟩ := yields_of_table? reaches
  exact ⟨Program.read_of_toOption (by decide +kernel),
    Program.read_of_toOption (by decide +kernel), ⟨_, _, rfl⟩, part, swept, yields,
    (operations_settle [(.byUse, earlier)] .byUse later).2 part swept yields,
    congrArg Table.slots table⟩

end Infer

end SmallLang
