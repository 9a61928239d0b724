import SmallLang.Proofs.Inference.Allocated
import SmallLang.Proofs.Inference.Discipline
import SmallLang.Proofs.Inference.Parallel
import SmallLang.Proofs.Inference.Program
import SmallLang.Proofs.Table.Final

/-!
# Engines that come later

From one engine to a later one, placeholders of which nothing is known are added behind those in the
table, and constraints behind those that wait for the sweep. Two terms that a sweep would make alike
are alike after every later sweep.
-/

set_option autoImplicit false

namespace SmallLang

namespace Table

theorem extend_extend (table : Table) (more further : Nat) :
    (table.extend more).extend further = table.extend (more + further) := by
  induction further with
  | zero => rfl
  | succ further ih => exact congrArg grow ih

theorem Sound.resolve_extend {table : Table} (sound : table.Sound) {term : Term}
    (inside : term.Within table.size) (more : Nat) :
    (table.extend more).resolve term = table.resolve term := by
  induction more with
  | zero => rfl
  | succ more ih =>
      have within : term.Within (table.extend more).size :=
        inside.mono (by rw [size_extend]; exact Nat.le_add_right ..)
      exact ((sound.extend more).resolve_grow within).trans ih

end Table

namespace Engine

variable {engine engine' engine'' : Engine}

/-- An engine as runs leave it: its placeholders are those of its table, where links form a
forest. -/
structure Fit (engine : Engine) : Prop where
  allocated : engine.Allocated
  sound : engine.table.Sound

/-- Placeholders and constraints were added, and the placeholders in use are those of the table. -/
structure Later (engine engine' : Engine) : Prop where
  allocated : engine'.Allocated
  table : ∃ more, engine'.table = engine.table.extend more
  constraints : engine.constraints <+: engine'.constraints

theorem fit_start : start.Fit := ⟨allocated_start, Table.sound_empty⟩

theorem Later.refl (allocated : engine.Allocated) : engine.Later engine :=
  ⟨allocated, ⟨0, rfl⟩, List.prefix_rfl⟩

theorem Later.trans (first : engine.Later engine') (second : engine'.Later engine'') :
    engine.Later engine'' where
  allocated := second.allocated
  table := by
    obtain ⟨more, same⟩ := first.table
    obtain ⟨further, same'⟩ := second.table
    exact ⟨more + further, by rw [same', same, Table.extend_extend]⟩
  constraints := first.constraints.trans second.constraints

/-- What comes later depends on the table and the constraints only. -/
theorem Later.congr (later : engine'.Later engine'') (table : engine.table = engine'.table)
    (constraints : engine.constraints = engine'.constraints) : engine.Later engine'' :=
  ⟨later.allocated, table ▸ later.table, constraints ▸ later.constraints⟩

theorem Later.fit (later : engine.Later engine') (fit : engine.Fit) : engine'.Fit where
  allocated := later.allocated
  sound := by
    obtain ⟨more, same⟩ := later.table
    rw [same]
    exact fit.sound.extend more

theorem Fit.push (fit : engine.Fit) : engine.push.Fit :=
  ⟨fit.allocated.push, fit.sound⟩

theorem Later.size_le (later : engine.Later engine') : engine.table.size ≤ engine'.table.size := by
  obtain ⟨more, same⟩ := later.table
  rw [same, Table.size_extend]
  exact Nat.le_add_right ..

theorem Later.constrain (later : engine.Later engine') {left right : Term}
    (first : left.Within engine'.table.size) (second : right.Within engine'.table.size) :
    engine.Later (engine'.constrain left right) where
  allocated := (later.allocated.constrain first second).allocated
  table := by
    obtain ⟨more, same⟩ := later.table
    refine ⟨more, Eq.trans ?_ same⟩
    unfold Engine.constrain
    split <;> rfl
  constraints := later.constraints.trans (engine'.retains_constrain left right).constraints

theorem Later.push (later : engine.Later engine') : engine.Later engine'.push :=
  ⟨later.allocated.push, later.table, later.constraints⟩

theorem Later.pop (later : engine.Later engine') : engine.Later engine'.pop :=
  ⟨later.allocated.pop, later.table, later.constraints⟩

theorem Later.enter (later : engine.Later engine') : engine.Later engine'.enter :=
  ⟨later.allocated.enter, later.table, later.constraints⟩

theorem Later.leave (later : engine.Later engine') : engine.Later engine'.leave :=
  ⟨later.allocated.leave, later.table, later.constraints⟩

/-- What a sweep would make alike is alike after a later sweep. -/
theorem Later.resolve_sweep_eq (later : engine.Later engine') (fit : engine.Fit)
    {first second : Term} (inside : first.Within engine.table.size)
    (inside' : second.Within engine.table.size)
    (same : engine.sweep.table.resolve first = engine.sweep.table.resolve second) :
    engine'.sweep.table.resolve first = engine'.sweep.table.resolve second := by
  obtain ⟨more, grown⟩ := later.table
  obtain ⟨rest, longer⟩ := later.constraints
  have within := fit.allocated.constraints
  have swept : engine.sweep.table.Sound := fit.sound.unify engine.constraints within
  have size : engine.sweep.table.size = engine.table.size := Table.size_unify ..
  have parts : engine'.sweep.table = (engine.sweep.table.extend more).unify rest := by
    change engine'.table.unify engine'.constraints = _
    rw [grown, ← longer, Table.unify_append, fit.sound.unify_extend within]
    rfl
  have restWithin : ∀ constraint ∈ rest,
      constraint.Within (engine.sweep.table.extend more).size := by
    intro constraint present
    have inside := later.allocated.constraints constraint
      (longer ▸ List.mem_append_right engine.constraints present)
    rwa [grown, Table.size_extend, ← size, ← Table.size_extend] at inside
  obtain ⟨change, _, changes⟩ := (swept.extend more).resolve_unify rest restWithin
  rw [parts, changes, changes, swept.resolve_extend (by rwa [size]),
    swept.resolve_extend (by rwa [size]), same]

end Engine

/-! ## Steps and walks -/

theorem Engine.Parallel.grown {base base' : Table} {past : List Constraint}
    {engine engine' : Engine} (parallel : Parallel base base' past engine engine') :
    ∃ more, engine.table = base.extend more := by
  cases parallel with
  | intro more grown => exact ⟨more, grown⟩

namespace Infer

variable {α : Type} {engine engine' : Engine}

/-- A step that succeeds leaves a later engine behind. -/
theorem Yields.later {work : Infer α} {value : α} {inside : Nat → α → Prop}
    (yields : Yields work engine value engine') (composed : work.Composed)
    (allocates : work.Allocates engine inside) : engine.Later engine' where
  allocated := by
    unfold Allocates Meets at allocates
    rw [yields] at allocates
    exact allocates.1.allocated
  table := by
    have blind : Blind engine.table engine.table [] work := composed.blind rfl
    have alike := blind engine engine (.of_table rfl rfl)
    rw [yields] at alike
    cases alike with
    | ok parallel => exact parallel.grown
  constraints := by
    have kept := composed.retains engine
    unfold Meets at kept
    rw [yields] at kept
    exact kept.constraints

theorem Yields.inside {work : Infer α} {value : α} {inside : Nat → α → Prop}
    (yields : Yields work engine value engine') (allocates : work.Allocates engine inside) :
    inside engine'.table.size value := by
  unfold Allocates Meets at allocates
  rw [yields] at allocates
  exact allocates.2

theorem later_infer {e : Expr} {term : Term} (yields : Yields e.infer engine term engine')
    (allocated : engine.Allocated) : engine.Later engine' :=
  yields.later e.composed_infer (e.allocates_infer allocated)

theorem later_inferAll {expressions : List Expr} {terms : List Term}
    (yields : Yields (Expr.inferAll expressions) engine terms engine')
    (allocated : engine.Allocated) : engine.Later engine' :=
  yields.later (Expr.composed_inferAll expressions)
    (Expr.allocates_inferAll expressions allocated)

theorem later_operation {operator : BinaryOperator} {left right term : Term} {position : Position}
    (yields : Yields (operation operator left right position) engine term engine')
    (allocated : engine.Allocated) (first : left.Within engine.table.size)
    (second : right.Within engine.table.size) : engine.Later engine' :=
  yields.later (composed_operation operator left right position)
    (allocates_operation allocated operator first second position)

theorem later_application {parameters : List Ty} {result term : Term} {arguments : List Term}
    (yields : Yields (application parameters result arguments) engine term engine')
    (allocated : engine.Allocated) (inside : result.Within engine.table.size)
    (within : Term.AllWithin engine.table.size arguments) : engine.Later engine' :=
  yields.later (composed_application parameters result arguments)
    (allocates_application allocated parameters inside within)

theorem later_condition {e : Expr} (yields : Yields (condition e) engine () engine')
    (allocated : engine.Allocated) : engine.Later engine' :=
  yields.later (composed_condition e) (allocates_condition allocated e)

theorem later_pattern {subject : Option Term} {e : Expr}
    (yields : Yields (pattern subject e) engine () engine') (allocated : engine.Allocated)
    (inside : Term.AnyWithin engine.table.size subject) : engine.Later engine' :=
  yields.later (composed_pattern subject e) (allocates_pattern allocated inside e)

theorem later_declare {decl : Variable} {known : Option Term} {term : Term}
    (yields : Yields (declare decl known) engine term engine') (allocated : engine.Allocated)
    (inside : Term.AnyWithin engine.table.size known) : engine.Later engine' :=
  yields.later (composed_declare decl known) (allocates_declare allocated decl inside)

theorem later_function {header : FunctionHeader} {found : Option Ty × Term}
    (yields : Yields (function header) engine found engine') (allocated : engine.Allocated) :
    engine.Later engine' :=
  yields.later (composed_function header) (allocates_function allocated header)

theorem later_parameters {params : List Parameter}
    (yields : Yields (parameters params) engine () engine') (allocated : engine.Allocated) :
    engine.Later engine' :=
  yields.later (composed_parameters params) (allocates_parameters params allocated)

theorem later_conclusion {header : FunctionHeader} {declared : Option Ty} {before term : Term}
    {terms : List Term} (yields : Yields (conclusion header declared before terms) engine term
      engine') (allocated : engine.Allocated) (inside : before.Within engine.table.size)
    (within : Term.AllWithin engine.table.size terms) : engine.Later engine' :=
  yields.later (composed_conclusion header declared before terms)
    (allocates_conclusion allocated header declared inside within)

end Infer

namespace Walk

variable {α : Type} {engine engine' : Engine}

/-- Whatever comes of a walk, it leaves a later engine behind. -/
theorem Composed.later {walk : Walk α} (composed : walk.Composed)
    (allocates : walk.Allocates engine) : engine.Later (walk engine).engine where
  allocated := (meets_last_iff.mp allocates).allocated
  table := by
    have blind : Blind engine.table engine.table [] walk := composed.blind rfl
    have alike := blind engine engine (.of_table rfl rfl)
    generalize walk engine = ends at alike ⊢
    cases alike with
    | intro parallel => exact parallel.grown
  constraints := (meets_last_iff.mp (composed.retains engine)).constraints

theorem Ends.later {walk : Walk α} {part : α} (ends : walk.Ends engine part engine')
    (composed : walk.Composed) (allocates : walk.Allocates engine) : engine.Later engine' := by
  obtain ⟨term, ends⟩ := ends
  have later := composed.later allocates
  rwa [ends] at later

end Walk

open Walk

section Walks

variable {engine engine' : Engine}

theorem Stmt.later_walk {s found : Stmt} (ends : s.walk.Ends engine found engine')
    (allocated : engine.Allocated) : engine.Later engine' :=
  ends.later s.composed_walk (s.allocates_walk allocated)

theorem Stmt.later_walkAll {body found : List Stmt}
    (ends : (Stmt.walkAll body).Ends engine found engine') (allocated : engine.Allocated) :
    engine.Later engine' :=
  ends.later (Stmt.composed_walkAll body) (Stmt.allocates_walkAll body allocated)

theorem Stmt.later_block {body found : List Stmt}
    (ends : (Stmt.walkAll body).Ends engine.push found engine') (allocated : engine.Allocated) :
    engine.Later engine'.pop :=
  ((Engine.Later.refl allocated).push.trans (Stmt.later_walkAll ends allocated.push)).pop

theorem Alternate.later_walk {alternate found : Alternate}
    (ends : alternate.walk.Ends engine found engine') (allocated : engine.Allocated) :
    engine.Later engine' :=
  ends.later alternate.composed_walk (alternate.allocates_walk allocated)

theorem Arm.later_walk {subject : Option Term} {arm found : Arm}
    (ends : (arm.walk subject).Ends engine found engine') (allocated : engine.Allocated)
    (inside : Term.AnyWithin engine.table.size subject) : engine.Later engine' :=
  ends.later (arm.composed_walk subject) (arm.allocates_walk allocated inside)

theorem Arm.later_walkAll {subject : Option Term} {arms found : List Arm}
    (ends : (Arm.walkAll subject arms).Ends engine found engine') (allocated : engine.Allocated)
    (inside : Term.AnyWithin engine.table.size subject) : engine.Later engine' :=
  ends.later (Arm.composed_walkAll arms subject) (Arm.allocates_walkAll arms allocated inside)

end Walks

/-! ## Sessions -/

section Sessions

variable {count : Nat} {scopes : Scopes}

theorem Scope.Within.note {known : Scope} (within : known.Within count) (name : String)
    {symbol : Option Symbol} (inside : ∀ found ∈ symbol, Symbol.Within count found) :
    Scope.Within count (Engine.note known name symbol) := by
  cases symbol with
  | none => exact within
  | some symbol => exact List.forall_mem_cons.mpr ⟨inside symbol rfl, within⟩

theorem Engine.within_settledVariable? (decl : Variable) :
    ∀ symbol ∈ settledVariable? decl, symbol.Within count := by
  intro symbol found
  obtain ⟨type, _, rfl⟩ := Option.map_eq_some_iff.mp found
  exact Symbol.within_variable (Term.within_type type) decl.mutable

theorem Engine.within_settledFunction? (header : FunctionHeader) :
    ∀ symbol ∈ settledFunction? scopes header, symbol.Within count := by
  intro symbol found
  unfold settledFunction? at found
  split at found
  · next type parameters _ _ =>
      cases found
      exact Symbol.within_function parameters (Term.within_type type)
  · cases found

mutual

/-- What is noted of a settled declaration has no placeholder. -/
theorem Engine.within_noteSettled : ∀ (s : Stmt) {known : Scope}, known.Within count →
    Scope.Within count (noteSettled scopes known s)
  | .declare decl, _, within => within.note decl.name (within_settledVariable? decl)
  | .function header _, _, within => within.note header.name (within_settledFunction? header)
  | .merged body, _, within => Engine.within_noteAllSettled body within
  | .expr _, _, within | .comment _, _, within | .use _, _, within | .parameter _, _, within
  | .returns _, _, within | .branch .., _, within | .loop .., _, within | .switch .., _, within
  | .arm _, _, within => within

theorem Engine.within_noteAllSettled : ∀ (body : List Stmt) {known : Scope},
    known.Within count → Scope.Within count (noteAllSettled scopes known body)
  | [], _, within => within
  | first :: rest, _, within =>
      Engine.within_noteAllSettled rest (Engine.within_noteSettled first within)

end

namespace Engine.Fit

variable {engine : Engine}

theorem learn (fit : engine.Fit) (program : Program) : (engine.learn program).Fit where
  allocated :=
    { fit.allocated with known := within_noteAllSettled program fit.allocated.known }
  sound := fit.sound

theorem sweep (fit : engine.Fit) : engine.sweep.Fit := by
  have size : engine.sweep.table.size = engine.table.size := Table.size_unify ..
  obtain ⟨allocated, sound⟩ := fit
  refine ⟨⟨?_, ?_, List.forall_mem_nil _, ?_, ?_⟩, sound.unify _ allocated.constraints⟩
  · rw [size]
    exact allocated.scopes
  · rw [size]
    exact allocated.known
  · rw [size]
    exact allocated.forward
  · rw [size]
    exact allocated.frames

/-- Whatever comes of a run, it leaves an engine behind that is fit for another one. -/
theorem run (fit : engine.Fit) (order : ForwardOrder) (program : Program) :
    ((Infer.run order program).last engine).Fit := by
  apply Infer.meets_last_iff.mp
  have learned := fit.learn program
  have walked := ((Stmt.composed_walkAll program).later
    (Stmt.allocates_walkAll program learned.allocated)).fit learned
  refine Infer.Meets.bind (Infer.meets_update (Infer.Meets.bind ?_))
  refine (Infer.meets_walk (Walk.meets_last_iff.mpr walked)).imp (fun part found fit => ?_)
    fun _ _ => id
  refine Infer.Meets.bind (Infer.meets_get_bind ?_)
  split
  · exact Infer.Meets.bind (Infer.meets_update
      (Infer.meets_ofExcept (fun _ _ => fit.sweep) fun _ _ => fit.sweep))
  · exact fit

theorem afterRuns (runs : List (ForwardOrder × Program)) :
    ∀ {engine : Engine}, engine.Fit → (engine.afterRuns runs).Fit := by
  induction runs with
  | nil => exact id
  | cons run rest ih =>
      intro engine fit
      exact ih (fit.run run.1 run.2)

end Engine.Fit

end Sessions

end SmallLang
