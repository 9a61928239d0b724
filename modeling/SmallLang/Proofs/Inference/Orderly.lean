import SmallLang.Proofs.Inference.Operations
import SmallLang.Proofs.Inference.Trace
import SmallLang.Proofs.Scope.Resolved

/-!
# Placeholders are allocated and unshared at every point

Whatever inference comes by, each placeholder in the engine and in the tree is one of the table's,
and no two names that wait for a declaration share one. No step takes a slot back, and a name that
begins to wait gets a new one.
-/

set_option autoImplicit false

namespace SmallLang

variable {α β γ : Type}

namespace Engine

/-- Every placeholder that the engine holds is one of its table's, and no two names that wait for a
declaration share one. -/
structure Orderly (engine : Engine) : Prop where
  allocated : engine.Allocated
  unshared : engine.forward.Pairwise fun reference other =>
    reference.placeholder ≠ other.placeholder

/-- The later engine is in order, and its table has not become smaller. -/
structure Proceeds (engine engine' : Engine) : Prop where
  orderly : engine'.Orderly
  grown : engine.table.size ≤ engine'.table.size

variable {engine engine' engine'' : Engine}

theorem orderly_start : start.Orderly := ⟨allocated_start, .nil⟩

theorem Orderly.proceeds (orderly : engine.Orderly) : engine.Proceeds engine :=
  ⟨orderly, Nat.le_refl _⟩

theorem Proceeds.allocated (proceeds : engine.Proceeds engine') : engine'.Allocated :=
  proceeds.orderly.allocated

theorem Proceeds.trans (first : engine.Proceeds engine') (second : engine'.Proceeds engine'') :
    engine.Proceeds engine'' :=
  ⟨second.orderly, Nat.le_trans first.grown second.grown⟩

/-- Where no name begins to wait, only the placeholders matter. -/
theorem Leads.proceeds (leads : engine.Leads engine') (orderly : engine.Orderly)
    (forward : engine'.forward.Sublist engine.forward) : engine.Proceeds engine' :=
  ⟨⟨leads.allocated, orderly.unshared.sublist forward⟩, leads.grown⟩

theorem forward_constrain (engine : Engine) (left right : Term) :
    (engine.constrain left right).forward = engine.forward := by
  rw [constrain_eq]

theorem forward_constrainAll (pairs : List (Term × Term)) :
    ∀ engine : Engine, (engine.constrainAll pairs).forward = engine.forward := by
  induction pairs with
  | nil => exact fun _ => rfl
  | cons pair rest ih => exact fun engine => (ih _).trans (engine.forward_constrain _ _)

theorem settleForward_sublist (engine : Engine) (name : String) (term : Term) :
    (engine.settleForward name term).forward.Sublist engine.forward := by
  rw [forward_settleForward]
  split
  · exact List.filter_sublist
  · exact List.Sublist.refl _

theorem Orderly.push (orderly : engine.Orderly) : engine.push.Orderly :=
  ⟨orderly.allocated.push, orderly.unshared⟩

theorem Orderly.pop (orderly : engine.Orderly) : engine.pop.Orderly :=
  ⟨orderly.allocated.pop, orderly.unshared⟩

theorem Orderly.enter (orderly : engine.Orderly) : engine.enter.Orderly :=
  ⟨orderly.allocated.enter, orderly.unshared⟩

theorem Orderly.closeFrame (orderly : engine.Orderly) :
    Engine.Orderly { engine with frames := engine.frames.tail } :=
  ⟨{ orderly.allocated with
      frames := fun frame present =>
        orderly.allocated.frames frame (List.mem_of_mem_tail present) },
    orderly.unshared⟩

theorem Orderly.leave (orderly : engine.Orderly) : engine.leave.Orderly :=
  ⟨orderly.allocated.leave, orderly.unshared⟩

theorem Orderly.declaring (orderly : engine.Orderly) (declaring : Option String) :
    Engine.Orderly { engine with declaring } :=
  ⟨orderly.allocated.declaring declaring, orderly.unshared⟩

theorem Orderly.learn (orderly : engine.Orderly) (program : Program) :
    (engine.learn program).Orderly :=
  ⟨{ orderly.allocated with known := within_noteAllSettled program orderly.allocated.known },
    orderly.unshared⟩

end Engine

namespace Infer

variable {engine : Engine} {work : Infer α} {inside : Nat → α → Prop}

theorem Allocates.leads (allocates : work.Allocates engine inside) :
    engine.Leads (work.last engine) :=
  meets_last_iff.mp (allocates.imp (fun _ _ found => found.1) fun _ _ => id)

/-- No name begins to wait during the step. -/
def Steady (work : Infer α) : Prop :=
  ∀ engine, work.Meets engine (fun _ engine' => engine'.forward.Sublist engine.forward)
    fun _ engine' => engine'.forward.Sublist engine.forward

theorem steady_pure (value : α) : Steady (pure value) := fun _ => List.Sublist.refl _

theorem steady_fail (error : Error) : Steady (fail error : Infer α) := fun _ => List.Sublist.refl _

theorem steady_ofExcept (result : Engine → Except Error α) : Steady (ofExcept result) := fun _ =>
  meets_ofExcept (fun _ _ => List.Sublist.refl _) fun _ _ => List.Sublist.refl _

theorem steady_define (name : String) (symbol : Symbol) (position : Position) :
    Steady (define name symbol position) := fun _ =>
  meets_define (fun _ _ => List.Sublist.refl _) fun _ _ => List.Sublist.refl _

theorem steady_fresh : Steady fresh := fun _ => List.Sublist.refl _

theorem steady_update {change : Engine → Engine}
    (forward : ∀ engine, (change engine).forward.Sublist engine.forward) :
    Steady (update change) := forward

theorem steady_constrain (left right : Term) : Steady (constrain left right) :=
  steady_update fun engine => by rw [engine.forward_constrain]

theorem steady_addReturn (term : Term) : Steady (update (·.addReturn term)) :=
  steady_update fun engine => by
    unfold Engine.addReturn
    split <;> exact List.Sublist.refl _

theorem steady_constrainAll (pairs : List (Term × Term)) :
    Steady (update (·.constrainAll pairs)) :=
  steady_update fun engine => by rw [Engine.forward_constrainAll]

namespace Trace

/-- Every point of a trace is in order. -/
def Keeps (trace : Trace work) (engine : Engine) : Prop :=
  ∀ point ∈ trace.points engine, engine.Proceeds point

theorem keeps_through {middle : Engine → List Engine} (orderly : engine.Orderly)
    (allocates : work.Allocates engine inside) (steady : work.Steady)
    (between : ∀ point ∈ middle engine, engine.Proceeds point) :
    (through work middle).Keeps engine := by
  have ended := allocates.leads.proceeds orderly (meets_last_iff.mp (steady engine))
  exact List.forall_mem_append.mpr ⟨between, List.forall_mem_singleton.mpr ended⟩

theorem keeps_step (orderly : engine.Orderly) (allocates : work.Allocates engine inside)
    (steady : work.Steady) : (step work).Keeps engine :=
  keeps_through orderly allocates steady (List.forall_mem_nil _)

theorem Keeps.last {trace : Trace work} (keeps : trace.Keeps engine) :
    engine.Proceeds (work.last engine) := keeps _ (trace.ends engine)

theorem Keeps.bind {first : Infer α} {second : α → Infer β} {trace : Trace first}
    {later : ∀ value, Trace (second value)} (before : trace.Keeps engine)
    (allocates : first.Allocates engine inside)
    (after : ∀ value between, engine.Proceeds between → inside between.table.size value →
      (later value).Keeps between) : (trace.bind later).Keeps engine := by
  refine List.forall_mem_append.mpr ⟨before, ?_⟩
  have reached := before.last
  unfold Infer.last at reached
  unfold Allocates Meets at allocates
  cases ends : first engine with
  | ok value between =>
      rw [ends] at reached allocates
      intro point present
      exact reached.trans (after value between reached allocates.2 point present)
  | error error between => exact List.forall_mem_nil _

/-- A step after which others follow. -/
theorem keeps_step_bind {first : Infer α} {second : α → Infer β}
    {later : ∀ value, Trace (second value)} (orderly : engine.Orderly)
    (allocates : first.Allocates engine inside) (steady : first.Steady)
    (after : ∀ value between, engine.Proceeds between → inside between.table.size value →
      (later value).Keeps between) : ((step first).bind later).Keeps engine :=
  (keeps_step orderly allocates steady).bind allocates after

theorem keeps_pure (orderly : engine.Orderly) (value : α) : (step (pure value)).Keeps engine :=
  have plain : Allocates (pure value) engine anywhere := allocates_pure orderly.allocated trivial
  keeps_step orderly plain (steady_pure _)

theorem keeps_fail (orderly : engine.Orderly) (error : Error) :
    (step (fail error : Infer α)).Keeps engine :=
  keeps_step orderly (allocates_fail orderly.allocated error anywhere) (steady_fail _)

theorem keeps_get_bind {second : Engine → Infer β} {later : ∀ value, Trace (second value)}
    (orderly : engine.Orderly) (after : (later engine).Keeps engine) :
    ((step get).bind later).Keeps engine :=
  List.forall_mem_cons.mpr ⟨orderly.proceeds, after⟩

theorem keeps_ite {condition : Prop} [Decidable condition] {yes no : Infer α} {first : Trace yes}
    {second : Trace no} (keeps : condition → first.Keeps engine)
    (keeps' : ¬ condition → second.Keeps engine) : (ite condition first second).Keeps engine := by
  intro point present
  change point ∈ if condition then first.points engine else second.points engine at present
  split at present
  · next holds => exact keeps holds point present
  · next fails => exact keeps' fails point present

theorem keeps_constrain (orderly : engine.Orderly) {left right : Term}
    (first : left.Within engine.table.size) (second : right.Within engine.table.size) :
    (step (constrain left right)).Keeps engine :=
  keeps_step orderly (allocates_constrain orderly.allocated first second) (steady_constrain _ _)

theorem proceeds_constrainAll (orderly : engine.Orderly) {pairs : List (Term × Term)}
    (within : ∀ pair ∈ pairs, pair.1.Within engine.table.size ∧ pair.2.Within engine.table.size) :
    ∀ point ∈ pairs.inits.map engine.constrainAll, engine.Proceeds point := by
  intro point present
  obtain ⟨some, begins, rfl⟩ := List.mem_map.mp present
  have before := (List.mem_inits _ _).mp begins
  refine (orderly.allocated.constrainAll some fun pair present =>
    within pair (before.subset present)).proceeds orderly ?_
  rw [Engine.forward_constrainAll]

theorem keeps_constrainAll (orderly : engine.Orderly) {pairs : List (Term × Term)}
    (within : ∀ pair ∈ pairs, pair.1.Within engine.table.size ∧ pair.2.Within engine.table.size) :
    (constrainAll pairs).Keeps engine :=
  keeps_through orderly
    (allocates_update (Engine.Allocated.constrainAll _ orderly.allocated within))
    (steady_constrainAll pairs) (proceeds_constrainAll orderly within)

theorem keeps_settleForward (orderly : engine.Orderly) (name : String) {term : Term}
    (within : term.Within engine.table.size) : (settleForward name term).Keeps engine := by
  refine keeps_through orderly
    (allocates_update (orderly.allocated.settleForward name within))
    (steady_update fun engine => engine.settleForward_sublist name term) ?_
  have fewer := engine.settleForward_sublist name term
  refine List.forall_mem_singleton.mpr ⟨⟨?_, orderly.unshared.sublist fewer⟩, Nat.le_refl _⟩
  exact { orderly.allocated with
    forward := fun reference present =>
      orderly.allocated.forward reference (fewer.subset present) }

/-- A name that begins to wait gets a placeholder behind all others. -/
theorem keeps_forward (orderly : engine.Orderly) (name : String) (position : Position) :
    (forward name position).Keeps engine := by
  cases known : engine.forward.find? (·.name == name) with
  | some reference =>
      have points : (forward name position).points engine = [engine] := by
        simp only [forward, through, Infer.last, Infer.forward, known, List.nil_append]
      rw [Keeps, points]
      exact List.forall_mem_singleton.mpr orderly.proceeds
  | none =>
      have points : (forward name position).points engine = [engine.grow, { engine.grow with
          forward := engine.forward ++ [⟨name, engine.table.next, position⟩] }] := by
        simp only [forward, through, Infer.last, Infer.forward, known, List.singleton_append]
      have leads := (allocates_forward orderly.allocated name position).leads
      simp only [Infer.last, Infer.forward, known] at leads
      have grown := orderly.allocated.grow.proceeds orderly (List.Sublist.refl _)
      rw [Keeps, points]
      refine List.forall_mem_cons.mpr
        ⟨grown, List.forall_mem_singleton.mpr ⟨⟨leads.allocated, ?_⟩, leads.grown⟩⟩
      refine List.pairwise_append.mpr ⟨orderly.unshared, List.pairwise_singleton _ _, ?_⟩
      intro reference present other new same
      obtain rfl := List.mem_singleton.mp new
      have older := orderly.allocated.forward reference present
      rw [same] at older
      exact Nat.lt_irrefl _ older

theorem keeps_name (orderly : engine.Orderly) (name : String) (position : Position) :
    (Trace.name name position).Keeps engine := by
  refine keeps_get_bind orderly ?_
  generalize engine.lookup? name = found
  cases found with
  | none =>
      exact keeps_ite (fun _ => keeps_fail orderly _) fun _ => keeps_forward orderly name position
  | some symbol =>
      cases symbol with
      | builtin type => exact keeps_fail orderly _
      | _ => exact keeps_pure orderly _

theorem keeps_operation (orderly : engine.Orderly) (operator : BinaryOperator) {left right : Term}
    (first : left.Within engine.table.size) (second : right.Within engine.table.size)
    (position : Position) : (operation operator left right position).Keeps engine := by
  have pending : Keeps
      ((step (constrain left right)).bind fun _ => (step fresh).bind fun result =>
        (step (constrain result (operator.result left))).bind fun _ => step (pure result))
      engine := by
    refine keeps_step_bind orderly (allocates_constrain orderly.allocated first second)
      (steady_constrain _ _) ?_
    intro _ between proceeds _
    refine keeps_step_bind proceeds.orderly (allocates_fresh proceeds.allocated) steady_fresh ?_
    intro result last proceeds' fresh
    have tied := (operator.within_result first).mono (proceeds.trans proceeds').grown
    refine keeps_step_bind proceeds'.orderly (allocates_constrain proceeds'.allocated fresh tied)
      (steady_constrain _ _) ?_
    intro _ _ proceeds _
    exact keeps_pure proceeds.orderly _
  cases left with
  | pending placeholder => exact pending
  | concrete type =>
      cases right with
      | pending placeholder => exact pending
      | concrete type' =>
          refine keeps_step orderly
            (allocates_operation orderly.allocated operator first second position) ?_
          intro engine
          unfold Infer.operation
          dsimp only
          split
          · exact steady_pure _ engine
          · exact steady_fail _ engine

theorem keeps_application (orderly : engine.Orderly) (parameters : List Ty) {result : Term}
    {arguments : List Term} (within : Term.AllWithin engine.table.size arguments) :
    (application parameters result arguments).Keeps engine := by
  have pairs := within.zip_types parameters
  have all : Allocates (update (·.constrainAll (arguments.zip (parameters.map .concrete)))) engine
      anywhere := allocates_update (Engine.Allocated.constrainAll _ orderly.allocated pairs)
  refine keeps_ite (fun _ => ?_) fun _ => keeps_pure orderly _
  refine (keeps_constrainAll orderly pairs).bind all ?_
  intro _ _ proceeds _
  exact keeps_pure proceeds.orderly _

end Trace

end Infer

open Infer Infer.Trace

mutual

/-- Whatever the inference of an expression comes by is in order. -/
theorem Expr.keeps_trace : ∀ (e : Expr) {engine : Engine}, engine.Orderly → e.trace.Keeps engine
  | .identifier text position, _, orderly => keeps_name orderly text position
  | .member object property, _, orderly => by
      cases object with
      | identifier space position =>
          exact keeps_name orderly (qualifiedName space property) position
      | _ =>
          refine keeps_step orderly (meets_get_bind (allocates_fail orderly.allocated _ anywhere))
            ?_
          intro _
          exact List.Sublist.refl _
  | .call callee arguments, _, orderly => by
      refine (Expr.keeps_traceAll arguments orderly).bind
        (Expr.allocates_inferAll arguments orderly.allocated) ?_
      intro terms between proceeds within
      refine keeps_get_bind proceeds.orderly ?_
      generalize callee.symbol?.bind between.lookup? = found
      have other := Expr.keeps_trace callee proceeds.orderly
      cases found with
      | none => exact other
      | some symbol =>
          cases symbol with
          | function parameters result => exact keeps_application proceeds.orderly parameters within
          | _ => exact other
  | .binary operator left right, _, orderly => by
      refine (Expr.keeps_trace left orderly).bind (left.allocates_infer orderly.allocated) ?_
      intro first _ proceeds within
      refine (Expr.keeps_trace right proceeds.orderly).bind
        (right.allocates_infer proceeds.allocated) ?_
      intro second _ proceeds within'
      exact keeps_get_bind proceeds.orderly
        (keeps_operation proceeds.orderly operator (within.mono proceeds.grown) within' _)
  | .prefixed .negate operand, _, orderly => Expr.keeps_trace operand orderly
  | .prefixed .not operand, _, orderly => by
      refine (Expr.keeps_trace operand orderly).bind (operand.allocates_infer orderly.allocated) ?_
      intro term _ proceeds within
      refine keeps_step_bind proceeds.orderly
        (allocates_constrain proceeds.allocated within (Term.within_type .bool))
        (steady_constrain _ _) ?_
      intro _ _ proceeds _
      exact keeps_pure proceeds.orderly _
  | .postfixed _ operand, _, orderly => Expr.keeps_trace operand orderly
  | .number _, _, orderly | .string _, _, orderly | .boolean _, _, orderly | .null, _, orderly =>
      keeps_pure orderly _

theorem Expr.keeps_traceAll : ∀ (expressions : List Expr) {engine : Engine}, engine.Orderly →
    (Expr.traceAll expressions).Keeps engine
  | [], _, orderly => keeps_pure orderly _
  | first :: rest, _, orderly => by
      refine (Expr.keeps_trace first orderly).bind (first.allocates_infer orderly.allocated) ?_
      intro term _ proceeds _
      refine (Expr.keeps_traceAll rest proceeds.orderly).bind
        (Expr.allocates_inferAll rest proceeds.allocated) ?_
      intro terms _ proceeds _
      exact keeps_pure proceeds.orderly _

end

namespace Infer.Trace

variable {engine : Engine}

theorem keeps_condition (orderly : engine.Orderly) (e : Expr) : (condition e).Keeps engine :=
  (e.keeps_trace orderly).bind (e.allocates_infer orderly.allocated) fun _ _ proceeds within =>
    keeps_constrain proceeds.orderly within (Term.within_type _)

theorem keeps_pattern (orderly : engine.Orderly) {subject : Option Term}
    (inside : Term.AnyWithin engine.table.size subject) (e : Expr) :
    (pattern subject e).Keeps engine := by
  refine (e.keeps_trace orderly).bind (e.allocates_infer orderly.allocated) ?_
  intro term _ proceeds within
  cases subject with
  | none => exact keeps_pure proceeds.orderly _
  | some subject =>
      exact keeps_constrain proceeds.orderly ((inside subject rfl).mono proceeds.grown) within

theorem keeps_value? (orderly : engine.Orderly) (value : Option Expr) :
    (value? value).Keeps engine := by
  cases value with
  | none => exact keeps_pure orderly _
  | some e =>
      refine (e.keeps_trace orderly).bind (e.allocates_infer orderly.allocated) ?_
      intro _ _ proceeds _
      exact keeps_pure proceeds.orderly _

theorem keeps_returns (orderly : engine.Orderly) (value : Option Expr) :
    (returns value).Keeps engine := by
  refine (keeps_value? orderly value).bind (allocates_value? orderly.allocated value) ?_
  intro known between proceeds within
  have inside : (known.getD (.concrete .void)).Within between.table.size := by
    cases known with
    | none => exact Term.within_type _
    | some term => exact within term rfl
  have leads : between.Leads (between.addReturn (known.getD (.concrete .void))) := by
    refine ⟨proceeds.allocated.addReturn inside, Nat.le_of_eq ?_⟩
    unfold Engine.addReturn
    split <;> rfl
  refine keeps_step_bind proceeds.orderly (allocates_update leads) (steady_addReturn _) ?_
  intro _ _ proceeds _
  exact keeps_pure proceeds.orderly _

theorem keeps_parameter (orderly : engine.Orderly) (param : Parameter) :
    (parameter param).Keeps engine := by
  refine keeps_step_bind orderly (allocates_ofExcept orderly.allocated _) (steady_ofExcept _) ?_
  intro type _ proceeds _
  refine keeps_step_bind proceeds.orderly (allocates_define proceeds.allocated
    (Symbol.within_variable (Term.within_type type) true)) (steady_define _ _ _) ?_
  intro _ _ proceeds _
  exact keeps_pure proceeds.orderly _

theorem keeps_parameters (params : List Parameter) : ∀ {engine : Engine}, engine.Orderly →
    (parameters params).Keeps engine := by
  induction params with
  | nil => exact fun orderly => keeps_pure orderly _
  | cons first rest ih =>
      exact fun orderly => (keeps_parameter orderly first).bind
        (allocates_parameter orderly.allocated first) fun _ _ proceeds _ => ih proceeds.orderly

theorem last_declaring (name : String) (work : Infer α) :
    (Infer.declaring name work).last engine =
      { work.last { engine with
          declaring := if engine.scopes.isRoot then some name else engine.declaring } with
        declaring := none } := by
  unfold Infer.last Infer.declaring
  dsimp only
  generalize work { engine with
    declaring := if engine.scopes.isRoot then some name else engine.declaring } = ended
  cases ended <;> rfl

theorem Keeps.declaring {work : Infer α} {trace : Trace work} (orderly : engine.Orderly)
    (keeps : ∀ declaring, trace.Keeps { engine with declaring }) (name : String) :
    (declaring name trace).Keeps engine := by
  have inner := keeps (if engine.scopes.isRoot then some name else engine.declaring)
  refine List.forall_mem_cons.mpr ⟨⟨orderly.declaring _, Nat.le_refl _⟩,
    List.forall_mem_append.mpr ⟨fun point present => ?_, List.forall_mem_singleton.mpr ?_⟩⟩
  · exact ⟨(inner point present).orderly, (inner point present).grown⟩
  · rw [last_declaring]
    exact ⟨inner.last.orderly.declaring none, inner.last.grown⟩

theorem keeps_initial (orderly : engine.Orderly) (decl : Variable) :
    (initial decl).Keeps engine := by
  have anchored : engine.Leads { engine with anchor := decl.position } :=
    ⟨orderly.allocated.anchored _, Nat.le_refl _⟩
  refine keeps_step_bind orderly (allocates_update anchored)
    (steady_update fun _ => List.Sublist.refl _) ?_
  intro _ _ proceeds _
  refine keeps_step_bind proceeds.orderly (allocates_ofExcept proceeds.allocated _)
    (steady_ofExcept _) ?_
  intro annotated between proceeds _
  have values (declaring : Option String) :=
    allocates_value? (proceeds.allocated.declaring declaring) decl.value
  refine (Keeps.declaring proceeds.orderly
    (fun declaring => keeps_value? (proceeds.orderly.declaring declaring) decl.value)
    decl.name).bind (Allocates.declaring values decl.name) ?_
  intro _ _ proceeds _
  exact keeps_pure proceeds.orderly _

theorem keeps_orFresh (orderly : engine.Orderly) {known : Option Term}
    (inside : Term.AnyWithin engine.table.size known) : (step (orFresh known)).Keeps engine := by
  refine keeps_step orderly (allocates_orFresh orderly.allocated inside) ?_
  cases known with
  | none => exact steady_fresh
  | some term => exact steady_pure term

theorem keeps_declare (orderly : engine.Orderly) (decl : Variable) {known : Option Term}
    (inside : Term.AnyWithin engine.table.size known) : (declare decl known).Keeps engine := by
  refine (keeps_orFresh orderly inside).bind (allocates_orFresh orderly.allocated inside) ?_
  intro term _ proceeds within
  refine keeps_step_bind proceeds.orderly (allocates_define proceeds.allocated
    (Symbol.within_variable within _)) (steady_define _ _ _) ?_
  intro _ _ proceeds _
  have within := within.mono proceeds.grown
  refine (keeps_settleForward proceeds.orderly decl.name within).bind
    (allocates_update (proceeds.allocated.settleForward decl.name within)) ?_
  intro _ _ proceeds _
  exact keeps_pure proceeds.orderly _

theorem keeps_function (orderly : engine.Orderly) (header : FunctionHeader) :
    (function header).Keeps engine := by
  have anchored : engine.Leads { engine with anchor := header.position } :=
    ⟨orderly.allocated.anchored _, Nat.le_refl _⟩
  refine keeps_step_bind orderly (allocates_update anchored)
    (steady_update fun _ => List.Sublist.refl _) ?_
  intro _ _ proceeds _
  refine keeps_step_bind proceeds.orderly (allocates_ofExcept proceeds.allocated _)
    (steady_ofExcept _) ?_
  intro parameters _ proceeds _
  refine keeps_step_bind proceeds.orderly (allocates_ofExcept proceeds.allocated _)
    (steady_ofExcept _) ?_
  intro declared between proceeds _
  have known : Term.AnyWithin between.table.size (knownResult header declared) :=
    anyWithin_knownResult header declared
  refine (keeps_orFresh proceeds.orderly known).bind (allocates_orFresh proceeds.allocated known) ?_
  intro term _ proceeds within
  refine keeps_step_bind proceeds.orderly (allocates_define proceeds.allocated
    (Symbol.within_function _ within)) (steady_define _ _ _) ?_
  intro _ _ proceeds _
  have within := within.mono proceeds.grown
  refine (keeps_settleForward proceeds.orderly header.name within).bind
    (allocates_update (proceeds.allocated.settleForward header.name within)) ?_
  intro _ _ proceeds _
  exact keeps_pure proceeds.orderly _

theorem steady_commonReturn (header : FunctionHeader) (terms : List Term) :
    (Infer.commonReturn header terms).Steady := by
  unfold Infer.commonReturn
  split
  · exact fun engine => Meets.bind (steady_constrainAll _ engine)
  · split
    · exact steady_pure _
    · split
      · exact steady_pure _
      · exact steady_fail _

theorem keeps_commonReturn (orderly : engine.Orderly) (header : FunctionHeader)
    {terms : List Term} (within : Term.AllWithin engine.table.size terms) :
    (commonReturn header terms).Keeps engine := by
  refine keeps_through orderly (allocates_commonReturn orderly.allocated header within)
    (steady_commonReturn header terms) ?_
  split
  · next pending found =>
      exact proceeds_constrainAll orderly (within.tied _ (List.mem_of_find?_eq_some found))
  · exact List.forall_mem_nil _

theorem keeps_result (orderly : engine.Orderly) (header : FunctionHeader) (declared : Option Ty)
    {terms : List Term} (within : Term.AllWithin engine.table.size terms) :
    (result header declared terms).Keeps engine := by
  cases declared with
  | none => exact keeps_commonReturn orderly header within
  | some type => exact keeps_pure orderly _

theorem keeps_conclusion (orderly : engine.Orderly) (header : FunctionHeader)
    (declared : Option Ty) {before : Term} {terms : List Term}
    (inside : before.Within engine.table.size)
    (within : Term.AllWithin engine.table.size terms) :
    (conclusion header declared before terms).Keeps engine := by
  refine (keeps_result orderly header declared within).bind
    (allocates_result orderly.allocated header declared within) ?_
  intro after between proceeds found
  have inside := inside.mono proceeds.grown
  refine keeps_ite (fun _ => keeps_pure proceeds.orderly _) ?_
  intro _
  refine keeps_step_bind proceeds.orderly (allocates_constrain proceeds.allocated inside found)
    (steady_constrain _ _) ?_
  intro _ _ proceeds _
  exact keeps_pure proceeds.orderly _

end Infer.Trace

end SmallLang
