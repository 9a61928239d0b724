import SmallLang.Proofs.Inference.Outcomes
import SmallLang.Proofs.Inference.Runs
import SmallLang.Proofs.Table.Growth

/-!
# Placeholders are those of the table

Wherever a step of inference leaves a placeholder, in a scope, a constraint, a frame, among the
names that wait for a declaration or in its value, the table has a slot for it.
-/

set_option autoImplicit false

namespace SmallLang

theorem Term.within_type {count : Nat} (type : Ty) : (Term.concrete type).Within count := trivial

/-- All of some terms can be looked up in a table of so many placeholders. -/
def Term.AllWithin (count : Nat) (terms : List Term) : Prop := ∀ term ∈ terms, term.Within count

/-- A term can be looked up in a table of so many placeholders, if there is one. -/
def Term.AnyWithin (count : Nat) (term : Option Term) : Prop := ∀ found ∈ term, found.Within count

theorem Term.anyWithin_none {count : Nat} : AnyWithin count none := nofun

theorem Term.anyWithin_some {count : Nat} {term : Term} (within : term.Within count) :
    AnyWithin count (some term) :=
  fun _ same => Option.some.inj same ▸ within

/-- The term of a symbol can be looked up in a table of so many placeholders. -/
def Symbol.Within (count : Nat) (symbol : Symbol) : Prop := Term.AnyWithin count symbol.term?

theorem Symbol.within_variable {count : Nat} {term : Term} (within : term.Within count)
    (mutable : Bool) : (Symbol.variable term mutable).Within count :=
  Term.anyWithin_some within

theorem Symbol.within_function {count : Nat} {term : Term} (parameters : List Ty)
    (within : term.Within count) : (Symbol.function parameters term).Within count :=
  Term.anyWithin_some within

/-- The symbols of a scope have terms that can be looked up. -/
def Scope.Within (count : Nat) (scope : Scope) : Prop := ∀ entry ∈ scope, entry.2.Within count

/-- The symbols of all open scopes have terms that can be looked up. -/
structure Scopes.Within (count : Nat) (scopes : Scopes) : Prop where
  root : scopes.root.Within count
  inner : ∀ scope ∈ scopes.inner, Scope.Within count scope

section Growing

variable {count more : Nat}

theorem Term.AllWithin.mono {terms : List Term} (within : AllWithin count terms)
    (grown : count ≤ more) : AllWithin more terms :=
  fun term present => (within term present).mono grown

/-- The constraints between terms and types. -/
theorem Term.AllWithin.zip_types {terms : List Term} (within : AllWithin count terms)
    (types : List Ty) : ∀ pair ∈ terms.zip (types.map Term.concrete),
      pair.1.Within count ∧ pair.2.Within count := by
  intro pair present
  obtain ⟨first, second⟩ := List.of_mem_zip present
  obtain ⟨type, _, isType⟩ := List.mem_map.mp second
  exact ⟨within pair.1 first, isType ▸ Term.within_type type⟩

/-- The constraints that tie some of the terms to one of them. -/
theorem Term.AllWithin.tied {terms : List Term} {one : Term} (within : AllWithin count terms)
    (tie : Term → Bool) (present : one ∈ terms) :
    ∀ pair ∈ (terms.filter tie).map fun term => (one, term),
      pair.1.Within count ∧ pair.2.Within count := by
  intro pair listed
  obtain ⟨term, other, rfl⟩ := List.mem_map.mp listed
  exact ⟨within one present, within term (List.mem_filter.mp other).1⟩

theorem Term.AnyWithin.mono {term : Option Term} (within : AnyWithin count term)
    (grown : count ≤ more) : AnyWithin more term :=
  fun found present => (within found present).mono grown

theorem Scope.Within.mono {scope : Scope} (within : scope.Within count) (grown : count ≤ more) :
    scope.Within more :=
  fun entry present => Term.AnyWithin.mono (within entry present) grown

theorem Scope.Within.of_lookup {scope : Scope} {name : String} {symbol : Symbol}
    (within : scope.Within count) (found : scope.lookup name = some symbol) :
    symbol.Within count := by
  obtain ⟨before, after, rfl, _⟩ := List.lookup_eq_some_iff.mp found
  exact within (name, symbol) (List.mem_append_right _ List.mem_cons_self)

theorem Scopes.Within.mono {scopes : Scopes} (within : scopes.Within count) (grown : count ≤ more) :
    scopes.Within more where
  root := within.root.mono grown
  inner scope present := (within.inner scope present).mono grown

theorem Scopes.Within.of_resolve? {scopes : Scopes} {name : String} {symbol : Symbol}
    (within : scopes.Within count) (found : scopes.resolve? name = some symbol) :
    symbol.Within count := by
  obtain inside | ⟨_, outside⟩ := Option.or_eq_some_iff.mp found
  · obtain ⟨scope, present, found⟩ := List.exists_of_findSome?_eq_some inside
    exact (within.inner scope present).of_lookup found
  · exact within.root.of_lookup outside

theorem Scopes.Within.insert {scopes : Scopes} {symbol : Symbol} (within : scopes.Within count)
    (name : String) (inside : symbol.Within count) : (scopes.insert name symbol).Within count := by
  obtain ⟨root, inner⟩ := scopes
  obtain ⟨outside, scopes⟩ := within
  cases inner with
  | nil => exact ⟨List.forall_mem_cons.mpr ⟨inside, outside⟩, scopes⟩
  | cons scope outer =>
      obtain ⟨here, scopes⟩ := List.forall_mem_cons.mp scopes
      exact ⟨outside,
        List.forall_mem_cons.mpr ⟨List.forall_mem_cons.mpr ⟨inside, here⟩, scopes⟩⟩

end Growing

namespace Engine

/-- Every placeholder that the engine holds is one of its table's. -/
structure Allocated (engine : Engine) : Prop where
  scopes : engine.scopes.Within engine.table.size
  known : engine.known.Within engine.table.size
  constraints : ∀ constraint ∈ engine.constraints, constraint.Within engine.table.size
  forward : ∀ reference ∈ engine.forward, reference.placeholder.index < engine.table.size
  frames : ∀ frame ∈ engine.frames, Term.AllWithin engine.table.size frame

theorem allocated_start : start.Allocated where
  scopes := by
    refine ⟨fun entry present => ?_, List.forall_mem_nil _⟩
    obtain ⟨type, _, rfl⟩ := List.mem_map.mp present
    intro term isTerm
    cases isTerm
  known := List.forall_mem_nil _
  constraints := List.forall_mem_nil _
  forward := List.forall_mem_nil _
  frames := List.forall_mem_nil _

/-- The engine holds placeholders of its table, which has not become smaller. -/
structure Leads (engine engine' : Engine) : Prop where
  allocated : engine'.Allocated
  grown : engine.table.size ≤ engine'.table.size

variable {engine engine' engine'' : Engine}

theorem Allocated.leads (allocated : engine.Allocated) : engine.Leads engine :=
  ⟨allocated, Nat.le_refl _⟩

theorem Leads.trans (first : engine.Leads engine') (second : engine'.Leads engine'') :
    engine.Leads engine'' :=
  ⟨second.allocated, Nat.le_trans first.grown second.grown⟩

theorem Allocated.grow (allocated : engine.Allocated) : engine.Leads engine.grow := by
  have grown : engine.table.size ≤ engine.grow.table.size := by
    rw [Engine.grow, Table.size_grow]
    exact Nat.le_succ _
  exact ⟨⟨allocated.scopes.mono grown, allocated.known.mono grown,
    fun constraint present =>
      Constraint.Within.mono (allocated.constraints constraint present) grown,
    fun reference present => Nat.lt_of_lt_of_le (allocated.forward reference present) grown,
    fun frame present => (allocated.frames frame present).mono grown⟩, grown⟩

theorem Allocated.constrain (allocated : engine.Allocated) {left right : Term}
    (first : left.Within engine.table.size) (second : right.Within engine.table.size) :
    engine.Leads (engine.constrain left right) := by
  unfold Engine.constrain
  split
  · refine ⟨{ allocated with constraints := ?_ }, Nat.le_refl _⟩
    exact List.forall_mem_append.mpr
      ⟨allocated.constraints, List.forall_mem_singleton.mpr ⟨first, second⟩⟩
  · exact allocated.leads

theorem Allocated.constrainAll (pairs : List (Term × Term)) : ∀ {engine : Engine},
    engine.Allocated → (∀ pair ∈ pairs, pair.1.Within engine.table.size ∧
      pair.2.Within engine.table.size) → engine.Leads (engine.constrainAll pairs) := by
  induction pairs with
  | nil => exact fun allocated _ => allocated.leads
  | cons pair rest ih =>
      intro engine allocated within
      obtain ⟨here, within⟩ := List.forall_mem_cons.mp within
      have first := allocated.constrain here.1 here.2
      exact first.trans (ih first.allocated fun pair present =>
        ⟨(within pair present).1.mono first.grown, (within pair present).2.mono first.grown⟩)

theorem Allocated.settleForward (allocated : engine.Allocated) (name : String) {term : Term}
    (inside : term.Within engine.table.size) : engine.Leads (engine.settleForward name term) := by
  unfold Engine.settleForward
  split
  · split
    · exact allocated.leads
    · next reference found =>
        have rest : Engine.Allocated
            { engine with forward := engine.forward.filter (·.name != name) } :=
          { allocated with
            forward := fun reference present =>
              allocated.forward reference (List.mem_filter.mp present).1 }
        have here := allocated.forward reference (List.mem_of_find?_eq_some found)
        have settled := rest.constrain (show Term.Within _ (.pending _) from here) inside
        exact ⟨settled.allocated, settled.grown⟩
  · exact allocated.leads

theorem Allocated.push (allocated : engine.Allocated) : engine.push.Allocated :=
  { allocated with
    scopes := ⟨allocated.scopes.root,
      List.forall_mem_cons.mpr ⟨List.forall_mem_nil _, allocated.scopes.inner⟩⟩ }

theorem Allocated.pop (allocated : engine.Allocated) : engine.pop.Allocated :=
  { allocated with
    scopes := ⟨allocated.scopes.root,
      fun scope present => allocated.scopes.inner scope (List.mem_of_mem_tail present)⟩ }

theorem Allocated.enter (allocated : engine.Allocated) : engine.enter.Allocated :=
  { allocated.push with
    frames := List.forall_mem_cons.mpr ⟨List.forall_mem_nil _, allocated.frames⟩ }

theorem Allocated.leave (allocated : engine.Allocated) : engine.leave.Allocated :=
  { allocated.pop with
    frames := fun frame present => allocated.frames frame (List.mem_of_mem_tail present) }

theorem Allocated.returned (allocated : engine.Allocated) :
    Term.AllWithin engine.table.size engine.returned := by
  have frames := allocated.frames
  unfold Engine.returned
  generalize engine.frames = open_ at frames
  cases open_ with
  | nil => exact List.forall_mem_nil _
  | cons frame outer => exact frames frame List.mem_cons_self

theorem Allocated.addReturn (allocated : engine.Allocated) {term : Term}
    (inside : term.Within engine.table.size) : (engine.addReturn term).Allocated := by
  have frames := allocated.frames
  unfold Engine.addReturn
  split
  · exact allocated
  · next frame outer open_ =>
      rw [open_, List.forall_mem_cons] at frames
      refine { allocated with frames := List.forall_mem_cons.mpr ⟨?_, frames.2⟩ }
      exact List.forall_mem_append.mpr ⟨frames.1, List.forall_mem_singleton.mpr inside⟩

theorem Allocated.insert (allocated : engine.Allocated) (name : String) {symbol : Symbol}
    (inside : symbol.Within engine.table.size) :
    Engine.Allocated { engine with scopes := engine.scopes.insert name symbol } :=
  { allocated with scopes := allocated.scopes.insert name inside }

theorem Allocated.declaring (allocated : engine.Allocated) (declaring : Option String) :
    Engine.Allocated { engine with declaring } :=
  { allocated with }

theorem Allocated.anchored (allocated : engine.Allocated) (anchor : Position) :
    Engine.Allocated { engine with anchor } :=
  { allocated with }

theorem Allocated.of_lookup? (allocated : engine.Allocated) {name : String} {symbol : Symbol}
    (found : engine.lookup? name = some symbol) : symbol.Within engine.table.size := by
  obtain inside | ⟨_, earlier⟩ := Option.or_eq_some_iff.mp found
  · exact allocated.scopes.of_resolve? inside
  · exact allocated.known.of_lookup earlier

end Engine

namespace Infer

variable {α β : Type} {engine : Engine}

/-- A step leaves an engine with placeholders of its table, whatever comes of it, and so has a value
that it succeeds with. -/
def Allocates (work : Infer α) (engine : Engine) (inside : Nat → α → Prop) : Prop :=
  work.Meets engine (fun value engine' => engine.Leads engine' ∧ inside engine'.table.size value)
    fun _ => engine.Leads

/-- A value without a placeholder. -/
def anywhere (_ : Nat) (_ : α) : Prop := True

theorem allocates_pure (allocated : engine.Allocated) {value : α} {inside : Nat → α → Prop}
    (here : inside engine.table.size value) : Allocates (pure value) engine inside :=
  ⟨allocated.leads, here⟩

theorem allocates_fail (allocated : engine.Allocated) (error : Error) (inside : Nat → α → Prop) :
    Allocates (fail error) engine inside :=
  allocated.leads

theorem allocates_ofExcept (allocated : engine.Allocated) (result : Engine → Except Error α) :
    Allocates (ofExcept result) engine anywhere :=
  meets_ofExcept (fun _ _ => ⟨allocated.leads, trivial⟩) fun _ _ => allocated.leads

theorem allocates_update {step : Engine → Engine} (leads : engine.Leads (step engine)) :
    Allocates (update step) engine anywhere :=
  ⟨leads, trivial⟩

theorem Allocates.bind {first : Infer α} {second : α → Infer β} {middle : Nat → α → Prop}
    {inside : Nat → β → Prop} (before : Allocates first engine middle)
    (after : ∀ value between, engine.Leads between → middle between.table.size value →
      Allocates (second value) between inside) : Allocates (first >>= second) engine inside := by
  refine Meets.bind (before.imp (fun value between found => ?_) fun _ _ => id)
  refine (after value between found.1 found.2).imp
    (fun _ _ ends => ⟨found.1.trans ends.1, ends.2⟩) ?_
  intro _ _
  exact found.1.trans

theorem allocates_constrain (allocated : engine.Allocated) {left right : Term}
    (first : left.Within engine.table.size) (second : right.Within engine.table.size) :
    Allocates (constrain left right) engine anywhere :=
  allocates_update (allocated.constrain first second)

theorem allocates_fresh (allocated : engine.Allocated) : Allocates fresh engine Term.Within := by
  refine ⟨allocated.grow, ?_⟩
  change engine.table.size < engine.table.grow.size
  rw [Table.size_grow]
  exact Nat.lt_succ_self _

theorem allocates_define (allocated : engine.Allocated) {name : String} {symbol : Symbol}
    {position : Position} (inside : symbol.Within engine.table.size) :
    Allocates (define name symbol position) engine anywhere := by
  refine meets_define (fun scopes defined => ?_) fun _ _ => allocated.leads
  obtain ⟨_, _, rfl⟩ := Scopes.define_eq_ok_iff.mp defined
  exact ⟨⟨allocated.insert name inside, Nat.le_refl _⟩, trivial⟩

theorem allocates_forward (allocated : engine.Allocated) (name : String) (position : Position) :
    Allocates (forward name position) engine Term.Within := by
  unfold Allocates Meets forward
  cases known : engine.forward.find? (·.name == name) with
  | some reference =>
      exact ⟨allocated.leads, allocated.forward reference (List.mem_of_find?_eq_some known)⟩
  | none =>
      obtain ⟨grown, fresh⟩ := allocates_fresh allocated
      refine ⟨⟨{ grown.allocated with forward := ?_ }, grown.grown⟩, fresh⟩
      exact List.forall_mem_append.mpr
        ⟨grown.allocated.forward, List.forall_mem_singleton.mpr fresh⟩

theorem allocates_name (allocated : engine.Allocated) (name : String) (position : Position) :
    Allocates (Infer.name name position) engine Term.Within := by
  refine meets_get_bind ?_
  split
  · next found => exact allocates_pure allocated (allocated.of_lookup? found _ rfl)
  · next found => exact allocates_pure allocated (allocated.of_lookup? found _ rfl)
  · exact allocates_fail allocated _ _
  · split
    · exact allocates_fail allocated _ _
    · exact allocates_forward allocated name position

theorem allocates_operation (allocated : engine.Allocated) (operator : BinaryOperator)
    {left right : Term} (first : left.Within engine.table.size)
    (second : right.Within engine.table.size) (position : Position) :
    Allocates (operation operator left right position) engine Term.Within := by
  have result : ∀ {count : Nat}, left.Within count → (operator.result left).Within count := by
    intro count inside
    unfold BinaryOperator.result
    split
    · trivial
    · exact inside
  unfold operation
  split
  · split
    · exact allocates_pure allocated (result first)
    · exact allocates_fail allocated _ _
  · refine (allocates_constrain allocated first second).bind ?_
    intro _ between leads _
    refine (allocates_fresh leads.allocated).bind ?_
    intro term between' leads' fresh
    have grown := Nat.le_trans leads.grown leads'.grown
    refine (allocates_constrain leads'.allocated fresh (result (first.mono grown))).bind ?_
    intro _ _ leads'' _
    exact allocates_pure leads''.allocated (fresh.mono leads''.grown)

theorem allocates_application (allocated : engine.Allocated) (parameters : List Ty) {result : Term}
    {arguments : List Term} (inside : result.Within engine.table.size)
    (within : Term.AllWithin engine.table.size arguments) :
    Allocates (application parameters result arguments) engine Term.Within := by
  unfold application
  split
  · have pairs := within.zip_types parameters
    refine Allocates.bind (allocates_update (Engine.Allocated.constrainAll _ allocated pairs)) ?_
    intro _ _ leads _
    exact allocates_pure leads.allocated (inside.mono leads.grown)
  · exact allocates_pure allocated inside

end Infer

open Infer

mutual

/-- The term of an expression holds a placeholder of the table, if any. -/
theorem Expr.allocates_infer : ∀ (e : Expr) {engine : Engine}, engine.Allocated →
    e.infer.Allocates engine Term.Within
  | .identifier name position, _, allocated => allocates_name allocated name position
  | .member object property, _, allocated => by
      cases object with
      | identifier space position =>
          exact allocates_name allocated (qualifiedName space property) position
      | _ => exact meets_get_bind (allocates_fail allocated _ _)
  | .call callee arguments, _, allocated => by
      rw [Expr.infer]
      refine (Expr.allocates_inferAll arguments allocated).bind ?_
      intro terms between leads within
      refine meets_get_bind ?_
      split
      · next parameters result found =>
          obtain ⟨name, _, found⟩ := Option.bind_eq_some_iff.mp found
          have inside := leads.allocated.of_lookup? found
          exact allocates_application leads.allocated parameters (inside result rfl) within
      · exact Expr.allocates_infer callee leads.allocated
  | .binary operator left right, _, allocated => by
      rw [Expr.infer]
      refine (Expr.allocates_infer left allocated).bind ?_
      intro first _ leads within
      refine (Expr.allocates_infer right leads.allocated).bind ?_
      intro second _ leads within'
      exact meets_get_bind
        (allocates_operation leads.allocated operator (within.mono leads.grown) within' _)
  | .prefixed .negate operand, _, allocated => Expr.allocates_infer operand allocated
  | .prefixed .not operand, _, allocated => by
      rw [Expr.infer]
      refine (Expr.allocates_infer operand allocated).bind ?_
      intro term _ leads within
      refine (allocates_constrain leads.allocated within (Term.within_type .bool)).bind ?_
      intro _ _ leads _
      exact allocates_pure leads.allocated (Term.within_type .bool)
  | .postfixed _ operand, _, allocated => Expr.allocates_infer operand allocated
  | .number _, _, allocated | .string _, _, allocated | .boolean _, _, allocated
  | .null, _, allocated => allocates_pure allocated (Term.within_type _)

theorem Expr.allocates_inferAll : ∀ (expressions : List Expr) {engine : Engine},
    engine.Allocated → (Expr.inferAll expressions).Allocates engine Term.AllWithin
  | [], _, allocated => allocates_pure allocated (List.forall_mem_nil _)
  | first :: rest, _, allocated => by
      rw [Expr.inferAll]
      refine (Expr.allocates_infer first allocated).bind ?_
      intro term _ leads within
      refine (Expr.allocates_inferAll rest leads.allocated).bind ?_
      intro terms _ leads within'
      exact allocates_pure leads.allocated
        (List.forall_mem_cons.mpr ⟨within.mono leads.grown, within'⟩)

end

namespace Infer

variable {α : Type} {engine : Engine}

theorem allocates_condition (allocated : engine.Allocated) (e : Expr) :
    Allocates (condition e) engine anywhere :=
  (e.allocates_infer allocated).bind fun _ _ leads within =>
    allocates_constrain leads.allocated within (Term.within_type _)

theorem allocates_pattern (allocated : engine.Allocated) {subject : Option Term}
    (inside : Term.AnyWithin engine.table.size subject) (e : Expr) :
    Allocates (pattern subject e) engine anywhere := by
  refine (e.allocates_infer allocated).bind ?_
  intro term _ leads within
  cases subject with
  | none => exact allocates_pure leads.allocated trivial
  | some subject =>
      exact allocates_constrain leads.allocated ((inside subject rfl).mono leads.grown) within

theorem allocates_value? (allocated : engine.Allocated) (value : Option Expr) :
    Allocates (value? value) engine Term.AnyWithin := by
  cases value with
  | none => exact allocates_pure allocated Term.anyWithin_none
  | some e =>
      refine (e.allocates_infer allocated).bind ?_
      intro term _ leads within
      exact allocates_pure leads.allocated (Term.anyWithin_some within)

theorem allocates_returns (allocated : engine.Allocated) (value : Option Expr) :
    Allocates (returns value) engine Term.Within := by
  refine (allocates_value? allocated value).bind ?_
  intro known between leads within
  have inside : (known.getD (.concrete .void)).Within between.table.size := by
    cases known with
    | none => exact Term.within_type _
    | some term => exact within term rfl
  have same : (between.addReturn (known.getD (.concrete .void))).table = between.table := by
    unfold Engine.addReturn
    split <;> rfl
  refine Allocates.bind (allocates_update ⟨leads.allocated.addReturn inside, ?_⟩)
    fun _ _ leads _ => ?_
  · exact Nat.le_of_eq (by rw [same])
  · exact allocates_pure leads.allocated (inside.mono leads.grown)

theorem allocates_parameter (allocated : engine.Allocated) (param : Parameter) :
    Allocates (parameter param) engine Term.Within := by
  refine (allocates_ofExcept allocated _).bind ?_
  intro type _ leads _
  refine (allocates_define leads.allocated
    (Symbol.within_variable (Term.within_type type) true)).bind ?_
  intro _ _ leads _
  exact allocates_pure leads.allocated (Term.within_type type)

theorem allocates_parameters (params : List Parameter) : ∀ {engine : Engine}, engine.Allocated →
    Allocates (parameters params) engine anywhere := by
  induction params with
  | nil => exact fun allocated => allocates_pure allocated trivial
  | cons first rest ih =>
      exact fun allocated => (allocates_parameter allocated first).bind fun _ _ leads _ =>
        ih leads.allocated

theorem Allocates.declaring {work : Infer α} {inside : Nat → α → Prop}
    (allocates : ∀ declaring, Allocates work { engine with declaring } inside) (name : String) :
    Allocates (Infer.declaring name work) engine inside :=
  meets_declaring ((allocates _).imp
    (fun _ _ found => ⟨⟨found.1.allocated.declaring none, found.1.grown⟩, found.2⟩)
    fun _ _ leads => ⟨leads.allocated.declaring none, leads.grown⟩)

theorem allocates_initial (allocated : engine.Allocated) (decl : Variable) :
    Allocates (initial decl) engine Term.AnyWithin := by
  refine Allocates.bind (allocates_update ⟨allocated.anchored _, Nat.le_refl _⟩) ?_
  intro _ _ leads _
  refine (allocates_ofExcept leads.allocated _).bind ?_
  intro annotated _ leads _
  refine (Allocates.declaring
    (fun declaring => allocates_value? (leads.allocated.declaring declaring) decl.value)
    decl.name).bind ?_
  intro value _ leads within
  refine allocates_pure leads.allocated ?_
  intro term known
  cases annotated with
  | none => exact within term known
  | some type => exact Option.some.inj known ▸ Term.within_type type

theorem allocates_orFresh (allocated : engine.Allocated) {known : Option Term}
    (inside : Term.AnyWithin engine.table.size known) :
    Allocates (orFresh known) engine Term.Within := by
  cases known with
  | none => exact allocates_fresh allocated
  | some term => exact allocates_pure allocated (inside term rfl)

theorem allocates_declare (allocated : engine.Allocated) (decl : Variable) {known : Option Term}
    (inside : Term.AnyWithin engine.table.size known) :
    Allocates (declare decl known) engine Term.Within := by
  refine (allocates_orFresh allocated inside).bind ?_
  intro term _ leads within
  refine (allocates_define leads.allocated (Symbol.within_variable within _)).bind ?_
  intro _ _ leads _
  have within := within.mono leads.grown
  refine Allocates.bind (allocates_update (leads.allocated.settleForward decl.name within)) ?_
  intro _ _ leads _
  exact allocates_pure leads.allocated (within.mono leads.grown)

theorem anyWithin_knownResult {count : Nat} (header : FunctionHeader) (declared : Option Ty) :
    Term.AnyWithin count (knownResult header declared) := by
  unfold knownResult
  split
  · exact Term.anyWithin_some (Term.within_type _)
  · split
    · exact Term.anyWithin_some (Term.within_type _)
    · intro term known
      obtain ⟨type, _, rfl⟩ := Option.map_eq_some_iff.mp known
      exact Term.within_type type

theorem allocates_function (allocated : engine.Allocated) (header : FunctionHeader) :
    Allocates (function header) engine fun count found => found.2.Within count := by
  refine Allocates.bind (allocates_update ⟨allocated.anchored _, Nat.le_refl _⟩) ?_
  intro _ _ leads _
  refine (allocates_ofExcept leads.allocated _).bind ?_
  intro parameters _ leads _
  refine (allocates_ofExcept leads.allocated _).bind ?_
  intro declared _ leads _
  refine (allocates_orFresh leads.allocated (anyWithin_knownResult header declared)).bind ?_
  intro term _ leads within
  refine (allocates_define leads.allocated (Symbol.within_function _ within)).bind ?_
  intro _ _ leads _
  have within := within.mono leads.grown
  refine Allocates.bind (allocates_update (leads.allocated.settleForward header.name within)) ?_
  intro _ _ leads _
  exact allocates_pure leads.allocated (within.mono leads.grown)

theorem allocates_commonReturn (allocated : engine.Allocated) (header : FunctionHeader)
    {terms : List Term} (within : Term.AllWithin engine.table.size terms) :
    Allocates (commonReturn header terms) engine Term.Within := by
  unfold commonReturn
  split
  · next pending found =>
      have present := List.mem_of_find?_eq_some found
      have first := within pending present
      have pairs := within.tied (· != pending) present
      refine Allocates.bind (allocates_update (Engine.Allocated.constrainAll _ allocated pairs)) ?_
      intro _ _ leads _
      exact allocates_pure leads.allocated (first.mono leads.grown)
  · split
    · exact allocates_pure allocated (Term.within_type _)
    · split
      · exact allocates_pure allocated (Term.within_type _)
      · exact allocates_fail allocated _ _

theorem allocates_result (allocated : engine.Allocated) (header : FunctionHeader)
    (declared : Option Ty) {terms : List Term}
    (within : Term.AllWithin engine.table.size terms) :
    Allocates (result header declared terms) engine Term.Within := by
  cases declared with
  | none => exact allocates_commonReturn allocated header within
  | some type => exact allocates_pure allocated (Term.within_type type)

theorem allocates_conclusion (allocated : engine.Allocated) (header : FunctionHeader)
    (declared : Option Ty) {before : Term} {terms : List Term}
    (inside : before.Within engine.table.size)
    (within : Term.AllWithin engine.table.size terms) :
    Allocates (conclusion header declared before terms) engine Term.Within := by
  refine (allocates_result allocated header declared within).bind ?_
  intro after between leads found
  have inside := inside.mono leads.grown
  have better : (if after.isPending then before else after).Within between.table.size := by
    split
    · exact inside
    · exact found
  dsimp only
  split
  · exact allocates_pure leads.allocated better
  · refine (allocates_constrain leads.allocated inside found).bind ?_
    intro _ _ leads _
    exact allocates_pure leads.allocated (better.mono leads.grown)

end Infer

/-- A walk leaves an engine with placeholders of its table, whatever comes of it. -/
def Walk.Allocates {α : Type} (walk : Walk α) (engine : Engine) : Prop :=
  walk.Meets engine engine.Leads fun _ => engine.Leads

namespace Walk

variable {α β γ : Type} {engine : Engine}

theorem allocates_after {work : Infer γ} {part : α} {walk : γ → Walk α} {middle : Nat → γ → Prop}
    (before : work.Allocates engine middle)
    (after : ∀ value between, engine.Leads between → middle between.table.size value →
      (walk value).Allocates between) : (Walk.after work part walk).Allocates engine := by
  refine meets_after (before.imp (fun value between found => ?_) fun _ _ => id)
  exact (after value between found.1 found.2).imp (fun _ => found.1.trans) fun _ _ => found.1.trans

theorem allocates_still {work : Infer Term} (part : α) {inside : Nat → Term → Prop}
    (allocates : work.Allocates engine inside) : (still part work).Allocates engine :=
  meets_still (allocates.imp (fun _ _ found => found.1) fun _ _ => id)

theorem Allocates.within {walk : Walk α} (allocates : walk.Allocates engine) (whole : α → β) :
    (walk.within whole).Allocates engine :=
  Meets.within allocates

theorem Allocates.both {first : Walk α} {second : Walk β} (before : first.Allocates engine)
    (part : β) (after : ∀ between, engine.Leads between → second.Allocates between) :
    (first.both part second).Allocates engine :=
  Meets.both (before.imp (fun between leads => (after between leads).imp (fun _ => leads.trans)
    fun _ _ => leads.trans) fun _ _ => id)

theorem Allocates.inScope {walk : Walk α} (allocates : walk.Allocates engine.push) :
    walk.inScope.Allocates engine :=
  Meets.inScope (allocates.imp (fun _ leads => ⟨leads.allocated.pop, leads.grown⟩)
    fun _ _ leads => ⟨leads.allocated.pop, leads.grown⟩)

end Walk

open Walk

theorem Variable.allocates_walk (decl : Variable) {engine : Engine} (allocated : engine.Allocated) :
    decl.walk.Allocates engine :=
  allocates_after (allocates_initial allocated decl) fun _ _ leads within =>
    allocates_still _ (allocates_declare leads.allocated decl within)

theorem FunctionHeader.allocates_walkAlone (header : FunctionHeader) {engine : Engine}
    (allocated : engine.Allocated) : header.walkAlone.Allocates engine :=
  allocates_after (allocates_function allocated header) fun _ _ leads _ =>
    allocates_still _ (allocates_pure leads.allocated (Term.within_type _))

theorem FunctionHeader.allocates_walk (header : FunctionHeader) (body : List Stmt)
    {walk : Walk (List Stmt)} (inside : ∀ {engine : Engine}, engine.Allocated →
      walk.Allocates engine) {engine : Engine} (allocated : engine.Allocated) :
    (header.walk body walk).Allocates engine := by
  have left : ∀ {inner last : Engine}, inner.enter.Leads last → inner.Leads last.leave :=
    fun leads => ⟨leads.allocated.leave, leads.grown⟩
  refine header.meets_walk ((allocates_function allocated header).imp (fun found inner before => ?_)
    fun _ _ => id)
  obtain ⟨before, within⟩ := before
  refine (allocates_parameters header.parameters before.allocated.enter).imp
    (fun _ start taken => ?_) fun _ _ taken => before.trans (left taken)
  refine (inside taken.1.allocated).imp (fun last walked => ?_)
    fun _ _ walked => before.trans (left (taken.1.trans walked))
  have whole := taken.1.trans walked
  refine (allocates_conclusion (left whole).allocated header found.1
    (within.mono (left whole).grown) whole.allocated.returned).imp
    (fun _ _ ends => (before.trans (left whole)).trans ends.1) ?_
  intro _ _
  exact (before.trans (left whole)).trans

mutual

/-- A statement leaves an engine with placeholders of its table. -/
theorem Stmt.allocates_walk : ∀ (s : Stmt) {engine : Engine}, engine.Allocated →
    s.walk.Allocates engine
  | .expr e, _, allocated => allocates_still _ (e.allocates_infer allocated)
  | .comment _, _, allocated | .use _, _, allocated =>
      allocates_still _ (allocates_pure allocated (Term.within_type _))
  | .parameter param, _, allocated => allocates_still _ (allocates_parameter allocated param)
  | .returns value, _, allocated => allocates_still _ (allocates_returns allocated value)
  | .declare decl, _, allocated => decl.allocates_walk allocated
  | .function header none, _, allocated => (header.allocates_walkAlone allocated).within _
  | .function header (some body), _, allocated =>
      (header.allocates_walk body (Stmt.allocates_walkAll body) allocated).within _
  | .branch condition body alternate, _, allocated => by
      refine allocates_after (allocates_condition allocated condition) ?_
      intro _ _ leads _
      exact ((Stmt.allocates_walkAll body leads.allocated.push).inScope.both _ fun _ leads =>
        Alternate.allocates_walk alternate leads.allocated).within _
  | .loop condition body, _, allocated => by
      refine allocates_after (allocates_condition allocated condition) ?_
      intro _ _ leads _
      exact (Stmt.allocates_walkAll body leads.allocated.push).inScope.within _
  | .switch subject arms, _, allocated => by
      refine allocates_after (subject.allocates_infer allocated) ?_
      intro _ _ leads within
      exact (Arm.allocates_walkAll arms leads.allocated (Term.anyWithin_some within)).within _
  | .arm single, _, allocated =>
      (Arm.allocates_walk single allocated Term.anyWithin_none).within _
  | .merged body, _, allocated => (Stmt.allocates_walkAll body allocated).within _

theorem Alternate.allocates_walk : ∀ (alternate : Alternate) {engine : Engine},
    engine.Allocated → alternate.walk.Allocates engine
  | .none, _, allocated => allocates_still _ (allocates_pure allocated (Term.within_type _))
  | .elseBranch condition body alternate, _, allocated => by
      refine allocates_after (allocates_condition allocated condition) ?_
      intro _ _ leads _
      exact ((Stmt.allocates_walkAll body leads.allocated.push).inScope.both _ fun _ leads =>
        Alternate.allocates_walk alternate leads.allocated).within _
  | .otherwise body, _, allocated =>
      (Stmt.allocates_walkAll body allocated.push).inScope.within _

theorem Arm.allocates_walk : ∀ (arm : Arm) {subject : Option Term} {engine : Engine},
    engine.Allocated → Term.AnyWithin engine.table.size subject →
      (arm.walk subject).Allocates engine
  | .value pattern body, _, _, allocated, inside =>
      allocates_after (allocates_pattern allocated inside pattern) fun _ _ leads _ =>
        (Stmt.allocates_walkAll body leads.allocated.push).inScope.within _
  | .otherwise body, _, _, allocated, _ =>
      (Stmt.allocates_walkAll body allocated.push).inScope.within _

theorem Stmt.allocates_walkAll : ∀ (body : List Stmt) {engine : Engine}, engine.Allocated →
    (Stmt.walkAll body).Allocates engine
  | [], _, allocated => allocates_still _ (allocates_pure allocated (Term.within_type _))
  | first :: rest, _, allocated =>
      ((Stmt.allocates_walk first allocated).both _ fun _ leads =>
        Stmt.allocates_walkAll rest leads.allocated).within _

theorem Arm.allocates_walkAll : ∀ (arms : List Arm) {subject : Option Term} {engine : Engine},
    engine.Allocated → Term.AnyWithin engine.table.size subject →
      (Arm.walkAll subject arms).Allocates engine
  | [], _, _, allocated, _ =>
      allocates_still _ (allocates_pure allocated (Term.within_type _))
  | first :: rest, _, _, allocated, inside =>
      ((Arm.allocates_walk first allocated inside).both _ fun _ leads =>
        Arm.allocates_walkAll rest leads.allocated (inside.mono leads.grown)).within _

end

end SmallLang
