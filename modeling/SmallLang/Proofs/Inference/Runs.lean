import SmallLang.Inference
import SmallLang.Proofs.Scope.Lookup

/-!
# Successful runs

How a step of inference that succeeds is made up of its parts, read backwards: the value and
the engine at the end of each step determine those of the steps in it. Likewise for walks.
-/

set_option autoImplicit false

namespace SmallLang

/-- The term of a variable, or of what a function returns. -/
def Symbol.term? : Symbol → Option Term
  | .variable type _ => some type
  | .function _ result => some result
  | .builtin _ => none

namespace Infer

variable {α β : Type} {engine engine' : Engine}

/-- A step that succeeds with a value, and leaves an engine behind. -/
def Yields (work : Infer α) (engine : Engine) (value : α) (engine' : Engine) : Prop :=
  work engine = .ok value engine'

@[simp] theorem yields_pure {value found : α} :
    Yields (pure value) engine found engine' ↔ found = value ∧ engine' = engine := by
  constructor
  · rintro ⟨⟩
    exact ⟨rfl, rfl⟩
  · rintro ⟨rfl, rfl⟩
    rfl

@[simp] theorem yields_bind {first : Infer α} {second : α → Infer β} {found : β} :
    Yields (first >>= second) engine found engine' ↔
      ∃ value between, Yields first engine value between ∧
        Yields (second value) between found engine' := by
  change EStateM.bind first second engine = _ ↔ _
  unfold Yields
  cases begins : first engine with
  | ok value between =>
      simp only [EStateM.bind, begins]
      constructor
      · intro ends
        exact ⟨value, between, rfl, ends⟩
      · rintro ⟨_, _, ⟨⟩, ends⟩
        exact ends
  | error error between =>
      simp only [EStateM.bind, begins]
      constructor
      · rintro ⟨⟩
      · rintro ⟨_, _, ⟨⟩, _⟩

@[simp] theorem yields_get {found : Engine} :
    Yields get engine found engine' ↔ found = engine ∧ engine' = engine := by
  constructor
  · rintro ⟨⟩
    exact ⟨rfl, rfl⟩
  · rintro ⟨rfl, rfl⟩
    rfl

@[simp] theorem yields_fail {error : Error} {found : α} :
    Yields (fail error) engine found engine' ↔ False := by
  simp [Yields, fail]

@[simp] theorem yields_ofExcept {result : Engine → Except Error α} {found : α} :
    Yields (ofExcept result) engine found engine' ↔
      result engine = .ok found ∧ engine' = engine := by
  unfold Yields ofExcept
  cases result engine with
  | error error => simp
  | ok value => simp [eq_comm]

@[simp] theorem yields_update {step : Engine → Engine} {found : Unit} :
    Yields (update step) engine found engine' ↔ engine' = step engine := by
  simp [Yields, update, eq_comm]

@[simp] theorem yields_fresh {found : Term} :
    Yields fresh engine found engine' ↔
      found = .pending engine.table.next ∧ engine' = engine.grow := by
  simp [Yields, fresh, eq_comm]

@[simp] theorem yields_constrain {left right : Term} {found : Unit} :
    Yields (constrain left right) engine found engine' ↔
      engine' = engine.constrain left right :=
  yields_update

@[simp] theorem yields_define {name : String} {symbol : Symbol} {position : Position}
    {found : Unit} :
    Yields (define name symbol position) engine found engine' ↔
      Ty.isTypeName name = false ∧ engine.scopes.innermost.lookup name = none ∧
        engine' = { engine with scopes := engine.scopes.insert name symbol } := by
  unfold Yields define
  cases defined : engine.scopes.define name symbol position with
  | ok scopes =>
      obtain ⟨notType, new, rfl⟩ := Scopes.define_eq_ok_iff.mp defined
      simp [notType, new, eq_comm]
  | error error =>
      simp only [reduceCtorEq, false_iff, not_and]
      intro notType new
      rw [Scopes.define_eq_ok_iff.mpr ⟨notType, new, rfl⟩] at defined
      cases defined

@[simp] theorem yields_declaring {name : String} {work : Infer α} {found : α} :
    Yields (declaring name work) engine found engine' ↔
      ∃ between, Yields work
        { engine with
          declaring := if engine.scopes.isRoot then some name else engine.declaring }
        found between ∧ engine' = { between with declaring := none } := by
  unfold Yields declaring
  simp only
  generalize { engine with
    declaring := if engine.scopes.isRoot then some name else engine.declaring } = start
  cases ends : work start with
  | ok value between =>
      simp only
      constructor
      · rintro ⟨⟩
        exact ⟨between, rfl, rfl⟩
      · rintro ⟨_, ⟨⟩, rfl⟩
        rfl
  | error error between =>
      simp only
      constructor
      · rintro ⟨⟩
      · rintro ⟨_, ⟨⟩, _⟩

theorem yields_forward {name : String} {position : Position} {found : Term} :
    Yields (forward name position) engine found engine' ↔
      (∃ reference, engine.forward.find? (·.name == name) = some reference ∧
        found = .pending reference.placeholder ∧ engine' = engine) ∨
      engine.forward.find? (·.name == name) = none ∧ found = .pending engine.table.next ∧
        engine' = { engine.grow with
          forward := engine.forward ++ [⟨name, engine.table.next, position⟩] } := by
  unfold Yields forward
  cases known : engine.forward.find? (·.name == name) with
  | none => simp [eq_comm]
  | some reference => simp [eq_comm]

theorem yields_name {name : String} {position : Position} {found : Term} :
    Yields (Infer.name name position) engine found engine' ↔
      (∃ symbol, engine.lookup? name = some symbol ∧ symbol.term? = some found ∧
        engine' = engine) ∨
      engine.lookup? name = none ∧ engine.declaring ≠ some name ∧
        Yields (forward name position) engine found engine' := by
  unfold Infer.name
  simp only [yields_bind, yields_get]
  constructor
  · rintro ⟨_, _, ⟨rfl, rfl⟩, yields⟩
    split at yields
    · next known =>
        obtain ⟨rfl, rfl⟩ := yields_pure.mp yields
        exact .inl ⟨_, known, rfl, rfl⟩
    · next known =>
        obtain ⟨rfl, rfl⟩ := yields_pure.mp yields
        exact .inl ⟨_, known, rfl, rfl⟩
    · exact (yields_fail.mp yields).elim
    · next unknown =>
        split at yields
        · exact (yields_fail.mp yields).elim
        · next other => exact .inr ⟨unknown, other, yields⟩
  · rintro (⟨symbol, known, isTerm, rfl⟩ | ⟨unknown, other, yields⟩)
    · refine ⟨_, _, ⟨rfl, rfl⟩, ?_⟩
      rw [known]
      cases symbol <;> cases isTerm <;> exact yields_pure.mpr ⟨rfl, rfl⟩
    · refine ⟨_, _, ⟨rfl, rfl⟩, ?_⟩
      rw [unknown]
      simp only
      rw [if_neg other]
      exact yields

/-- A step ends in one way only. -/
theorem Yields.unique {work : Infer α} {value value' : α} {last last' : Engine}
    (yields : Yields work engine value last) (yields' : Yields work engine value' last') :
    value = value' ∧ last = last' := by
  unfold Yields at yields yields'
  rw [yields] at yields'
  cases yields'
  exact ⟨rfl, rfl⟩

end Infer

namespace Walk

variable {α β γ : Type} {engine engine' : Engine}

/-- A walk that succeeds: what it makes of its part, and the engine that it leaves behind. -/
def Ends (walk : Walk α) (engine : Engine) (part : α) (engine' : Engine) : Prop :=
  ∃ term, walk engine = ⟨part, engine', .ok term⟩

theorem ends_after {work : Infer γ} {part found : α} {walk : γ → Walk α} :
    Ends (after work part walk) engine found engine' ↔
      ∃ value between, Infer.Yields work engine value between ∧
        Ends (walk value) between found engine' := by
  unfold Ends after Infer.Yields
  cases begins : work engine with
  | ok value between =>
      constructor
      · rintro ⟨term, ends⟩
        exact ⟨value, between, rfl, term, ends⟩
      · rintro ⟨_, _, ⟨⟩, term, ends⟩
        exact ⟨term, ends⟩
  | error error between =>
      constructor
      · rintro ⟨term, ⟨⟩⟩
      · rintro ⟨_, _, ⟨⟩, _⟩

theorem ends_still {work : Infer Term} {part found : α} :
    Ends (still part work) engine found engine' ↔
      found = part ∧ ∃ term, Infer.Yields work engine term engine' := by
  unfold still
  rw [ends_after]
  constructor
  · rintro ⟨value, between, yields, term, ⟨⟩⟩
    exact ⟨rfl, value, yields⟩
  · rintro ⟨rfl, term, yields⟩
    exact ⟨term, engine', yields, term, rfl⟩

theorem ends_map {walk : Walk α} {whole : α → β} {found : β} :
    Ends (map walk whole) engine found engine' ↔
      ∃ part, Ends walk engine part engine' ∧ found = whole part := by
  unfold Ends map
  constructor
  · rintro ⟨term, ends⟩
    obtain ⟨rfl, rfl, ended⟩ := Walked.mk.inj ends
    exact ⟨(walk engine).part, ⟨term, by rw [← ended]⟩, rfl⟩
  · rintro ⟨part, ⟨term, ends⟩, rfl⟩
    exact ⟨term, by rw [ends]⟩

theorem ends_within {walk : Walk α} {whole : α → β} {found : β} :
    Ends (within walk whole) engine found engine' ↔
      ∃ part, Ends walk engine part engine' ∧ found = whole part := by
  unfold Ends within
  constructor
  · rintro ⟨term, ends⟩
    obtain ⟨rfl, rfl, ended⟩ := Walked.mk.inj ends
    cases outcome : (walk engine).outcome with
    | error error =>
        rw [outcome] at ended
        cases ended
    | ok value => exact ⟨(walk engine).part, ⟨value, by rw [← outcome]⟩, rfl⟩
  · rintro ⟨part, ⟨term, ends⟩, rfl⟩
    exact ⟨.concrete .void, by rw [ends]; rfl⟩

theorem ends_both {first : Walk α} {part : β} {second : Walk β} {found : α × β} :
    Ends (both first part second) engine found engine' ↔
      ∃ between, Ends first engine found.1 between ∧ Ends second between found.2 engine' := by
  unfold Ends both
  cases outcome : (first engine).outcome with
  | error error =>
      simp only [outcome]
      constructor
      · rintro ⟨term, ⟨⟩⟩
      · rintro ⟨between, ⟨term, ends⟩, _⟩
        rw [ends] at outcome
        cases outcome
  | ok value =>
      simp only [outcome]
      constructor
      · rintro ⟨term, ends⟩
        obtain ⟨rfl, rfl, ended⟩ := Walked.mk.inj ends
        exact ⟨(first engine).engine, ⟨value, by rw [← outcome]⟩, term, by rw [← ended]⟩
      · rintro ⟨between, ⟨value', begins⟩, term, ends⟩
        exact ⟨term, by rw [begins, ends]⟩

theorem ends_inScope {walk : Walk α} {found : α} :
    Ends (inScope walk) engine found engine' ↔
      ∃ between, Ends walk engine.push found between ∧ engine' = between.pop := by
  unfold Ends inScope
  constructor
  · rintro ⟨term, ends⟩
    obtain ⟨rfl, rfl, ended⟩ := Walked.mk.inj ends
    exact ⟨(walk engine.push).engine, ⟨term, by rw [← ended]⟩, rfl⟩
  · rintro ⟨between, ⟨term, ends⟩, rfl⟩
    exact ⟨term, by rw [ends]⟩

end Walk

open Walk Infer

theorem Variable.ends_walk {decl found : Variable} {engine engine' : Engine} :
    decl.walk.Ends engine found engine' ↔
      ∃ known between term, Yields (initial decl) engine known between ∧
        Yields (Infer.declare decl known) between term engine' ∧
        found = { decl with resolved := known.or decl.resolved } := by
  unfold Variable.walk
  simp only [ends_after, ends_still]
  constructor
  · rintro ⟨known, between, begins, rfl, term, ends⟩
    exact ⟨known, between, term, begins, ends, rfl⟩
  · rintro ⟨known, between, term, begins, ends, rfl⟩
    exact ⟨known, between, begins, rfl, term, ends⟩

theorem FunctionHeader.ends_walkAlone {header found : FunctionHeader} {engine engine' : Engine} :
    header.walkAlone.Ends engine found engine' ↔
      ∃ declared term, Yields (Infer.function header) engine (declared, term) engine' ∧
        found = { header with resolved := some term } := by
  unfold FunctionHeader.walkAlone
  simp only [ends_after, ends_still, yields_pure]
  constructor
  · rintro ⟨⟨declared, term⟩, between, yields, rfl, _, _, rfl⟩
    exact ⟨declared, term, yields, rfl⟩
  · rintro ⟨declared, term, yields, rfl⟩
    exact ⟨(declared, term), engine', yields, rfl, _, rfl, rfl⟩

theorem FunctionHeader.ends_walk {header : FunctionHeader} {body : List Stmt}
    {walk : Walk (List Stmt)} {found : FunctionHeader × List Stmt} {engine engine' : Engine} :
    (header.walk body walk).Ends engine found engine' ↔
      ∃ declared before inner start last term,
        Yields (Infer.function header) engine (declared, before) inner ∧
        Yields (Infer.parameters header.parameters) inner.enter () start ∧
        walk.Ends start found.2 last ∧
        Yields (conclusion header declared before last.returned) last.leave term engine' ∧
        found.1 = { header with resolved := some term } := by
  obtain ⟨found, foundBody⟩ := found
  unfold FunctionHeader.walk
  rw [ends_after]
  constructor
  · rintro ⟨⟨declared, before⟩, inner, begins, term, ends⟩
    simp only at ends
    cases outcome : (Walk.after (Infer.parameters header.parameters) body (fun _ => walk)
      inner.enter).outcome with
    | error error =>
        rw [outcome] at ends
        cases ends
    | ok value =>
        rw [outcome] at ends
        obtain ⟨noted, between, concluded, ended⟩ := ends_after.mp ⟨term, ends⟩
        obtain ⟨same, _, stays⟩ := ends_still.mp ended
        obtain ⟨rfl, rfl⟩ := Prod.mk.inj same
        obtain ⟨_, rfl⟩ := yields_pure.mp stays
        obtain ⟨_, start, taken, walked⟩ := ends_after.mp
          (show Ends (Walk.after (Infer.parameters header.parameters) body fun _ => walk)
            inner.enter _ _ from ⟨value, by rw [← outcome]⟩)
        exact ⟨declared, before, inner, start, _, noted, begins, taken, walked, concluded, rfl⟩
  · rintro ⟨declared, before, inner, start, last, noted, begins, taken, ⟨value, walked⟩,
      concluded, rfl⟩
    have inside : Walk.after (Infer.parameters header.parameters) body (fun _ => walk)
        inner.enter = ⟨foundBody, last, .ok value⟩ := by
      simp only [Walk.after]
      rw [show Infer.parameters header.parameters inner.enter = .ok () start from taken]
      exact walked
    refine ⟨(declared, before), inner, begins, ?_⟩
    simp only [Ends, inside]
    refine ends_after.mpr ⟨noted, engine', concluded, ends_still.mpr ⟨rfl, ?_⟩⟩
    exact ⟨_, yields_pure.mpr ⟨rfl, rfl⟩⟩

namespace Infer

variable {engine engine' : Engine}

theorem yields_condition {e : Expr} {found : Unit} :
    Yields (condition e) engine found engine' ↔
      ∃ term between, Yields e.infer engine term between ∧
        engine' = between.constrain term (.concrete .bool) := by
  simp only [condition, yields_bind, yields_constrain]

theorem yields_initial {decl : Variable} {known : Option Term} :
    Yields (initial decl) engine known engine' ↔
      ∃ annotated value between, engine.scopes.typeOf? decl.typeName = .ok annotated ∧
        Yields (value? decl.value)
          { engine with
            anchor := decl.position
            declaring := if engine.scopes.isRoot then some decl.name else engine.declaring }
          value between ∧
        engine' = { between with declaring := none } ∧
        known = (annotated.map Term.concrete).or value := by
  unfold initial
  simp only [yields_bind, yields_update, yields_ofExcept, yields_declaring, yields_pure]
  constructor
  · rintro ⟨_, _, rfl, annotated, _, ⟨isType, rfl⟩, value, _, ⟨between, yields, rfl⟩, rfl, rfl⟩
    exact ⟨annotated, value, between, isType, yields, rfl, rfl⟩
  · rintro ⟨annotated, value, between, isType, yields, rfl, rfl⟩
    exact ⟨(), _, rfl, annotated, _, ⟨isType, rfl⟩, value, _, ⟨between, yields, rfl⟩, rfl, rfl⟩

theorem yields_declare {decl : Variable} {known : Option Term} {term : Term} :
    Yields (declare decl known) engine term engine' ↔
      ∃ between, Yields (orFresh known) engine term between ∧
        Ty.isTypeName decl.name = false ∧
        between.scopes.innermost.lookup decl.name = none ∧
        engine' = { between with
          scopes := between.scopes.insert decl.name (.variable term decl.mutable)
          }.settleForward decl.name term := by
  unfold declare
  simp only [yields_bind, yields_update, yields_define, yields_pure]
  constructor
  · rintro ⟨term', between, yields, _, _, ⟨notType, new, rfl⟩, _, _, rfl, rfl, rfl⟩
    exact ⟨between, yields, notType, new, rfl⟩
  · rintro ⟨between, yields, notType, new, rfl⟩
    exact ⟨term, between, yields, (), _, ⟨notType, new, rfl⟩, (), _, rfl, rfl, rfl⟩

theorem yields_parameter {param : Parameter} {term : Term} :
    Yields (parameter param) engine term engine' ↔
      ∃ type, engine.scopes.typeOf param.typeName = .ok type ∧
        Ty.isTypeName param.name = false ∧ engine.scopes.innermost.lookup param.name = none ∧
        engine' = { engine with
          scopes := engine.scopes.insert param.name (.variable (.concrete type) true) } ∧
        term = .concrete type := by
  unfold parameter
  simp only [yields_bind, yields_ofExcept, yields_define, yields_pure]
  constructor
  · rintro ⟨type, _, ⟨isType, rfl⟩, _, _, ⟨notType, new, rfl⟩, rfl, rfl⟩
    exact ⟨type, isType, notType, new, rfl, rfl⟩
  · rintro ⟨type, isType, notType, new, rfl, rfl⟩
    exact ⟨type, _, ⟨isType, rfl⟩, (), _, ⟨notType, new, rfl⟩, rfl, rfl⟩

theorem yields_returns {value : Option Expr} {term : Term} :
    Yields (returns value) engine term engine' ↔
      ∃ known between, Yields (value? value) engine known between ∧
        term = known.getD (.concrete .void) ∧ engine' = between.addReturn term := by
  unfold returns
  simp only [yields_bind, yields_update, yields_pure]
  constructor
  · rintro ⟨known, between, yields, _, _, rfl, rfl, rfl⟩
    exact ⟨known, between, yields, rfl, rfl⟩
  · rintro ⟨known, between, yields, rfl, rfl⟩
    exact ⟨known, between, yields, (), _, rfl, rfl, rfl⟩

theorem yields_function {header : FunctionHeader} {declared : Option Ty} {term : Term} :
    Yields (function header) engine (declared, term) engine' ↔
      ∃ parameters between,
        engine.scopes.typesOf (header.parameters.map (·.typeName)) = .ok parameters ∧
        engine.scopes.typeOf? header.returns = .ok declared ∧
        Yields (orFresh (knownResult header declared))
          { engine with anchor := header.position } term between ∧
        Ty.isTypeName header.name = false ∧
        between.scopes.innermost.lookup header.name = none ∧
        engine' = { between with
          scopes := between.scopes.insert header.name (.function parameters term)
          }.settleForward header.name term := by
  unfold function
  simp only [yields_bind, yields_update, yields_ofExcept, yields_define, yields_pure]
  constructor
  · rintro ⟨_, _, rfl, parameters, _, ⟨areTypes, rfl⟩, _, _, ⟨isType, rfl⟩, _, between, yields,
      _, _, ⟨notType, new, rfl⟩, _, _, rfl, ⟨⟩, rfl⟩
    exact ⟨parameters, between, areTypes, isType, yields, notType, new, rfl⟩
  · rintro ⟨parameters, between, areTypes, isType, yields, notType, new, rfl⟩
    exact ⟨(), _, rfl, parameters, _, ⟨areTypes, rfl⟩, declared, _, ⟨isType, rfl⟩, term, between,
      yields, (), _, ⟨notType, new, rfl⟩, (), _, rfl, rfl, rfl⟩

theorem yields_commonReturn_of_pending {header : FunctionHeader} {terms : List Term}
    {pending term : Term} (found : terms.find? Term.isPending = some pending) :
    Yields (commonReturn header terms) engine term engine' ↔
      term = pending ∧ engine' = engine.constrainAll
        ((terms.filter (· != pending)).map fun term => (pending, term)) := by
  unfold commonReturn
  rw [found]
  simp only [yields_bind, yields_update, yields_pure]
  constructor
  · rintro ⟨_, _, rfl, rfl, rfl⟩
    exact ⟨rfl, rfl⟩
  · rintro ⟨rfl, rfl⟩
    exact ⟨(), _, rfl, rfl, rfl⟩

theorem yields_commonReturn_of_types {header : FunctionHeader} {types : List Ty} {term : Term} :
    Yields (commonReturn header (types.map Term.concrete)) engine term engine' ↔
      term = .concrete (types.headD .void) ∧ engine' = engine ∧
        ∀ type ∈ types, (types.headD .void).kind = type.kind := by
  have known : (types.map Term.concrete).find? Term.isPending = none := by
    simp [Term.isPending]
  have same : (types.map Term.concrete).filterMap Term.type? = types := by
    rw [List.filterMap_map]
    exact List.filterMap_some
  unfold commonReturn
  rw [known, same]
  cases types with
  | nil => simp
  | cons first rest =>
      dsimp only
      cases differs : rest.find? fun type => !first.sameKind type with
      | none =>
          rw [List.find?_eq_none] at differs
          simp only [yields_pure, List.headD_cons, List.mem_cons, forall_eq_or_imp, true_and]
          constructor
          · rintro ⟨rfl, rfl⟩
            refine ⟨rfl, rfl, fun type present => ?_⟩
            simpa [Ty.sameKind] using differs type present
          · rintro ⟨rfl, rfl, _⟩
            exact ⟨rfl, rfl⟩
      | some other =>
          have present := List.mem_of_find?_eq_some differs
          have differs' := List.find?_some differs
          simp only [yields_fail, false_iff, not_and]
          rintro _ _ agree
          have same := agree other (List.mem_cons_of_mem first present)
          simp only [List.headD_cons] at same
          simp [Ty.sameKind, same] at differs'

theorem yields_conclusion {header : FunctionHeader} {declared : Option Ty} {before term : Term}
    {terms : List Term} :
    Yields (conclusion header declared before terms) engine term engine' ↔
      ∃ after between, Yields (result header declared terms) engine after between ∧
        term = (if after.isPending then before else after) ∧
        engine' = if after = before then between else between.constrain before after := by
  unfold conclusion
  simp only [yields_bind]
  constructor
  · rintro ⟨after, between, yields, ends⟩
    refine ⟨after, between, yields, ?_⟩
    by_cases same : after = before
    · rw [if_pos same] at ends ⊢
      exact yields_pure.mp ends
    · rw [if_neg same] at ends ⊢
      simp only [yields_bind, yields_constrain, yields_pure] at ends
      obtain ⟨_, _, rfl, rfl, rfl⟩ := ends
      exact ⟨rfl, rfl⟩
  · rintro ⟨after, between, yields, rfl, rfl⟩
    refine ⟨after, between, yields, ?_⟩
    by_cases same : after = before
    · rw [if_pos same, if_pos same]
      exact yields_pure.mpr ⟨rfl, rfl⟩
    · rw [if_neg same, if_neg same]
      exact yields_bind.mpr ⟨(), _, yields_constrain.mpr rfl, yields_pure.mpr ⟨rfl, rfl⟩⟩

theorem yields_value?_none {found : Option Term} :
    Yields (value? none) engine found engine' ↔ found = none ∧ engine' = engine :=
  yields_pure

theorem yields_value?_some {e : Expr} {found : Option Term} :
    Yields (value? (some e)) engine found engine' ↔
      ∃ term, Yields e.infer engine term engine' ∧ found = some term := by
  unfold value?
  simp only [yields_bind, yields_pure]
  constructor
  · rintro ⟨term, _, yields, rfl, rfl⟩
    exact ⟨term, yields, rfl⟩
  · rintro ⟨term, yields, rfl⟩
    exact ⟨term, engine', yields, rfl, rfl⟩

end Infer

section Walks

variable {engine engine' : Engine}

theorem Stmt.ends_returns {value : Option Expr} {found : Stmt} :
    (Stmt.returns value).walk.Ends engine found engine' ↔
      found = .returns value ∧ ∃ term, Yields (Infer.returns value) engine term engine' := by
  exact ends_still

theorem Stmt.ends_declare {decl : Variable} {found : Stmt} :
    (Stmt.declare decl).walk.Ends engine found engine' ↔
      ∃ decl', decl.walk.Ends engine decl' engine' ∧ found = .declare decl' := by
  exact ends_map

theorem Stmt.ends_prototype {header : FunctionHeader} {found : Stmt} :
    (Stmt.function header none).walk.Ends engine found engine' ↔
      ∃ declared term, Yields (Infer.function header) engine (declared, term) engine' ∧
        found = .function { header with resolved := some term } none := by
  refine (@ends_within _ _ _ _ header.walkAlone (fun header => Stmt.function header none)
    found).trans ?_
  simp only [FunctionHeader.ends_walkAlone]
  constructor
  · rintro ⟨_, ⟨declared, term, yields, rfl⟩, rfl⟩
    exact ⟨declared, term, yields, rfl⟩
  · rintro ⟨declared, term, yields, rfl⟩
    exact ⟨_, ⟨declared, term, yields, rfl⟩, rfl⟩

theorem Stmt.ends_function {header : FunctionHeader} {body : List Stmt} {found : Stmt} :
    (Stmt.function header (some body)).walk.Ends engine found engine' ↔
      ∃ declared before inner start body' last term,
        Yields (Infer.function header) engine (declared, before) inner ∧
        Yields (Infer.parameters header.parameters) inner.enter () start ∧
        (Stmt.walkAll body).Ends start body' last ∧
        Yields (conclusion header declared before last.returned) last.leave term engine' ∧
        found = .function { header with resolved := some term } (some body') := by
  refine (@ends_within _ _ _ _ (header.walk body (Stmt.walkAll body))
    (fun part => Stmt.function part.1 (some part.2)) found).trans ?_
  simp only [FunctionHeader.ends_walk]
  constructor
  · rintro ⟨⟨header', body'⟩, ⟨declared, before, inner, start, last, term, yields, taken, walked,
      concluded, rfl⟩, rfl⟩
    exact ⟨declared, before, inner, start, body', last, term, yields, taken, walked, concluded,
      rfl⟩
  · rintro ⟨declared, before, inner, start, body', last, term, yields, taken, walked, concluded,
      rfl⟩
    exact ⟨(_, body'), ⟨declared, before, inner, start, last, term, yields, taken, walked,
      concluded, rfl⟩, rfl⟩

theorem Stmt.ends_branch {condition : Expr} {body : List Stmt} {alternate : Alternate}
    {found : Stmt} :
    (Stmt.branch condition body alternate).walk.Ends engine found engine' ↔
      ∃ between body' last alternate', Yields (Infer.condition condition) engine () between ∧
        (Stmt.walkAll body).Ends between.push body' last ∧
        alternate.walk.Ends last.pop alternate' engine' ∧
        found = .branch condition body' alternate' := by
  refine ends_after.trans ?_
  simp only [ends_within, ends_both, ends_inScope]
  constructor
  · rintro ⟨_, between, yields, ⟨body', alternate'⟩, ⟨_, ⟨last, walked, rfl⟩, walked'⟩, rfl⟩
    exact ⟨between, body', last, alternate', yields, walked, walked', rfl⟩
  · rintro ⟨between, body', last, alternate', yields, walked, walked', rfl⟩
    exact ⟨(), between, yields, (body', alternate'), ⟨_, ⟨last, walked, rfl⟩, walked'⟩, rfl⟩

theorem Stmt.ends_loop {condition : Expr} {body : List Stmt} {found : Stmt} :
    (Stmt.loop condition body).walk.Ends engine found engine' ↔
      ∃ between body' last, Yields (Infer.condition condition) engine () between ∧
        (Stmt.walkAll body).Ends between.push body' last ∧ engine' = last.pop ∧
        found = .loop condition body' := by
  refine ends_after.trans ?_
  simp only [ends_within, ends_inScope]
  constructor
  · rintro ⟨_, between, yields, body', ⟨last, walked, rfl⟩, rfl⟩
    exact ⟨between, body', last, yields, walked, rfl, rfl⟩
  · rintro ⟨between, body', last, yields, walked, rfl, rfl⟩
    exact ⟨(), between, yields, body', ⟨last, walked, rfl⟩, rfl⟩

theorem Stmt.ends_switch {subject : Expr} {arms : List Arm} {found : Stmt} :
    (Stmt.switch subject arms).walk.Ends engine found engine' ↔
      ∃ term between arms', Yields subject.infer engine term between ∧
        (Arm.walkAll (some term) arms).Ends between arms' engine' ∧
        found = .switch subject arms' := by
  refine ends_after.trans ?_
  simp only [ends_within]
  constructor
  · rintro ⟨term, between, yields, arms', walked, rfl⟩
    exact ⟨term, between, arms', yields, walked, rfl⟩
  · rintro ⟨term, between, arms', yields, walked, rfl⟩
    exact ⟨term, between, yields, arms', walked, rfl⟩

theorem Stmt.ends_arm {single : Arm} {found : Stmt} :
    (Stmt.arm single).walk.Ends engine found engine' ↔
      ∃ single', (single.walk none).Ends engine single' engine' ∧ found = .arm single' := by
  exact ends_within

theorem Stmt.ends_merged {body : List Stmt} {found : Stmt} :
    (Stmt.merged body).walk.Ends engine found engine' ↔
      ∃ body', (Stmt.walkAll body).Ends engine body' engine' ∧ found = .merged body' := by
  exact ends_within

theorem Alternate.ends_elseBranch {condition : Expr} {body : List Stmt} {alternate : Alternate}
    {found : Alternate} :
    (Alternate.elseBranch condition body alternate).walk.Ends engine found engine' ↔
      ∃ between body' last alternate', Yields (Infer.condition condition) engine () between ∧
        (Stmt.walkAll body).Ends between.push body' last ∧
        alternate.walk.Ends last.pop alternate' engine' ∧
        found = .elseBranch condition body' alternate' := by
  refine ends_after.trans ?_
  simp only [ends_within, ends_both, ends_inScope]
  constructor
  · rintro ⟨_, between, yields, ⟨body', alternate'⟩, ⟨_, ⟨last, walked, rfl⟩, walked'⟩, rfl⟩
    exact ⟨between, body', last, alternate', yields, walked, walked', rfl⟩
  · rintro ⟨between, body', last, alternate', yields, walked, walked', rfl⟩
    exact ⟨(), between, yields, (body', alternate'), ⟨_, ⟨last, walked, rfl⟩, walked'⟩, rfl⟩

theorem Alternate.ends_otherwise {body : List Stmt} {found : Alternate} :
    (Alternate.otherwise body).walk.Ends engine found engine' ↔
      ∃ body' last, (Stmt.walkAll body).Ends engine.push body' last ∧ engine' = last.pop ∧
        found = .otherwise body' := by
  refine ends_within.trans ?_
  simp only [ends_inScope]
  constructor
  · rintro ⟨body', ⟨last, walked, rfl⟩, rfl⟩
    exact ⟨body', last, walked, rfl, rfl⟩
  · rintro ⟨body', last, walked, rfl, rfl⟩
    exact ⟨body', ⟨last, walked, rfl⟩, rfl⟩

theorem Alternate.ends_none {found : Alternate} :
    Alternate.none.walk.Ends engine found engine' ↔ found = .none ∧ engine' = engine := by
  refine ends_still.trans ?_
  simp

theorem Arm.ends_value {subject : Option Term} {pattern : Expr} {body : List Stmt}
    {found : Arm} :
    ((Arm.value pattern body).walk subject).Ends engine found engine' ↔
      ∃ between body' last, Yields (Infer.pattern subject pattern) engine () between ∧
        (Stmt.walkAll body).Ends between.push body' last ∧ engine' = last.pop ∧
        found = .value pattern body' := by
  refine ends_after.trans ?_
  simp only [ends_within, ends_inScope]
  constructor
  · rintro ⟨_, between, yields, body', ⟨last, walked, rfl⟩, rfl⟩
    exact ⟨between, body', last, yields, walked, rfl, rfl⟩
  · rintro ⟨between, body', last, yields, walked, rfl, rfl⟩
    exact ⟨(), between, yields, body', ⟨last, walked, rfl⟩, rfl⟩

theorem Arm.ends_otherwise {subject : Option Term} {body : List Stmt} {found : Arm} :
    ((Arm.otherwise body).walk subject).Ends engine found engine' ↔
      ∃ body' last, (Stmt.walkAll body).Ends engine.push body' last ∧ engine' = last.pop ∧
        found = .otherwise body' := by
  refine ends_within.trans ?_
  simp only [ends_inScope]
  constructor
  · rintro ⟨body', ⟨last, walked, rfl⟩, rfl⟩
    exact ⟨body', last, walked, rfl, rfl⟩
  · rintro ⟨body', last, walked, rfl, rfl⟩
    exact ⟨body', ⟨last, walked, rfl⟩, rfl⟩

theorem Stmt.ends_nil {found : List Stmt} :
    (Stmt.walkAll []).Ends engine found engine' ↔ found = [] ∧ engine' = engine := by
  refine ends_still.trans ?_
  simp

theorem Stmt.ends_cons {first : Stmt} {rest found : List Stmt} :
    (Stmt.walkAll (first :: rest)).Ends engine found engine' ↔
      ∃ first' between rest', first.walk.Ends engine first' between ∧
        (Stmt.walkAll rest).Ends between rest' engine' ∧ found = first' :: rest' := by
  refine ends_within.trans ?_
  simp only [ends_both]
  constructor
  · rintro ⟨⟨first', rest'⟩, ⟨between, walked, walked'⟩, rfl⟩
    exact ⟨first', between, rest', walked, walked', rfl⟩
  · rintro ⟨first', between, rest', walked, walked', rfl⟩
    exact ⟨(first', rest'), ⟨between, walked, walked'⟩, rfl⟩

theorem Arm.ends_nil {subject : Option Term} {found : List Arm} :
    (Arm.walkAll subject []).Ends engine found engine' ↔ found = [] ∧ engine' = engine := by
  refine ends_still.trans ?_
  simp

theorem Arm.ends_cons {subject : Option Term} {first : Arm} {rest found : List Arm} :
    (Arm.walkAll subject (first :: rest)).Ends engine found engine' ↔
      ∃ first' between rest', (first.walk subject).Ends engine first' between ∧
        (Arm.walkAll subject rest).Ends between rest' engine' ∧ found = first' :: rest' := by
  refine ends_within.trans ?_
  simp only [ends_both]
  constructor
  · rintro ⟨⟨first', rest'⟩, ⟨between, walked, walked'⟩, rfl⟩
    exact ⟨first', between, rest', walked, walked', rfl⟩
  · rintro ⟨first', between, rest', walked, walked', rfl⟩
    exact ⟨(first', rest'), ⟨between, walked, walked'⟩, rfl⟩

end Walks

end SmallLang
