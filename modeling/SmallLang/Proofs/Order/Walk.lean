import SmallLang.Module.Qualifier
import SmallLang.Proofs.Order.Weights

/-!
# Walks over measured statements

A walk over statements that agrees with given kinds succeeds. It gives fitting weights to the
placeholders that it adds, and what it notes and returns is of those kinds.
-/

set_option autoImplicit false

namespace SmallLang

open Infer Walk

namespace Env

variable {D : Type}

/-- Every name that is free in the environment is new to the innermost scope. -/
def Fresh (Δ : Env Meaning) (scopes : Scopes) : Prop :=
  ∀ name, Δ.Free name → scopes.innermost.lookup name = none

theorem Fresh.declare {Δ : Env Meaning} {scopes : Scopes} (fresh : Δ.Fresh scopes)
    (name : String) (meaning : Meaning) (symbol : Symbol) :
    (Δ.declare name meaning).Fresh (scopes.insert name symbol) := by
  rintro other ⟨notType, new⟩
  rw [block_declare] at new
  rw [Scopes.lookup_innermost_insert]
  split at new
  · cases new
  · next differs =>
      rw [if_neg differs]
      exact fresh other ⟨notType, new⟩

end Env

section Engines

variable {waiting : String → Option Kind}
  {weights weights' weights'' : List Kind} {engine engine' engine'' : Engine}

/-- What is noted has a given weight. -/
def NoteWeighs (weights : List Kind) (note : Option Term) (kind : Kind) : Prop :=
  ∃ term, note = some term ∧ term.Weighs weights kind

theorem NoteWeighs.mono_all {notes : List (Option Term)} {values : List Kind}
    (weigh : List.Forall₂ (NoteWeighs weights) notes values) (more : weights <+: weights') :
    List.Forall₂ (NoteWeighs weights') notes values :=
  weigh.imp fun _ _ ⟨term, noted, weighs⟩ => ⟨term, noted, weighs.mono more⟩

theorem Term.Weighs.mono_all {terms : List Term} {values : List Kind}
    (weigh : List.Forall₂ (Term.Weighs weights) terms values) (more : weights <+: weights') :
    List.Forall₂ (Term.Weighs weights') terms values :=
  weigh.imp fun _ _ weighs => weighs.mono more

namespace Engine

/-- From one engine to a later one, the weights still fit, and terms of given weights were
returned. -/
structure Advances (waiting : String → Option Kind) (weights weights' : List Kind)
    (engine engine' : Engine) (values : List Kind) : Prop where
  more : weights <+: weights'
  grows : ∃ terms, engine.Grows engine' terms ∧
    List.Forall₂ (Term.Weighs weights') terms values
  idle : engine'.declaring = none
  weighed : engine'.Weighed waiting weights'

namespace Advances

variable {values others : List Kind}

theorem trans (first : engine.Advances waiting weights weights' engine' values)
    (second : engine'.Advances waiting weights' weights'' engine'' others) :
    engine.Advances waiting weights weights'' engine'' (values ++ others) := by
  obtain ⟨terms, grows, weigh⟩ := first.grows
  obtain ⟨terms', grows', weigh'⟩ := second.grows
  exact ⟨first.more.trans second.more, ⟨terms ++ terms', grows.trans grows',
    List.rel_append (Term.Weighs.mono_all weigh second.more) weigh'⟩, second.idle, second.weighed⟩

theorem isRoot (advances : engine.Advances waiting weights weights' engine' values) :
    engine'.scopes.isRoot = engine.scopes.isRoot := by
  obtain ⟨_, grows, _⟩ := advances.grows
  exact grows.isRoot

theorem sane (advances : engine.Advances waiting weights weights' engine' values)
    (sane : engine.scopes.Sane) : engine'.scopes.Sane := by
  obtain ⟨_, grows, _⟩ := advances.grows
  exact grows.sane sane

theorem follows {look : String → Option Meaning}
    (advances : engine.Advances waiting weights weights' engine' values)
    (scopes : engine'.scopes = engine.scopes)
    (follows : engine.Follows waiting weights look) :
    engine'.Follows waiting weights' look := by
  intro name meaning known
  obtain ⟨_, grows, _⟩ := advances.grows
  refine (follows name meaning known).mono advances.more
    (lookup?_congr scopes grows.learns.known name) grows.learns.constraints.subset fun _ => ?_
  rw [advances.idle]
  nofun

/-- Leaving a block takes back the names that were added in it. -/
theorem block (advances : engine.push.Advances waiting weights weights' engine' values) :
    engine'.pop.scopes = engine.scopes ∧
      engine.Advances waiting weights weights' engine'.pop values := by
  obtain ⟨terms, grows, weigh⟩ := advances.grows
  exact ⟨grows.block.1, advances.more, ⟨terms, grows.block.2, weigh⟩, advances.idle,
    ⟨advances.weighed.table, advances.weighed.balanced, advances.weighed.forward,
      advances.weighed.unmet⟩⟩

end Advances

theorem Gains.advances (gains : engine.Gains waiting weights weights' engine')
    (idle : engine.declaring = none) :
    engine.Advances waiting weights weights' engine' [] :=
  ⟨gains.more, ⟨[], gains.stays.grows, .nil⟩, gains.stays.declaring.trans idle, gains.weighed⟩

theorem Weighed.push (weighed : engine.Weighed waiting weights) :
    engine.push.Weighed waiting weights :=
  ⟨weighed.table, weighed.balanced, weighed.forward, weighed.unmet⟩

theorem Follows.push {Δ : Env Meaning}
    (follows : engine.Follows waiting weights Δ.lookup) :
    engine.push.Follows waiting weights Δ.enter.lookup := by
  intro name meaning known
  rw [Env.lookup_enter] at known
  refine (follows name meaning known).mono List.prefix_rfl ?_ (List.Subset.refl _) id
  exact congrArg (Option.or · _) (Scopes.resolve?_push engine.scopes name)

theorem Weighed.addReturn (weighed : engine.Weighed waiting weights) (term : Term) :
    (engine.addReturn term).Weighed waiting weights := by
  unfold Engine.addReturn
  split
  · exact weighed
  · exact ⟨weighed.table, weighed.balanced, weighed.forward, weighed.unmet⟩

/-- A name is declared with a term of the weight that its uses so far wait for. -/
theorem Weighed.define (weighed : engine.Weighed waiting weights) (name : String)
    {term : Term} {kind : Kind} (weighs : term.Weighs weights kind) (symbol : Symbol)
    (awaited : engine.scopes.isRoot = true → waiting name = some kind) :
    ({ engine with scopes := engine.scopes.insert name symbol }.settleForward name term).Weighed
      waiting weights := by
  cases isRoot : engine.scopes.isRoot with
  | false =>
      rw [settleForward_of_not_isRoot
        ((Scopes.isRoot_insert engine.scopes name symbol).trans isRoot)]
      refine ⟨weighed.table, weighed.balanced, weighed.forward, ?_⟩
      show ∀ reference ∈ engine.forward,
        (engine.scopes.insert name symbol).root.lookup reference.name = none
      rw [Scopes.root_insert_of_not_isRoot isRoot]
      exact weighed.unmet
  | true =>
      have unmet : ∀ reference ∈ engine.forward, reference.name ≠ name →
          (engine.scopes.insert name symbol).root.lookup reference.name = none := by
        intro reference present differs
        rw [Scopes.lookup_root_insert_of_isRoot isRoot, if_neg differs]
        exact weighed.unmet reference present
      unfold settleForward
      rw [if_pos ((Scopes.isRoot_insert engine.scopes name symbol).trans isRoot)]
      split
      · next unused =>
          refine ⟨weighed.table, weighed.balanced, weighed.forward, fun reference present => ?_⟩
          refine unmet reference present ?_
          intro same
          have missing := List.find?_eq_none.mp unused reference present
          exact missing (beq_iff_eq.mpr same)
      · next reference used =>
          obtain ⟨kind', waits, weighs'⟩ :=
            weighed.forward reference (List.mem_of_find?_eq_some used)
          have same : reference.name = name := by simpa using List.find?_some used
          rw [same, awaited isRoot] at waits
          obtain rfl := Option.some.inj waits
          refine Weighed.constrain ⟨weighed.table, weighed.balanced, ?_, ?_⟩ weighs' weighs
          · intro other present
            exact weighed.forward other (List.mem_of_mem_filter present)
          · intro other present
            obtain ⟨present, differs⟩ := List.mem_filter.mp present
            exact unmet other present (bne_iff_ne.mp differs)

theorem constraints_subset_define (name : String) (symbol : Symbol) (term : Term) :
    engine.constraints ⊆ ({ engine with
      scopes := engine.scopes.insert name symbol }.settleForward name term).constraints := by
  have begun : engine.Learns { engine with scopes := engine.scopes.insert name symbol } :=
    ⟨rfl, List.prefix_rfl, fun count same => ⟨count, same⟩⟩
  exact (begun.settleForward name term).constraints.subset

theorem Follows.define {Δ : Env Meaning} {symbol : Symbol} {term : Term}
    (follows : engine.Follows waiting weights Δ.lookup) (name : String) (meaning : Meaning)
    (isTerm : symbol.term? = some term) (weighs : term.Weighs weights meaning.kind)
    (parameters : ∀ parameters result, symbol = .function parameters result →
      meaning.parameters = some parameters)
    (known : meaning.isOpen = false → term.Grounded engine.constraints) :
    ({ engine with scopes := engine.scopes.insert name symbol }.settleForward name term).Follows
      waiting weights (Δ.declare name meaning).lookup := by
  have more := engine.constraints_subset_define name symbol term
  rw [settleForward_eq] at more ⊢
  intro other found inScope
  rw [Env.lookup_declare] at inScope
  have look : (engine.scopes.insert name symbol).resolve? other =
    if other = name then some symbol else engine.scopes.resolve? other :=
      Scopes.resolve?_insert ..
  split at inScope
  · next same =>
      obtain rfl := Option.some.inj inScope
      refine .declared ?_ isTerm weighs parameters fun decided => (known decided).mono more
      rw [lookup?, look, if_pos same, Option.some_or]
  · next differs =>
      refine (follows other found inScope).mono List.prefix_rfl ?_ more id
      rw [lookup?, look, if_neg differs]
      rfl

/-- More is known of a declared name when its term has come down to a type. -/
theorem Follows.know {Δ : Env Meaning} {name : String} {symbol : Symbol}
    {parameters : Option (List Ty)} {kind : Kind} {isOpen isOpen' : Bool}
    (follows : engine.Follows waiting weights (Δ.declare name ⟨parameters, kind, isOpen⟩).lookup)
    (declared : engine.lookup? name = some symbol)
    (known : isOpen' = false → ∀ symbol term, engine.lookup? name = some symbol →
      symbol.term? = some term → term.Grounded engine.constraints) :
    engine.Follows waiting weights (Δ.declare name ⟨parameters, kind, isOpen'⟩).lookup := by
  intro other meaning inScope
  have before := follows other
  rw [Env.lookup_declare] at inScope before
  split at inScope
  · next same =>
      obtain rfl := Option.some.inj inScope
      subst same
      rw [if_pos rfl] at before
      cases before _ rfl with
      | declared found isTerm weighs parameters _ =>
          refine .declared found isTerm weighs parameters ?_
          intro decided
          exact known decided _ _ found isTerm
      | waits missing _ _ _ =>
          rw [declared] at missing
          cases missing
  · next differs =>
      rw [if_neg differs] at before
      exact before meaning inScope

end Engine

section Parts

variable {look : String → Option Meaning} {Δ Δ' : Env Meaning}

theorem Infer.gains_value? {value : Option Expr} {found : Option Kind}
    (worth : Expr.Worth? look value found) (weighed : engine.Weighed waiting weights)
    (follows : engine.Follows waiting weights look) :
    ∃ weights' term engine', Yields (value? value) engine term engine' ∧
      engine.Gains waiting weights weights' engine' ∧
      ((found = none ∧ term = none) ∨
        ∃ weight known, found = some weight ∧ term = some known ∧
          known.Weighs weights' weight) := by
  cases worth with
  | none =>
      exact ⟨weights, none, engine, yields_value?_none.mpr ⟨rfl, rfl⟩, .refl weighed,
        .inl ⟨rfl, rfl⟩⟩
  | some worth =>
      obtain ⟨weights', term, engine', yields, gains, weighs⟩ := worth.weighs weighed follows
      exact ⟨weights', some term, engine', yields_value?_some.mpr ⟨term, yields, rfl⟩, gains,
        .inr ⟨_, term, rfl, rfl, weighs⟩⟩

theorem Infer.gains_condition {e : Expr} (worth : e.Worth look .bool)
    (weighed : engine.Weighed waiting weights)
    (follows : engine.Follows waiting weights look) :
    ∃ weights' engine', Yields (condition e) engine () engine' ∧
      engine.Gains waiting weights weights' engine' := by
  obtain ⟨weights', term, between, yields, gains, weighs⟩ := worth.weighs weighed follows
  exact ⟨weights', _, yields_condition.mpr ⟨term, between, yields, rfl⟩, gains.more,
    gains.stays.constrain _ _, gains.weighed.constrain weighs rfl⟩

theorem Infer.gains_pattern {e : Expr} {kind : Kind} {subject : Term}
    (worth : e.Worth look kind) (weighed : engine.Weighed waiting weights)
    (follows : engine.Follows waiting weights look)
    (weighs : subject.Weighs weights kind) :
    ∃ weights' engine', Yields (pattern (some subject) e) engine () engine' ∧
      engine.Gains waiting weights weights' engine' := by
  obtain ⟨weights', term, between, yields, gains, weighs'⟩ := worth.weighs weighed follows
  refine ⟨weights', between.constrain subject term, ?_, gains.more, gains.stays.constrain _ _,
    gains.weighed.constrain (weighs.mono gains.more) weighs'⟩
  simp only [pattern, yields_bind, yields_constrain]
  exact ⟨term, between, yields, rfl⟩

theorem Infer.advances_returns {value : Option Expr} {found : Option Kind}
    (worth : Expr.Worth? look value found) (weighed : engine.Weighed waiting weights)
    (idle : engine.declaring = none) (follows : engine.Follows waiting weights look) :
    ∃ weights' term engine', Yields (returns value) engine term engine' ∧
      engine'.scopes = engine.scopes ∧
      engine.Advances waiting weights weights' engine' [found.getD .void] := by
  obtain ⟨weights', known, between, yields, gains, weighs⟩ := gains_value? worth weighed follows
  have weighs' : (known.getD (.concrete .void)).Weighs weights'
      (found.getD .void) := by
    obtain ⟨rfl, rfl⟩ | ⟨weight, term, rfl, rfl, weighs⟩ := weighs
    · exact (show Ty.kind .void = Kind.void from rfl)
    · exact weighs
  have returned := yields_returns.mpr ⟨known, between, yields, rfl, rfl⟩
  refine ⟨weights', _, _, returned, ?_, gains.more, ⟨_, grows_returns returned,
    .cons weighs' .nil⟩, ?_, gains.weighed.addReturn _⟩
  · rw [← gains.stays.scopes]
    unfold Engine.addReturn
    split <;> rfl
  · rw [← idle, ← gains.stays.declaring]
    unfold Engine.addReturn
    split <;> rfl

theorem Infer.weighed_parameters {parameters : List Parameter}
    (worth : Parameter.Worth Δ parameters Δ') :
    ∀ {engine : Engine}, engine.Weighed waiting weights → engine.scopes.isRoot = false →
      engine.scopes.Sane → engine.declaring = none →
      engine.Follows waiting weights Δ.lookup → Δ.Fresh engine.scopes →
      ∃ start, Yields (Infer.parameters parameters) engine () start ∧
        start.Weighed waiting weights ∧ start.declaring = none ∧
        start.Follows waiting weights Δ'.lookup ∧ Δ'.Fresh start.scopes := by
  induction worth with
  | nil =>
      intro engine weighed _ _ idle follows fresh
      exact ⟨engine, yields_pure.mpr ⟨rfl, rfl⟩, weighed, idle, follows, fresh⟩
  | @cons Δ _ param rest type isType free _ ih =>
      intro engine weighed inner sane idle follows fresh
      let symbol := Symbol.variable (.concrete type) true
      let declared : Engine := { engine with scopes := engine.scopes.insert param.name symbol }
      have inner' : declared.scopes.isRoot = false :=
        (Scopes.isRoot_insert engine.scopes param.name symbol).trans inner
      have weighs : (Term.concrete type).Weighs weights (type.kind) := rfl
      have weighed' := weighed.define param.name weighs symbol fun isRoot => by
        rw [inner] at isRoot
        cases isRoot
      have follows' := follows.define param.name ⟨none, type.kind, false⟩
        (show symbol.term? = some (.concrete type) from rfl) weighs (by intro _ _; nofun)
        fun _ => Term.grounded_concrete _ type
      rw [Engine.settleForward_of_not_isRoot inner'] at weighed' follows'
      obtain ⟨start, yields, ends⟩ := ih weighed' inner' (sane.insert free.1 (by intro type; nofun))
        idle follows' (fresh.declare param.name _ symbol)
      refine ⟨start, yields_bind.mpr ⟨.concrete type, declared, yields_parameter.mpr ?_, yields⟩,
        ends⟩
      exact ⟨type, sane.typeOf_eq_ok_iff.mpr isType, free.1, fresh param.name free, rfl, rfl⟩

/-- What is known of a variable has the weight that was measured. -/
theorem Infer.weighs_initial {decl : Variable} {found : Option Kind} {kind : Kind}
    (known : ∀ typeName ∈ decl.typeName, typeName.type?.isSome)
    (valued : Expr.Worth? look decl.value found)
    (stated : ((decl.typeName.bind TypeName.type?).map Ty.kind).or found = some kind)
    (other : engine.scopes.isRoot = true → look decl.name = none)
    (weighed : engine.Weighed waiting weights) (idle : engine.declaring = none)
    (sane : engine.scopes.Sane) (follows : engine.Follows waiting weights look) :
    ∃ weights' term between, Yields (initial decl) engine (some term) between ∧
      weights <+: weights' ∧ between.Weighed waiting weights' ∧
      term.Weighs weights' kind ∧
      (decl.isOpen (Meaning.unknown look) = false → term.Grounded between.constraints) ∧
      between.scopes = engine.scopes ∧ between.declaring = none ∧
      between.Follows waiting weights' look := by
  let within : Engine := { engine with
    anchor := decl.position
    declaring := if engine.scopes.isRoot then some decl.name else engine.declaring }
  have weighed' : within.Weighed waiting weights :=
    ⟨weighed.table, weighed.balanced, weighed.forward, weighed.unmet⟩
  have follows' : within.Follows waiting weights look := by
    intro name meaning inScope
    refine (follows name meaning inScope).mono List.prefix_rfl rfl (List.Subset.refl _) ?_
    intro _
    show (if engine.scopes.isRoot then some decl.name else engine.declaring) ≠ some name
    split
    · next isRoot =>
        rintro ⟨⟩
        rw [other isRoot] at inScope
        cases inScope
    · rw [idle]
      nofun
  obtain ⟨weights', term, last, yields, gains, weighs⟩ := gains_value? valued weighed' follows'
  have noted : ∃ known, ((decl.typeName.bind TypeName.type?).map Term.concrete).or term =
      some known ∧ known.Weighs weights' kind := by
    cases written : decl.typeName.bind TypeName.type? with
    | some type =>
        rw [written] at stated
        exact ⟨.concrete type, rfl, Option.some.inj stated⟩
    | none =>
        rw [written, Option.map_none, Option.none_or] at stated
        obtain ⟨rfl, _⟩ | ⟨weight, known, rfl, rfl, weighs⟩ := weighs
        · cases stated
        · rw [Option.some.inj stated] at weighs
          exact ⟨known, rfl, weighs⟩
  obtain ⟨term', same, weighs'⟩ := noted
  have begins : Yields (initial decl) engine (some term') { last with declaring := none } :=
    yields_initial.mpr ⟨_, term, last, sane.typeOf?_eq_ok_iff.mpr ⟨known, rfl⟩, yields, rfl,
      same.symm⟩
  refine ⟨weights', term', { last with declaring := none }, begins, gains.more,
    ⟨gains.weighed.table, gains.weighed.balanced, gains.weighed.forward, gains.weighed.unmet⟩,
    weighs', fun decided => ?_, gains.stays.scopes, rfl, fun name meaning inScope => ?_⟩
  · obtain ⟨_, ⟨⟩, grounded⟩ := grounded_initial begins decided (List.Subset.refl _)
      List.prefix_rfl (follows.groundsKnown gains.stays.learns.constraints.subset)
    exact grounded
  · refine (follows name meaning inScope).mono gains.more
      (Engine.lookup?_congr gains.stays.scopes gains.stays.learns.known name)
      gains.stays.learns.constraints.subset fun _ => ?_
    nofun

theorem Variable.advances_walk {decl : Variable} {found : Option Kind} {kind : Kind}
    (known : ∀ typeName ∈ decl.typeName, typeName.type?.isSome)
    (valued : Expr.Worth? Δ.lookup decl.value found)
    (stated : ((decl.typeName.bind TypeName.type?).map Ty.kind).or found = some kind)
    (notType : Ty.isTypeName decl.name = false)
    (new : engine.scopes.innermost.lookup decl.name = none)
    (root : engine.scopes.isRoot = true →
      Δ.lookup decl.name = none ∧ waiting decl.name = some kind)
    (weighed : engine.Weighed waiting weights) (idle : engine.declaring = none)
    (sane : engine.scopes.Sane) (follows : engine.Follows waiting weights Δ.lookup) :
    ∃ weights' decl' symbol engine', decl.walk.Ends engine decl' engine' ∧
      NoteWeighs weights' decl'.resolved kind ∧
      engine'.scopes = engine.scopes.insert decl.name symbol ∧
      engine.Advances waiting weights weights' engine' [] ∧
      engine'.Follows waiting weights'
        (Δ.declare decl.name ⟨none, kind, decl.isOpen Δ.unknown⟩).lookup := by
  obtain ⟨weights', term, between, begins, more, weighed', weighs, decides, scopes, idle',
    follows'⟩ :=
    weighs_initial known valued stated (fun isRoot => (root isRoot).1) weighed idle sane follows
  let symbol := Symbol.variable term decl.mutable
  have weighed'' := weighed'.define decl.name weighs symbol fun isRoot =>
    (root (scopes ▸ isRoot)).2
  have follows'' := follows'.define decl.name ⟨none, kind, decl.isOpen Δ.unknown⟩
    (show symbol.term? = some term from rfl) weighs (by intro _ _; nofun) decides
  have ends := Variable.ends_walk.mpr ⟨some term, between, term, begins, yields_declare.mpr
    ⟨between, yields_pure.mpr ⟨rfl, rfl⟩, notType, scopes ▸ new, rfl⟩, rfl⟩
  obtain ⟨⟨returned, counted, grows⟩, _, _⟩ := Variable.passes_walk ends sane
  obtain rfl := List.length_eq_zero_iff.mp counted
  have same := Engine.settleForward_eq
    { between with scopes := between.scopes.insert decl.name symbol } decl.name term
  refine ⟨weights', _, symbol, _, ends, ⟨term, rfl, weighs⟩, ?_, ⟨more, ⟨[], grows, .nil⟩, ?_,
    weighed''⟩, follows''⟩
  · rw [same, ← scopes]
  · rw [same]
    exact idle'

theorem Infer.weighs_orFresh {found : Option Term} {kind : Kind}
    (weighed : engine.Weighed waiting weights) (stated : ∀ term ∈ found, term.Weighs weights kind) :
    ∃ weights' term engine', Yields (orFresh found) engine term engine' ∧
      engine.Gains waiting weights weights' engine' ∧ term.Weighs weights' kind := by
  cases found with
  | some term =>
      exact ⟨weights, term, engine, yields_pure.mpr ⟨rfl, rfl⟩, .refl weighed, stated term rfl⟩
  | none =>
      refine ⟨weights ++ [kind], _, _, yields_fresh.mpr ⟨rfl, rfl⟩,
        ⟨List.prefix_append .., (Engine.Stays.refl engine).grow, weighed.grow kind⟩, ?_⟩
      rw [weighed.next_eq]
      exact Term.weighs_next weights kind

/-- A function is declared with a result of the given weight, and with one that is known if it was
stated. -/
theorem Infer.weighs_function {header : FunctionHeader} {parameters : List Ty} {kind : Kind}
    {isOpen : Bool}
    (known : header.parameterTypes? = some parameters)
    (written : ∀ typeName ∈ header.returns, typeName.type?.isSome)
    (stated : ∀ term ∈ knownResult header (header.returns.bind TypeName.type?),
      term.Weighs weights kind)
    (decided : isOpen = false →
      ∃ type, knownResult header (header.returns.bind TypeName.type?) = some (.concrete type))
    (notType : Ty.isTypeName header.name = false)
    (new : engine.scopes.innermost.lookup header.name = none)
    (awaited : engine.scopes.isRoot = true → waiting header.name = some kind)
    (weighed : engine.Weighed waiting weights) (idle : engine.declaring = none)
    (sane : engine.scopes.Sane) (follows : engine.Follows waiting weights Δ.lookup) :
    ∃ weights' term symbol inner,
      Yields (Infer.function header) engine (header.returns.bind TypeName.type?, term) inner ∧
      term.Weighs weights' kind ∧ inner.scopes = engine.scopes.insert header.name symbol ∧
      engine.Advances waiting weights weights' inner [] ∧
      inner.Follows waiting weights'
        (Δ.declare header.name ⟨some parameters, kind, isOpen⟩).lookup := by
  let anchored : Engine := { engine with anchor := header.position }
  have weighed' : anchored.Weighed waiting weights :=
    ⟨weighed.table, weighed.balanced, weighed.forward, weighed.unmet⟩
  have follows' : anchored.Follows waiting weights Δ.lookup := fun name meaning inScope =>
    (follows name meaning inScope).mono List.prefix_rfl rfl (List.Subset.refl _) id
  obtain ⟨weights', term, between, begins, gains, weighs⟩ :=
    Infer.weighs_orFresh weighed' stated
  let symbol := Symbol.function parameters term
  have scopes : between.scopes = engine.scopes := gains.stays.scopes
  have weighed'' := gains.weighed.define header.name weighs symbol fun isRoot =>
    awaited (scopes ▸ isRoot)
  have starts := (grows_orFresh begins).2
  have follows'' := (gains.follows follows').define header.name ⟨some parameters, kind, isOpen⟩
    (show symbol.term? = some term from rfl) weighs
    (fun _ _ same => by
      cases (show Symbol.function parameters term = _ from same)
      rfl)
    fun known => by
      obtain ⟨type, stated⟩ := decided known
      rw [starts _ stated]
      exact Term.grounded_concrete _ type
  have yields := yields_function.mpr ⟨parameters, between, sane.typesOf_eq_ok_iff.mpr known,
    sane.typeOf?_eq_ok_iff.mpr ⟨written, rfl⟩, begins, notType, scopes ▸ new, rfl⟩
  have same := Engine.settleForward_eq
    { between with scopes := between.scopes.insert header.name symbol } header.name term
  refine ⟨weights', term, symbol, _, yields, weighs, ?_,
    ⟨gains.more, ⟨[], grows_function yields, .nil⟩, ?_, weighed''⟩, follows''⟩
  · rw [same, ← scopes]
  · rw [same]
    exact gains.stays.declaring.trans idle

private theorem weighs_of_mem {terms : List Term} {kinds : List Kind} {kind : Kind}
    (weigh : List.Forall₂ (Term.Weighs weights) terms kinds)
    (same : ∀ other ∈ kinds, other = kind) : ∀ term ∈ terms, term.Weighs weights kind := by
  induction weigh with
  | nil => nofun
  | cons weighs _ ih =>
      rintro term (_ | ⟨_, later⟩)
      · rw [same _ List.mem_cons_self] at weighs
        exact weighs
      · exact ih (fun other present => same other (List.mem_cons_of_mem _ present)) term later

/-- What a function returns agrees with the result that was measured. -/
theorem Infer.weighs_commonReturn {header : FunctionHeader} {terms : List Term}
    {returned : List Kind} {kind : Kind} (weighed : engine.Weighed waiting weights)
    (weigh : List.Forall₂ (Term.Weighs weights) terms returned)
    (same : ∀ other ∈ returned, other = kind) (void : returned = [] → kind = .void) :
    ∃ term engine', Yields (commonReturn header terms) engine term engine' ∧
      engine'.Weighed waiting weights ∧ term.Weighs weights kind := by
  have all := weighs_of_mem weigh same
  cases found : terms.find? Term.isPending with
  | some pending =>
      have weighs := all pending (List.mem_of_find?_eq_some found)
      refine ⟨pending, _, (yields_commonReturn_of_pending found).mpr ⟨rfl, rfl⟩, ?_, weighs⟩
      refine weighed.constrainAll ?_
      intro pair present
      obtain ⟨term, other, rfl⟩ := List.mem_map.mp present
      exact ⟨kind, weighs, all term (List.mem_of_mem_filter other)⟩
  | none =>
      obtain ⟨types, rfl⟩ := exists_types_of_find?_eq_none found
      have kinds : ∀ type ∈ types, type.kind = kind := fun type present =>
        all (.concrete type) (List.mem_map.mpr ⟨type, present, rfl⟩)
      have first : (types.headD .void).kind = kind := by
        cases types with
        | nil =>
            cases weigh
            exact (void rfl).symm
        | cons head rest => exact kinds head List.mem_cons_self
      refine ⟨_, engine, yields_commonReturn_of_types.mpr ⟨rfl, rfl, fun type present => ?_⟩,
        weighed, first⟩
      rw [first, kinds type present]

theorem Infer.weighs_conclusion {header : FunctionHeader} {before : Term} {terms : List Term}
    {returned : List Kind} {kind : Kind} (weighed : engine.Weighed waiting weights)
    (weigh : List.Forall₂ (Term.Weighs weights) terms returned)
    (concludes : header.Concludes returned kind)
    (weighs : before.Weighs weights kind) :
    ∃ term engine',
      Yields (conclusion header (header.returns.bind TypeName.type?) before terms) engine term
        engine' ∧ engine'.Weighed waiting weights ∧ term.Weighs weights kind := by
  have after : ∃ term between,
      Yields (result header (header.returns.bind TypeName.type?) terms) engine term between ∧
        between.Weighed waiting weights ∧ term.Weighs weights kind := by
    unfold FunctionHeader.Concludes at concludes
    cases written : header.returns.bind TypeName.type? with
    | some type =>
        rw [written] at concludes
        exact ⟨.concrete type, engine, yields_pure.mpr ⟨rfl, rfl⟩, weighed, concludes.symm⟩
    | none =>
        rw [written] at concludes
        exact weighs_commonReturn weighed weigh concludes.1 concludes.2
  obtain ⟨term, between, yields, weighed', weighs'⟩ := after
  refine ⟨_, _, yields_conclusion.mpr ⟨term, between, yields, rfl, rfl⟩, ?_, ?_⟩
  · split
    · exact weighed'
    · exact weighed'.constrain weighs weighs'
  · split
    · exact weighs
    · exact weighs'

end Parts

namespace Engine

/-- An engine is ready for what is measured in an environment. -/
structure Ready (waiting : String → Option Kind) (weights : List Kind)
    (engine : Engine) (Δ : Env Meaning) : Prop where
  weighed : engine.Weighed waiting weights
  idle : engine.declaring = none
  sane : engine.scopes.Sane
  follows : engine.Follows waiting weights Δ.lookup

variable {Δ Δ' : Env Meaning} {values : List Kind}

theorem Ready.push (ready : engine.Ready waiting weights Δ) :
    engine.push.Ready waiting weights Δ.enter :=
  ⟨ready.weighed.push, ready.idle, ready.sane.push, ready.follows.push⟩

theorem Ready.enter (ready : engine.Ready waiting weights Δ) :
    engine.enter.Ready waiting weights Δ.enter where
  weighed := ⟨ready.weighed.table, ready.weighed.balanced, ready.weighed.forward,
    ready.weighed.unmet⟩
  idle := ready.idle
  sane := ready.sane.push
  follows := fun name meaning known =>
    (ready.follows.push name meaning known).mono List.prefix_rfl rfl (List.Subset.refl _) id

/-- Where no name was declared, an engine stays ready. -/
theorem Advances.ready (advances : engine.Advances waiting weights weights' engine' values)
    (scopes : engine'.scopes = engine.scopes) (ready : engine.Ready waiting weights Δ) :
    engine'.Ready waiting weights' Δ :=
  ⟨advances.weighed, advances.idle, scopes ▸ ready.sane, advances.follows scopes ready.follows⟩

end Engine

section Statements

variable {Δ Δ' : Env Meaning}

/-- The name of a root declaration is new, and waited for with the measure that it gets. -/
def Stmt.Awaited (waiting : String → Option Kind) (engine : Engine) (Δ Δ' : Env Meaning)
    (s : Stmt) : Prop :=
  ∀ name ∈ s.declared?, engine.scopes.innermost.lookup name = none ∧
    (engine.scopes.isRoot = true → Δ.lookup name = none ∧
      ∀ meaning, Δ'.lookup name = some meaning → waiting name = some meaning.kind)

/-- A walk over a part whose measures are known. -/
def Walk.Advances {α : Type} (waiting : String → Option Kind) (weights : List Kind)
    (walk : Walk α) (noted : α → List (Option Term)) (engine : Engine) (returned notes : List Kind)
    (property : List Kind → Engine → Prop) : Prop :=
  ∃ part weights' engine', walk.Ends engine part engine' ∧
    List.Forall₂ (NoteWeighs weights') (noted part) notes ∧
    engine.Advances waiting weights weights' engine' returned ∧ property weights' engine'

theorem Stmt.advances_declare {decl : Variable} {returned notes : List Kind}
    (worth : Stmt.Worth Δ (.declare decl) Δ' returned notes)
    (ready : engine.Ready waiting weights Δ)
    (awaited : (Stmt.declare decl).Awaited waiting engine Δ Δ') :
    (Stmt.declare decl).walk.Advances waiting weights Stmt.notes engine returned notes
      fun weights' engine' => engine'.Ready waiting weights' Δ' ∧
        (Δ.Fresh engine.scopes → Δ'.Fresh engine'.scopes) := by
  cases worth with
  | declare known valued stated free =>
      obtain ⟨new, root⟩ := awaited _ rfl
      obtain ⟨weights', decl', symbol, engine', ends, noted, scopes, advances, follows⟩ :=
        Variable.advances_walk known valued stated free.1 new
          (fun isRoot =>
            ⟨(root isRoot).1, (root isRoot).2 _ (by rw [Env.lookup_declare, if_pos rfl])⟩)
          ready.weighed ready.idle ready.sane ready.follows
      refine ⟨.declare decl', weights', engine', Stmt.ends_declare.mpr ⟨decl', ends, rfl⟩,
        .cons noted .nil, advances,
        ⟨advances.weighed, advances.idle, advances.sane ready.sane, follows⟩, fun fresh => ?_⟩
      rw [scopes]
      exact fresh.declare _ _ _

theorem Stmt.advances_prototype {header : FunctionHeader} {returned notes : List Kind}
    (worth : Stmt.Worth Δ (.function header none) Δ' returned notes)
    (ready : engine.Ready waiting weights Δ)
    (awaited : (Stmt.function header none).Awaited waiting engine Δ Δ') :
    (Stmt.function header none).walk.Advances waiting weights Stmt.notes engine returned notes
      fun weights' engine' => engine'.Ready waiting weights' Δ' ∧
        (Δ.Fresh engine.scopes → Δ'.Fresh engine'.scopes) := by
  cases worth with
  | prototype known written external free =>
      obtain ⟨new, root⟩ := awaited _ rfl
      have stated : knownResult header (header.returns.bind TypeName.type?) =
          some (.concrete ((header.returns.bind TypeName.type?).getD .void)) := by
        unfold knownResult
        cases header.returns.bind TypeName.type? with
        | some type => rfl
        | none =>
            rw [external]
            rfl
      have fits : ∀ term ∈ knownResult header (header.returns.bind TypeName.type?),
          term.Weighs weights ((header.returns.bind TypeName.type?).getD .void).kind := by
        rw [stated]
        rintro _ ⟨⟩
        rfl
      obtain ⟨weights', term, symbol, engine', yields, weighs, scopes, advances, follows⟩ :=
        Infer.weighs_function known written fits (fun _ => ⟨_, stated⟩) free.1 new
          (fun isRoot => (root isRoot).2 _ (by rw [Env.lookup_declare, if_pos rfl]))
          ready.weighed ready.idle ready.sane ready.follows
      refine ⟨_, weights', engine', Stmt.ends_prototype.mpr ⟨_, term, yields, rfl⟩,
        .cons ⟨term, rfl, weighs⟩ .nil, advances,
        ⟨advances.weighed, advances.idle, advances.sane ready.sane, follows⟩, fun fresh => ?_⟩
      rw [scopes]
      exact fresh.declare _ _ _

/-- What is known of a result before the body is walked weighs what the function returns. -/
theorem FunctionHeader.Concludes.weighs_known {header : FunctionHeader} {returned : List Kind}
    {kind : Kind} (concludes : header.Concludes returned kind)
    (internal : header.isExternal = false) (unnoted : header.resolved = none) :
    ∀ term ∈ knownResult header (header.returns.bind TypeName.type?),
      term.Weighs weights kind := by
  unfold Concludes at concludes
  unfold knownResult resolvedType?
  cases result : header.returns.bind TypeName.type? with
  | some type =>
      rw [result] at concludes
      rintro _ ⟨⟩
      exact concludes.symm
  | none =>
      rw [internal, unnoted]
      nofun

theorem FunctionHeader.knownResult_of_written {header : FunctionHeader}
    (written : ∀ typeName ∈ header.returns, typeName.type?.isSome)
    (states : header.returns.isNone = false) :
    ∃ type, knownResult header (header.returns.bind TypeName.type?) = some (.concrete type) := by
  obtain ⟨typeName, named⟩ := Option.isSome_iff_exists.mp (Option.isNone_eq_false_iff.mp states)
  obtain ⟨type, isType⟩ := Option.isSome_iff_exists.mp (written typeName named)
  refine ⟨type, ?_⟩
  rw [named, Option.bind_some, isType]
  rfl

theorem Stmt.advances_function {header : FunctionHeader} {body : List Stmt}
    (walks : ∀ {Δ Δ' : Env Meaning} {weights : List Kind} {engine : Engine}
        {returned notes : List Kind},
      Stmt.AllWorth Δ body Δ' returned notes → engine.Ready waiting weights Δ →
        engine.scopes.isRoot = false → Δ.Fresh engine.scopes →
        (Stmt.walkAll body).Advances waiting weights Stmt.allNotes engine returned notes
          fun _ _ => True)
    {returned notes : List Kind}
    (worth : Stmt.Worth Δ (.function header (some body)) Δ' returned notes)
    (ready : engine.Ready waiting weights Δ)
    (awaited : (Stmt.function header (some body)).Awaited waiting engine Δ Δ') :
    (Stmt.function header (some body)).walk.Advances waiting weights Stmt.notes engine
      returned notes fun weights' engine' => engine'.Ready waiting weights' Δ' ∧
        (Δ.Fresh engine.scopes → Δ'.Fresh engine'.scopes) := by
  cases worth with
  | @function _ _ _ _ _ parameters kind returned notes known written internal unnoted free taken
      worth concludes =>
      obtain ⟨new, root⟩ := awaited _ rfl
      obtain ⟨weights', before, symbol, inner, yields, weighs, scopes, advances, follows⟩ :=
        Infer.weighs_function known written (concludes.weighs_known internal unnoted)
          (header.knownResult_of_written written) free.1 new
          (fun isRoot => (root isRoot).2 _ (by rw [Env.lookup_declare, if_pos rfl]))
          ready.weighed ready.idle ready.sane ready.follows
      have ready' : inner.Ready waiting weights'
          (Δ.declare header.name ⟨some parameters, kind, header.returns.isNone⟩) :=
        ⟨advances.weighed, advances.idle, advances.sane ready.sane, follows⟩
      have entered := ready'.enter
      obtain ⟨start, given, weighed, idle, follows', fresh⟩ := Infer.weighed_parameters taken
        entered.weighed rfl entered.sane entered.idle entered.follows fun _ _ => rfl
      have opened := grows_parameters given
      obtain ⟨body', weights'', last, ends, noted, inside, _⟩ := walks worth
        ⟨weighed, idle, opened.sane entered.sane, follows'⟩ opened.isRoot fresh
      obtain ⟨terms, grows, weigh⟩ := inside.grows
      obtain ⟨left, returns, leaves⟩ := (opened.andThen grows).leave
      have weighed' : last.leave.Weighed waiting weights'' := ⟨inside.weighed.table,
        inside.weighed.balanced, inside.weighed.forward, inside.weighed.unmet⟩
      rw [← returns] at weigh
      obtain ⟨term, engine', concluded, weighed'', weighs'⟩ := Infer.weighs_conclusion weighed'
        weigh concludes (weighs.mono inside.more)
      obtain ⟨stays, _, _⟩ := stays_conclusion concluded
      have after : inner.Advances waiting weights' weights'' engine' [] :=
        ⟨inside.more, ⟨[], leaves.andThen stays.grows, .nil⟩, stays.declaring.trans inside.idle,
          weighed''⟩
      have scopes' : engine'.scopes = inner.scopes := stays.scopes.trans left
      have walked := Stmt.ends_function.mpr ⟨_, before, inner, start, body', last, term, yields,
        given, ends, concluded, rfl⟩
      -- Behind the body, the name of the function is known unless the function is open.
      have more : engine.constraints ⊆ engine'.constraints := by
        obtain ⟨_, grows, _⟩ := (advances.trans after).grows
        exact grows.learns.constraints.subset
      obtain ⟨_, grounds⟩ := Stmt.grounds_walk_function
        (fun ends inside grounds => worth.leaves ends inside grounds) walked ready.sane
        (List.Subset.refl _) List.prefix_rfl (ready.follows.groundsKnown more)
      have declared : engine'.lookup? header.name = some symbol := by
        rw [Engine.lookup?, scopes', scopes, Scopes.resolve?_insert, if_pos rfl, Option.some_or]
      let isOpen := header.isOpen (Stmt.allOpenReturns body (header.unknownInside Δ.unknown))
      have follows'' : engine'.Follows waiting weights''
          (Δ.declare header.name ⟨some parameters, kind, isOpen⟩).lookup := by
        refine (after.ready scopes' ready').follows.know declared ?_
        intro decided
        refine (grounds header.name ?_ (absurd rfl)).declared
        rw [Stmt.unknownAfter, Function.update_self]
        exact decided
      refine ⟨_, weights'', engine', walked, .cons ⟨term, rfl, weighs'⟩ noted,
        advances.trans after, ⟨weighed'', after.idle, scopes' ▸ ready'.sane, follows''⟩,
        fun fresh => ?_⟩
      rw [scopes', scopes]
      exact fresh.declare _ _ _

/-- A block in a scope of its own. -/
theorem Walk.Advances.block {body : List Stmt} {returned notes : List Kind}
    (inside : (Stmt.walkAll body).Advances waiting weights Stmt.allNotes engine.push returned
      notes fun _ _ => True) (ready : engine.Ready waiting weights Δ) :
    ∃ body' weights' last, (Stmt.walkAll body).Ends engine.push body' last ∧
      List.Forall₂ (NoteWeighs weights') (Stmt.allNotes body') notes ∧
      engine.Advances waiting weights weights' last.pop returned ∧
      last.pop.scopes = engine.scopes ∧ last.pop.Ready waiting weights' Δ := by
  obtain ⟨body', weights', last, ends, noted, advances, _⟩ := inside
  obtain ⟨scopes, advances'⟩ := advances.block
  exact ⟨body', weights', last, ends, noted, advances', scopes, advances'.ready scopes ready⟩

theorem Engine.Gains.ready (gains : engine.Gains waiting weights weights' engine')
    (ready : engine.Ready waiting weights Δ) : engine'.Ready waiting weights' Δ :=
  (gains.advances ready.idle).ready gains.stays.scopes ready

theorem Stmt.Worth.free {s : Stmt} {returned notes : List Kind}
    (worth : Stmt.Worth Δ s Δ' returned notes) : ∀ name ∈ s.declared?, Δ.Free name := by
  cases worth with
  | declare _ _ _ free | prototype _ _ _ free | function _ _ _ _ free _ _ _ =>
      rintro _ ⟨⟩
      exact free
  | _ => nofun

mutual

/-- A walk over a statement of given measures succeeds, and keeps to the measures. -/
theorem Stmt.Worth.advances : ∀ {s : Stmt} {Δ Δ' : Env Meaning} {returned notes : List Kind}
    {weights : List Kind} {engine : Engine}, Stmt.Worth Δ s Δ' returned notes →
      engine.Ready waiting weights Δ → s.Awaited waiting engine Δ Δ' →
      s.walk.Advances waiting weights Stmt.notes engine returned notes
        fun weights' engine' => engine'.Ready waiting weights' Δ' ∧
          (Δ.Fresh engine.scopes → Δ'.Fresh engine'.scopes)
  | .expr e, _, _, _, _, _, _, .expr worth, ready, _ => by
      obtain ⟨weights', term, engine', yields, gains, _⟩ := worth.weighs ready.weighed ready.follows
      exact ⟨_, weights', engine', ends_still.mpr ⟨rfl, term, yields⟩, .nil,
        gains.advances ready.idle, gains.ready ready, fun fresh => gains.stays.scopes ▸ fresh⟩
  | .comment _, _, _, _, _, _, engine, .comment _, ready, _ =>
      ⟨_, _, engine, ends_still.mpr ⟨rfl, _, yields_pure.mpr ⟨rfl, rfl⟩⟩, .nil,
        (Engine.Gains.refl ready.weighed).advances ready.idle, ready, id⟩
  | .use _, _, _, _, _, _, engine, .use _, ready, _ =>
      ⟨_, _, engine, ends_still.mpr ⟨rfl, _, yields_pure.mpr ⟨rfl, rfl⟩⟩, .nil,
        (Engine.Gains.refl ready.weighed).advances ready.idle, ready, id⟩
  | .returns _, _, _, _, _, _, _, .returns worth, ready, _ => by
      obtain ⟨weights', term, engine', yields, scopes, advances⟩ :=
        Infer.advances_returns worth ready.weighed ready.idle ready.follows
      exact ⟨_, weights', engine', Stmt.ends_returns.mpr ⟨rfl, term, yields⟩, .nil, advances,
        advances.ready scopes ready, fun fresh => scopes ▸ fresh⟩
  | .declare _, _, _, _, _, _, _, worth, ready, awaited => Stmt.advances_declare worth ready awaited
  | .function _ none, _, _, _, _, _, _, worth, ready, awaited =>
      Stmt.advances_prototype worth ready awaited
  | .function _ (some _), _, _, _, _, _, _, worth, ready, awaited =>
      Stmt.advances_function (fun worth => Stmt.AllWorth.advances worth) worth ready awaited
  | .branch _ _ _, _, _, _, _, _, _, .branch condition body alternate, ready, _ => by
      obtain ⟨_, between, yields, gains⟩ :=
        Infer.gains_condition condition ready.weighed ready.follows
      obtain ⟨body', _, last, ends, noted, advances, scopes, ready'⟩ :=
        (Stmt.AllWorth.advances body (gains.ready ready).push rfl fun _ _ => rfl).block
          (gains.ready ready)
      obtain ⟨alternate', weights', engine', ends', noted', advances', scopes'⟩ :=
        Alternate.Worth.advances alternate ready'
      have scopes'' := (scopes'.trans scopes).trans gains.stays.scopes
      have advances'' := ((gains.advances ready.idle).trans advances).trans advances'
      exact ⟨_, weights', engine', Stmt.ends_branch.mpr ⟨between, body', last, alternate', yields,
        ends, ends', rfl⟩, List.rel_append (NoteWeighs.mono_all noted advances'.more) noted',
        advances'', advances''.ready scopes'' ready, fun fresh => scopes'' ▸ fresh⟩
  | .loop _ _, _, _, _, _, _, _, .loop condition body, ready, _ => by
      obtain ⟨_, between, yields, gains⟩ :=
        Infer.gains_condition condition ready.weighed ready.follows
      obtain ⟨body', weights', last, ends, noted, advances, scopes, ready'⟩ :=
        (Stmt.AllWorth.advances body (gains.ready ready).push rfl fun _ _ => rfl).block
          (gains.ready ready)
      exact ⟨_, weights', last.pop,
        Stmt.ends_loop.mpr ⟨between, body', last, yields, ends, rfl, rfl⟩,
        noted, (gains.advances ready.idle).trans advances, ready',
        fun fresh => (scopes.trans gains.stays.scopes) ▸ fresh⟩
  | .switch _ _, _, _, _, _, _, _, .switch subject arms, ready, _ => by
      obtain ⟨_, term, between, yields, gains, weighs⟩ :=
        subject.weighs ready.weighed ready.follows
      obtain ⟨arms', weights', engine', ends, noted, advances, scopes⟩ :=
        Arm.AllWorth.advances arms (gains.ready ready) weighs
      have scopes' := scopes.trans gains.stays.scopes
      have advances' := (gains.advances ready.idle).trans advances
      exact ⟨_, weights', engine', Stmt.ends_switch.mpr ⟨term, between, arms', yields, ends, rfl⟩,
        noted, advances', advances'.ready scopes' ready, fun fresh => scopes' ▸ fresh⟩
termination_by structural s => s

theorem Alternate.Worth.advances : ∀ {alternate : Alternate} {Δ : Env Meaning}
    {returned notes : List Kind} {weights : List Kind} {engine : Engine},
    Alternate.Worth Δ alternate returned notes → engine.Ready waiting weights Δ →
      alternate.walk.Advances waiting weights Alternate.notes engine returned notes
        fun _ engine' => engine'.scopes = engine.scopes
  | .none, _, _, _, _, engine, .none, ready =>
      ⟨_, _, engine, Alternate.ends_none.mpr ⟨rfl, rfl⟩, .nil,
        (Engine.Gains.refl ready.weighed).advances ready.idle, rfl⟩
  | .elseBranch _ _ _, _, _, _, _, _, .elseBranch condition body alternate, ready => by
      obtain ⟨_, between, yields, gains⟩ :=
        Infer.gains_condition condition ready.weighed ready.follows
      obtain ⟨body', _, last, ends, noted, advances, scopes, ready'⟩ :=
        (Stmt.AllWorth.advances body (gains.ready ready).push rfl fun _ _ => rfl).block
          (gains.ready ready)
      obtain ⟨alternate', weights', engine', ends', noted', advances', scopes'⟩ :=
        Alternate.Worth.advances alternate ready'
      exact ⟨_, weights', engine', Alternate.ends_elseBranch.mpr ⟨between, body', last, alternate',
        yields, ends, ends', rfl⟩,
        List.rel_append (NoteWeighs.mono_all noted advances'.more) noted',
        ((gains.advances ready.idle).trans advances).trans advances',
        (scopes'.trans scopes).trans gains.stays.scopes⟩
  | .otherwise _, _, _, _, _, _, .otherwise body, ready => by
      obtain ⟨body', weights', last, ends, noted, advances, scopes, _⟩ :=
        (Stmt.AllWorth.advances body ready.push rfl fun _ _ => rfl).block ready
      exact ⟨_, weights', last.pop, Alternate.ends_otherwise.mpr ⟨body', last, ends, rfl, rfl⟩,
        noted, advances, scopes⟩
termination_by structural alternate => alternate

theorem Arm.Worth.advances : ∀ {arm : Arm} {subject : Kind} {Δ : Env Meaning}
    {returned notes : List Kind} {weights : List Kind} {engine : Engine} {term : Term},
    Arm.Worth subject Δ arm returned notes → engine.Ready waiting weights Δ →
      term.Weighs weights subject →
      (arm.walk (some term)).Advances waiting weights Arm.notes engine returned notes
        fun _ engine' => engine'.scopes = engine.scopes
  | .value _ _, _, _, _, _, _, _, _, .value pattern body, ready, weighs => by
      obtain ⟨_, between, yields, gains⟩ :=
        Infer.gains_pattern pattern ready.weighed ready.follows weighs
      obtain ⟨body', weights', last, ends, noted, advances, scopes, _⟩ :=
        (Stmt.AllWorth.advances body (gains.ready ready).push rfl fun _ _ => rfl).block
          (gains.ready ready)
      exact ⟨_, weights', last.pop,
        Arm.ends_value.mpr ⟨between, body', last, yields, ends, rfl, rfl⟩,
        noted, (gains.advances ready.idle).trans advances, scopes.trans gains.stays.scopes⟩
  | .otherwise _, _, _, _, _, _, _, _, .otherwise body, ready, _ => by
      obtain ⟨body', weights', last, ends, noted, advances, scopes, _⟩ :=
        (Stmt.AllWorth.advances body ready.push rfl fun _ _ => rfl).block ready
      exact ⟨_, weights', last.pop, Arm.ends_otherwise.mpr ⟨body', last, ends, rfl, rfl⟩, noted,
        advances, scopes⟩
termination_by structural arm => arm

theorem Stmt.AllWorth.advances : ∀ {body : List Stmt} {Δ Δ' : Env Meaning}
    {returned notes : List Kind} {weights : List Kind} {engine : Engine},
    Stmt.AllWorth Δ body Δ' returned notes → engine.Ready waiting weights Δ →
      engine.scopes.isRoot = false → Δ.Fresh engine.scopes →
      (Stmt.walkAll body).Advances waiting weights Stmt.allNotes engine returned notes
        fun _ _ => True
  | [], _, _, _, _, _, engine, .nil, ready, _, _ =>
      ⟨[], _, engine, Stmt.ends_nil.mpr ⟨rfl, rfl⟩, .nil,
        (Engine.Gains.refl ready.weighed).advances ready.idle, trivial⟩
  | _ :: _, _, _, _, _, _, _, .cons first rest, ready, inner, fresh => by
      obtain ⟨first', _, between, ends, noted, advances, ready', fresh'⟩ :=
        Stmt.Worth.advances first ready fun name declared =>
          ⟨fresh name (first.free name declared),
            fun isRoot => by rw [inner] at isRoot; cases isRoot⟩
      obtain ⟨rest', weights', last, ends', noted', advances', _⟩ :=
        Stmt.AllWorth.advances rest ready' (advances.isRoot.trans inner) (fresh' fresh)
      exact ⟨first' :: rest', weights', last,
        Stmt.ends_cons.mpr ⟨first', between, rest', ends, ends',
        rfl⟩, List.rel_append (NoteWeighs.mono_all noted advances'.more) noted',
        advances.trans advances', trivial⟩
termination_by structural body => body

theorem Arm.AllWorth.advances : ∀ {arms : List Arm} {subject : Kind} {Δ : Env Meaning}
    {returned notes : List Kind} {weights : List Kind} {engine : Engine} {term : Term},
    Arm.AllWorth subject Δ arms returned notes → engine.Ready waiting weights Δ →
      term.Weighs weights subject →
      (Arm.walkAll (some term) arms).Advances waiting weights Arm.allNotes engine returned
        notes fun _ engine' => engine'.scopes = engine.scopes
  | [], _, _, _, _, _, engine, _, .nil, ready, _ =>
      ⟨[], _, engine, Arm.ends_nil.mpr ⟨rfl, rfl⟩, .nil,
        (Engine.Gains.refl ready.weighed).advances ready.idle, rfl⟩
  | _ :: _, _, _, _, _, _, _, _, .cons first rest, ready, weighs => by
      obtain ⟨first', _, between, ends, noted, advances, scopes⟩ :=
        Arm.Worth.advances first ready weighs
      obtain ⟨rest', weights', last, ends', noted', advances', scopes'⟩ :=
        Arm.AllWorth.advances rest (advances.ready scopes ready) (weighs.mono advances.more)
      exact ⟨first' :: rest', weights', last,
        Arm.ends_cons.mpr ⟨first', between, rest', ends, ends',
        rfl⟩, List.rel_append (NoteWeighs.mono_all noted advances'.more) noted',
        advances.trans advances', scopes'.trans scopes⟩
termination_by structural arms => arms

end

end Statements

end Engines

end SmallLang
