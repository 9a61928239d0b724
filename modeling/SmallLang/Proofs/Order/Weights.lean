import SmallLang.Proofs.Order.Grounded
import SmallLang.Proofs.Table.Growth

/-!
# Weighing placeholders

The placeholders of a walk can be given kinds as weights. They fit if both sides of every constraint
have the same weight, or were known already, and if a name that waits for its declaration has the
weight of the declaration to come. Walking an expression whose kind is known keeps the weights and
adds fitting ones.
-/

set_option autoImplicit false

namespace SmallLang

open Infer

section Terms

/-- The weight of a term: of a type, its kind; of a placeholder, what it was given. -/
def Term.Weighs (weights : List Kind) : Term → Kind → Prop
  | .concrete type, kind => type.kind = kind
  | .pending placeholder, kind => weights[placeholder.index]? = some kind

variable {weights weights' : List Kind} {term : Term} {kind : Kind}

theorem Term.Weighs.unique {other : Kind} (weighs : term.Weighs weights kind)
    (weighs' : term.Weighs weights other) : kind = other := by
  cases term with
  | concrete type => exact weighs.symm.trans weighs'
  | pending placeholder => exact Option.some.inj (weighs.symm.trans weighs')

theorem Term.Weighs.within (weighs : term.Weighs weights kind) : term.Within weights.length := by
  cases term with
  | concrete type => trivial
  | pending placeholder => exact (List.getElem?_eq_some_iff.mp weighs).1

theorem Term.Weighs.mono (weighs : term.Weighs weights kind) (more : weights <+: weights') :
    term.Weighs weights' kind := by
  cases term with
  | concrete type => exact weighs
  | pending placeholder =>
      obtain ⟨rest, rfl⟩ := more
      have found : weights[placeholder.index]? = some kind := weighs
      have inside := (List.getElem?_eq_some_iff.mp found).1
      change (weights ++ rest)[placeholder.index]? = some kind
      rw [List.getElem?_append_left inside, found]

theorem Term.weighs_next (weights : List Kind) (kind : Kind) :
    (Term.pending ⟨weights.length⟩).Weighs (weights ++ [kind]) kind := by
  change (weights ++ [kind])[weights.length]? = some kind
  simp

theorem Term.Weighs.result (weighs : term.Weighs weights kind) (operator : BinaryOperator) :
    (operator.result term).Weighs weights (operator.resultKind kind) := by
  unfold BinaryOperator.result BinaryOperator.resultKind
  cases operator.fixedResult? with
  | none => exact weighs
  | some type => exact (show type.kind = type.kind from rfl)

/-- Constraints that weights fit. Each ties terms of one weight to each other, or it is idle: both
of its sides come down to types because of the constraints before it. -/
inductive Constraint.Balanced (weights : List Kind) : List Constraint → Prop where
  | nil : Balanced weights []
  | tie {constraints : List Constraint} {left right : Term} {kind : Kind} :
      Balanced weights constraints → left.Weighs weights kind → right.Weighs weights kind →
      Balanced weights (constraints ++ [⟨left, right⟩])
  | idle {constraints : List Constraint} {left right : Term} {first second : Kind} :
      Balanced weights constraints → left.Weighs weights first → right.Weighs weights second →
      left.Grounded constraints → right.Grounded constraints →
      Balanced weights (constraints ++ [⟨left, right⟩])

namespace Constraint.Balanced

variable {constraints : List Constraint}

theorem mono (balanced : Balanced weights constraints) (more : weights <+: weights') :
    Balanced weights' constraints := by
  induction balanced with
  | nil => exact .nil
  | tie _ left right ih => exact .tie ih (left.mono more) (right.mono more)
  | idle _ left right known known' ih =>
      exact .idle ih (left.mono more) (right.mono more) known known'

theorem within (balanced : Balanced weights constraints) :
    ∀ constraint ∈ constraints, constraint.Within weights.length := by
  induction balanced with
  | nil => exact List.forall_mem_nil _
  | tie _ left right ih | idle _ left right _ _ ih =>
      exact List.forall_mem_append.mpr
        ⟨ih, List.forall_mem_singleton.mpr ⟨left.within, right.within⟩⟩

/-- Idle constraints do not change what is known: the others lead to the same table. -/
theorem exists_ties (balanced : Balanced weights constraints) :
    ∃ ties : List Constraint,
      (∀ constraint ∈ ties, ∃ kind, constraint.left.Weighs weights kind ∧
        constraint.right.Weighs weights kind) ∧
      (Table.unbound weights.length).unify constraints =
        (Table.unbound weights.length).unify ties := by
  induction balanced with
  | nil => exact ⟨[], List.forall_mem_nil _, rfl⟩
  | @tie constraints left right kind _ weighs weighs' ih =>
      obtain ⟨ties, tied, same⟩ := ih
      refine ⟨ties ++ [⟨left, right⟩], List.forall_mem_append.mpr ⟨tied, ?_⟩, ?_⟩
      · exact List.forall_mem_singleton.mpr ⟨kind, weighs, weighs'⟩
      · rw [Table.unify_append, Table.unify_append, same]
  | @idle constraints left right first second balanced weighs weighs' known known' ih =>
      obtain ⟨ties, tied, same⟩ := ih
      have swept := Table.swept_unify_unbound balanced.within
      obtain ⟨type, resolved⟩ := known.exists_resolve swept
      obtain ⟨type', resolved'⟩ := known'.exists_resolve swept
      refine ⟨ties, tied, ?_⟩
      rw [Table.unify_append, ← same]
      change Table.require _ ⟨left, right⟩ = _
      unfold Table.require
      rw [resolved, resolved']

end Constraint.Balanced

/-- Where both sides of all constraints have the same weight, a chain of them leads to a type of the
weight at its start. -/
theorem Constraint.LeadsTo.weighs {ties : List Constraint} {placeholder : Placeholder} {type : Ty}
    (leads : LeadsTo ties placeholder type)
    (tied : ∀ constraint ∈ ties, ∃ kind, constraint.left.Weighs weights kind ∧
      constraint.right.Weighs weights kind) :
    (Term.pending placeholder).Weighs weights type.kind := by
  have agree : ∀ {first second : Term}, Ties ties first second → ∀ {kind : Kind},
      second.Weighs weights kind → first.Weighs weights kind := by
    intro first second link kind weighs
    rcases link with present | present
    · obtain ⟨common, left, right⟩ := tied _ present
      exact right.unique weighs ▸ left
    · obtain ⟨common, left, right⟩ := tied _ present
      exact left.unique weighs ▸ right
  induction leads with
  | last link => exact agree link rfl
  | next link _ ih => exact agree link ih

/-- What is known of a term after the constraints were swept is of its weight. -/
theorem Constraint.Balanced.kind_of_resolve {constraints : List Constraint} {type : Ty}
    (balanced : Balanced weights constraints) (weighs : term.Weighs weights kind)
    (resolved : ((Table.unbound weights.length).unify constraints).resolve term = .concrete type) :
    type.kind = kind := by
  obtain ⟨ties, tied, same⟩ := balanced.exists_ties
  have swept : Table.Swept weights.length ties ((Table.unbound weights.length).unify ties) := by
    refine Table.swept_unify_unbound ?_
    intro constraint present
    obtain ⟨_, left, right⟩ := tied constraint present
    exact ⟨left.within, right.within⟩
  rw [same] at resolved
  have leads := swept.termLeadsTo resolved
  cases term with
  | concrete other => exact leads ▸ weighs
  | pending placeholder => exact (LeadsTo.weighs leads tied).unique weighs

end Terms

namespace Engine

variable (waiting : String → Option Kind)

/-- Weights that fit an engine. The names that still wait are not declared yet. -/
structure Weighed (weights : List Kind) (engine : Engine) : Prop where
  table : engine.table = .unbound weights.length
  balanced : Constraint.Balanced weights engine.constraints
  forward : ∀ reference ∈ engine.forward, ∃ kind, waiting reference.name = some kind ∧
    (Term.pending reference.placeholder).Weighs weights kind
  unmet : ∀ reference ∈ engine.forward, engine.scopes.root.lookup reference.name = none

/-- An engine knows a name by its meaning: the name is declared, or waits for a declaration of the
same kind. If its type is known, it is declared and comes down to a type. -/
inductive Knows (weights : List Kind) (engine : Engine) (name : String) (meaning : Meaning) :
    Prop where
  | declared {symbol : Symbol} {term : Term} :
      engine.lookup? name = some symbol → symbol.term? = some term →
      term.Weighs weights meaning.kind →
      (∀ parameters result, symbol = .function parameters result →
        meaning.parameters = some parameters) →
      (meaning.isOpen = false → term.Grounded engine.constraints) →
      Knows weights engine name meaning
  | waits :
      engine.lookup? name = none → engine.declaring ≠ some name →
      waiting name = some meaning.kind → meaning.isOpen = true →
      Knows weights engine name meaning

/-- An engine knows all names by their meanings. -/
def Follows (weights : List Kind) (engine : Engine) (look : String → Option Meaning) : Prop :=
  ∀ name meaning, look name = some meaning → engine.Knows waiting weights name meaning

/-- Only what is known of terms has changed, and the weights still fit. -/
structure Gains (weights weights' : List Kind) (engine engine' : Engine) : Prop where
  more : weights <+: weights'
  stays : engine.Stays engine'
  weighed : engine'.Weighed waiting weights'

variable {waiting} {weights weights' weights'' : List Kind} {engine engine' engine'' : Engine}
  {left right : Term} {kind : Kind}

namespace Weighed

theorem next_eq (weighed : engine.Weighed waiting weights) :
    engine.table.next = ⟨weights.length⟩ := by
  rw [Table.next, weighed.table, Table.size_unbound]

theorem constrain (weighed : engine.Weighed waiting weights)
    (first : left.Weighs weights kind) (second : right.Weighs weights kind) :
    (engine.constrain left right).Weighed waiting weights := by
  unfold Engine.constrain
  split
  · exact ⟨weighed.table, .tie weighed.balanced first second, weighed.forward, weighed.unmet⟩
  · exact weighed

/-- Terms that are known already may be of two kinds. -/
theorem constrain_idle {other : Kind} (weighed : engine.Weighed waiting weights)
    (first : left.Weighs weights kind) (second : right.Weighs weights other)
    (known : left.Grounded engine.constraints) (known' : right.Grounded engine.constraints) :
    (engine.constrain left right).Weighed waiting weights := by
  unfold Engine.constrain
  split
  · exact ⟨weighed.table, .idle weighed.balanced first second known known', weighed.forward,
      weighed.unmet⟩
  · exact weighed

theorem constrainAll {pairs : List (Term × Term)}
    (fits : ∀ pair ∈ pairs, ∃ kind, pair.1.Weighs weights kind ∧ pair.2.Weighs weights kind)
    (weighed : engine.Weighed waiting weights) :
    (engine.constrainAll pairs).Weighed waiting weights := by
  induction pairs generalizing engine with
  | nil => exact weighed
  | cons pair rest ih =>
      obtain ⟨kind, first, second⟩ := fits pair List.mem_cons_self
      exact ih (fun other present => fits other (List.mem_cons_of_mem pair present))
        (weighed.constrain first second)

theorem grow (weighed : engine.Weighed waiting weights) (kind : Kind) :
    engine.grow.Weighed waiting (weights ++ [kind]) where
  table := by
    show engine.table.grow = _
    rw [weighed.table, Table.grow_unbound, List.length_append, List.length_singleton]
  balanced := weighed.balanced.mono (List.prefix_append ..)
  forward := by
    intro reference present
    obtain ⟨kind, waits, weighs⟩ := weighed.forward reference present
    exact ⟨kind, waits, weighs.mono (List.prefix_append ..)⟩
  unmet := weighed.unmet

end Weighed

namespace Gains

theorem refl (weighed : engine.Weighed waiting weights) :
    engine.Gains waiting weights weights engine :=
  ⟨List.prefix_rfl, .refl _, weighed⟩

theorem trans (first : engine.Gains waiting weights weights' engine')
    (second : engine'.Gains waiting weights' weights'' engine'') :
    engine.Gains waiting weights weights'' engine'' :=
  ⟨first.more.trans second.more, first.stays.trans second.stays, second.weighed⟩

end Gains

theorem Knows.mono {name : String} {meaning : Meaning}
    (knows : engine.Knows waiting weights name meaning) (more : weights <+: weights')
    (look : engine'.lookup? name = engine.lookup? name)
    (constraints : engine.constraints ⊆ engine'.constraints)
    (declaring : engine.declaring ≠ some name → engine'.declaring ≠ some name) :
    engine'.Knows waiting weights' name meaning := by
  cases knows with
  | declared found isTerm weighs parameters known =>
      refine .declared (look.trans found) isTerm (weighs.mono more) parameters ?_
      intro decided
      exact (known decided).mono constraints
  | waits unknown other waits isOpen =>
      exact .waits (look.trans unknown) (declaring other) waits isOpen

theorem Gains.follows {look : String → Option Meaning}
    (gains : engine.Gains waiting weights weights' engine')
    (follows : engine.Follows waiting weights look) : engine'.Follows waiting weights' look :=
  fun name meaning known => (follows name meaning known).mono gains.more
    (lookup?_congr gains.stays.scopes gains.stays.learns.known name)
    gains.stays.learns.constraints.subset fun other => gains.stays.declaring ▸ other

/-- The names that an engine knows the types of come down to them. -/
theorem Follows.groundsKnown {look : String → Option Meaning} {final : List Constraint}
    {ahead : List ForwardReference} {names : List String}
    (follows : engine.Follows waiting weights look) (within : engine.constraints ⊆ final) :
    engine.GroundsKnown final ahead (Meaning.unknown look) names := by
  intro name _ known
  cases found : look name with
  | none =>
      rw [Meaning.unknown, found] at known
      cases known
  | some meaning =>
      rw [Meaning.unknown, found] at known
      have known : meaning.isOpen = false := known
      cases follows name meaning found with
      | @declared symbol term found isTerm _ _ grounded =>
          constructor
          · intro symbol' term' found' isTerm'
            rw [found] at found'
            cases found'
            rw [isTerm] at isTerm'
            cases isTerm'
            exact (grounded known).mono within
          · intro missing
            rw [found] at missing
            cases missing
      | waits _ _ _ isOpen =>
          rw [known] at isOpen
          cases isOpen

end Engine

theorem Expr.exists_infer_eq_name {e : Expr} {name : String} (symbol : e.symbol? = some name) :
    ∃ position, e.infer = Infer.name name position := by
  cases e with
  | identifier _ position =>
      obtain rfl := Option.some.inj symbol
      exact ⟨position, rfl⟩
  | member object property =>
      cases object with
      | identifier space position =>
          obtain rfl := Option.some.inj symbol
          exact ⟨position, rfl⟩
      | _ => cases symbol
  | _ => cases symbol

section Expressions

variable {waiting : String → Option Kind}
  {look : String → Option Meaning} {weights : List Kind} {engine : Engine}

/-- Some work yields a term of a given weight. -/
def Infer.Weighs (waiting : String → Option Kind) (weights : List Kind)
    (work : Infer Term) (engine : Engine) (kind : Kind) : Prop :=
  ∃ weights' term engine', Yields work engine term engine' ∧
    engine.Gains waiting weights weights' engine' ∧ term.Weighs weights' kind

theorem Engine.Knows.weighs {name : String} {meaning : Meaning}
    (knows : engine.Knows waiting weights name meaning)
    (weighed : engine.Weighed waiting weights) (position : Position) :
    Infer.Weighs waiting weights (Infer.name name position) engine meaning.kind := by
  cases knows with
  | @declared symbol term found isTerm weighs _ =>
      exact ⟨weights, term, engine, yields_name.mpr (.inl ⟨symbol, found, isTerm, rfl⟩),
        .refl weighed, weighs⟩
  | waits unknown other waits =>
      cases earlier : engine.forward.find? (·.name == name) with
      | some reference =>
          refine ⟨weights, .pending reference.placeholder, engine, ?_, .refl weighed, ?_⟩
          · exact yields_name.mpr (.inr ⟨unknown, other,
              yields_forward.mpr (.inl ⟨reference, earlier, rfl, rfl⟩)⟩)
          · obtain ⟨kind, waits', weighs⟩ :=
              weighed.forward reference (List.mem_of_find?_eq_some earlier)
            have same : reference.name = name := by simpa using List.find?_some earlier
            rw [same, waits] at waits'
            rw [Option.some.inj waits']
            exact weighs
      | none =>
          have yields : Yields (Infer.name name position) engine (.pending engine.table.next)
              { engine.grow with
                forward := engine.forward ++ [⟨name, engine.table.next, position⟩] } :=
            yields_name.mpr (.inr ⟨unknown, other, yields_forward.mpr (.inr ⟨earlier, rfl, rfl⟩)⟩)
          have grown := weighed.grow meaning.kind
          have next : (Term.pending engine.table.next).Weighs (weights ++ [meaning.kind])
              meaning.kind := by
            rw [weighed.next_eq]
            exact Term.weighs_next weights meaning.kind
          refine ⟨weights ++ [meaning.kind], _, _, yields,
            ⟨List.prefix_append .., stays_name yields, ⟨grown.table, grown.balanced, ?_, ?_⟩⟩, next⟩
          · intro reference present
            rcases List.mem_append.mp present with present | present
            · exact grown.forward reference present
            · rw [List.mem_singleton.mp present]
              exact ⟨meaning.kind, waits, next⟩
          · intro reference present
            rcases List.mem_append.mp present with present | present
            · exact weighed.unmet reference present
            · rw [List.mem_singleton.mp present]
              exact (Option.or_eq_none_iff.mp (Option.or_eq_none_iff.mp unknown).1).2

/-- An operation has the weight of its result, if its operands can be tied to each other. -/
theorem Infer.weighs_operation {operator : BinaryOperator} {left right : Term} {kind : Kind}
    (weighed : engine.Weighed waiting weights)
    (tied : (engine.constrain left right).Weighed waiting weights)
    (applies : ∀ type type', left = .concrete type → right = .concrete type' →
      operator = .divide ∨ type.kind = type'.kind)
    (result : (operator.result left).Weighs weights kind) (position : Position) :
    Infer.Weighs waiting weights (operation operator left right position) engine kind := by
  have opened : operation operator left right position = (do
      constrain left right
      let result ← fresh
      constrain result (operator.result left)
      return result) → Infer.Weighs waiting weights (operation operator left right position)
        engine kind := by
    intro same
    have next : (Term.pending (engine.constrain left right).table.next).Weighs
        (weights ++ [kind]) kind := by
      rw [tied.next_eq]
      exact Term.weighs_next weights _
    have yields : Yields (operation operator left right position) engine
        (.pending (engine.constrain left right).table.next)
        ((engine.constrain left right).grow.constrain
          (.pending (engine.constrain left right).table.next) (operator.result left)) := by
      rw [same]
      simp only [yields_bind, yields_constrain, yields_fresh, yields_pure]
      exact ⟨(), _, rfl, _, _, ⟨rfl, rfl⟩, (), _, rfl, rfl, rfl⟩
    refine ⟨_, _, _, yields, ⟨List.prefix_append .., stays_operation yields, ?_⟩, next⟩
    exact (tied.grow kind).constrain next (result.mono (List.prefix_append ..))
  cases left with
  | concrete type =>
      cases right with
      | concrete type' =>
          exact ⟨weights, _, engine,
            yields_operation_of_types (applies type type' rfl rfl) position, .refl weighed, result⟩
      | pending _ => exact opened rfl
  | pending _ => exact opened rfl

theorem Infer.weighs_application {parameters : List Ty} {result : Term} {arguments : List Term}
    {kind : Kind} (weighed : engine.Weighed waiting weights) (weighs : result.Weighs weights kind)
    (fits : List.Forall₂ (Term.Weighs weights) arguments (parameters.map Ty.kind)) :
    Infer.Weighs waiting weights (application parameters result arguments) engine kind := by
  have counts : parameters.length = arguments.length := by
    rw [fits.length_eq, List.length_map]
  have yields : Yields (application parameters result arguments) engine result
      (engine.constrainAll (arguments.zip (parameters.map .concrete))) := by
    unfold application
    rw [if_pos counts]
    simp only [yields_bind, yields_update, yields_pure]
    exact ⟨(), _, rfl, trivial, rfl⟩
  refine ⟨weights, result, _, yields, ⟨List.prefix_rfl, stays_application yields, ?_⟩, weighs⟩
  refine weighed.constrainAll ?_
  clear counts yields
  induction arguments generalizing parameters with
  | nil =>
      intro pair present
      cases present
  | cons argument rest ih =>
      cases parameters with
      | nil =>
          intro pair present
          cases present
      | cons parameter others =>
          cases fits with
          | cons first fits =>
              intro pair present
              cases present with
              | head => exact ⟨_, first, rfl⟩
              | tail _ later => exact ih fits pair later

mutual

/-- An expression of a given measure yields a term of that weight. -/
theorem Expr.Worth.weighs : ∀ {e : Expr} {kind : Kind}, e.Worth look kind →
    ∀ {weights : List Kind} {engine : Engine}, engine.Weighed waiting weights →
      engine.Follows waiting weights look →
      Infer.Weighs waiting weights e.infer engine kind
  | _, _, .symbol symbol known, _, _, weighed, follows => by
      obtain ⟨position, same⟩ := Expr.exists_infer_eq_name symbol
      rw [same]
      exact (follows _ _ known).weighs weighed position
  | .call callee arguments, _, @Expr.Worth.call _ _ _ name meaning _ symbol known worth fits, _,
      _, weighed, follows => by
      obtain ⟨weights', terms, between, yields, gains, weighs⟩ :=
        Expr.AllWorth.weighs worth weighed follows
      have knows := gains.follows follows _ _ known
      have applied : Infer.Weighs waiting weights'
          (match between.lookup? name with
            | some (.function parameters result) => application parameters result terms
            | _ => callee.infer) between meaning.kind := by
        obtain ⟨position, same⟩ := Expr.exists_infer_eq_name symbol
        rw [same]
        split
        · next parameters result found =>
            cases knows with
            | declared found' isTerm weighs' parameters' =>
                rw [found] at found'
                cases found'
                cases isTerm
                refine weighs_application gains.weighed weighs' ?_
                rw [← fits parameters (parameters' _ _ rfl)]
                exact weighs
            | waits unknown _ _ =>
                rw [found] at unknown
                cases unknown
        · exact knows.weighs gains.weighed position
      obtain ⟨weights'', term, last, yields', gains', weighs'⟩ := applied
      refine ⟨weights'', term, last, ?_, gains.trans gains', weighs'⟩
      simp only [Expr.infer, yields_bind, yields_get, symbol, Option.bind_some]
      exact ⟨terms, between, yields, _, _, ⟨rfl, rfl⟩, yields'⟩
  | .binary operator left right, _, .binary first second, _, _, weighed, follows => by
      obtain ⟨_, term, between, yields, gains, weighs⟩ := Expr.Worth.weighs first weighed follows
      obtain ⟨_, term', between', yields', gains', weighs'⟩ :=
        Expr.Worth.weighs second gains.weighed (gains.follows follows)
      have weighs := weighs.mono gains'.more
      have kinds : ∀ type type', term = .concrete type → term' = .concrete type' →
          operator = .divide ∨ type.kind = type'.kind := by
        rintro type type' rfl rfl
        exact .inr (Eq.trans weighs (Eq.symm weighs'))
      obtain ⟨_, term'', last, yields'', gains'', weighs''⟩ := weighs_operation gains'.weighed
        (gains'.weighed.constrain weighs weighs') kinds (weighs.result operator)
        (between'.positionOf (.binary operator left right))
      refine ⟨_, term'', last, ?_, (gains.trans gains').trans gains'', weighs''⟩
      simp only [Expr.infer, yields_bind, yields_get]
      exact ⟨term, between, yields, term', between', yields', _, _, ⟨rfl, rfl⟩, yields''⟩
  | .binary _ left right, _, .divide first second known known', _, engine, weighed, follows => by
      obtain ⟨_, term, between, yields, gains, weighs⟩ := Expr.Worth.weighs first weighed follows
      obtain ⟨_, term', between', yields', gains', weighs'⟩ :=
        Expr.Worth.weighs second gains.weighed (gains.follows follows)
      -- Both operands come down to types by now, so that it does not matter that they are tied.
      have grounded := left.grounded_infer yields gains'.stays.learns.constraints.subset
        gains'.stays.forward
        (follows.groundsKnown (gains.trans gains').stays.learns.constraints.subset) known
      have grounded' := right.grounded_infer yields' (List.Subset.refl _) List.prefix_rfl
        ((gains.follows follows).groundsKnown gains'.stays.learns.constraints.subset) known'
      obtain ⟨_, term'', last, yields'', gains'', weighs''⟩ := weighs_operation gains'.weighed
        (gains'.weighed.constrain_idle (weighs.mono gains'.more) weighs' grounded grounded')
        (fun _ _ _ _ => .inl rfl) (show (Term.concrete .float).Weighs _ .float from rfl)
        (between'.positionOf (.binary .divide left right))
      refine ⟨_, term'', last, ?_, (gains.trans gains').trans gains'', weighs''⟩
      simp only [Expr.infer, yields_bind, yields_get]
      exact ⟨term, between, yields, term', between', yields', _, _, ⟨rfl, rfl⟩, yields''⟩
  | .prefixed .negate operand, _, .negate worth, _, _, weighed, follows =>
      Expr.Worth.weighs worth weighed follows
  | .prefixed .not operand, _, .not worth, _, _, weighed, follows => by
      obtain ⟨weights', term, between, yields, gains, weighs⟩ :=
        Expr.Worth.weighs worth weighed follows
      refine ⟨weights', .concrete .bool, between.constrain term (.concrete .bool), ?_,
        ⟨gains.more, gains.stays.constrain _ _, gains.weighed.constrain weighs rfl⟩, rfl⟩
      simp only [Expr.infer, yields_bind, yields_constrain, yields_pure]
      exact ⟨term, between, yields, (), _, rfl, trivial, rfl⟩
  | .postfixed _ operand, _, .step worth, _, _, weighed, follows =>
      Expr.Worth.weighs worth weighed follows
  | _, _, .number text, _, _, weighed, _ =>
      ⟨_, _, _, yields_pure.mpr ⟨rfl, rfl⟩, .refl weighed, rfl⟩
  | _, _, .string value, _, _, weighed, _ =>
      ⟨_, _, _, yields_pure.mpr ⟨rfl, rfl⟩, .refl weighed, rfl⟩
  | _, _, .boolean value, _, _, weighed, _ =>
      ⟨_, _, _, yields_pure.mpr ⟨rfl, rfl⟩, .refl weighed, rfl⟩
  | _, _, .null, _, _, weighed, _ => ⟨_, _, _, yields_pure.mpr ⟨rfl, rfl⟩, .refl weighed, rfl⟩

theorem Expr.AllWorth.weighs : ∀ {expressions : List Expr} {kinds : List Kind},
    Expr.AllWorth look expressions kinds →
    ∀ {weights : List Kind} {engine : Engine}, engine.Weighed waiting weights →
      engine.Follows waiting weights look →
      ∃ weights' terms engine', Yields (Expr.inferAll expressions) engine terms engine' ∧
        engine.Gains waiting weights weights' engine' ∧
        List.Forall₂ (Term.Weighs weights') terms kinds
  | _, _, .nil, _, _, weighed, _ => ⟨_, [], _, yields_pure.mpr ⟨rfl, rfl⟩, .refl weighed, .nil⟩
  | _, _, .cons first rest, _, _, weighed, follows => by
      obtain ⟨_, term, between, yields, gains, weighs⟩ := Expr.Worth.weighs first weighed follows
      obtain ⟨_, terms, last, yields', gains', weighs'⟩ :=
        Expr.AllWorth.weighs rest gains.weighed (gains.follows follows)
      refine ⟨_, term :: terms, last, ?_, gains.trans gains',
        .cons (weighs.mono gains'.more) weighs'⟩
      simp only [Expr.inferAll, yields_bind, yields_pure]
      exact ⟨term, between, yields, terms, last, yields', rfl, rfl⟩

end

end Expressions

end SmallLang
