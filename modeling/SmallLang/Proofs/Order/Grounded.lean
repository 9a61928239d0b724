import SmallLang.Proofs.Inference.Decided
import SmallLang.Proofs.Order.Worth
import SmallLang.Proofs.Tree.Notes

/-!
# Terms that come down to types

A term is grounded if the constraints of a run lead from it to a type. What a walk finds is
grounded if it is not open, and all known names that it uses are grounded. If all names that some
statements use are, and no function in them is circular, then everything that is noted in them is.
-/

set_option autoImplicit false

namespace SmallLang

open Infer Walk

section Terms

variable {final : List Constraint} {term left right : Term}

/-- The constraints lead from a term to a type. -/
def Term.Grounded (final : List Constraint) (term : Term) : Prop :=
  ∃ type, Constraint.TermLeadsTo final type term

theorem Term.grounded_concrete (final : List Constraint) (type : Ty) :
    (Term.concrete type).Grounded final :=
  ⟨type, rfl⟩

theorem Term.Grounded.of_ties (grounded : right.Grounded final)
    (ties : Constraint.Ties final left right) : left.Grounded final := by
  cases left with
  | concrete type => exact grounded_concrete final type
  | pending placeholder =>
      obtain ⟨type, leads⟩ := grounded
      exact ⟨type, leads.of_ties ties⟩

theorem Term.Grounded.mono {more : List Constraint} (grounded : term.Grounded final)
    (subset : final ⊆ more) : term.Grounded more := by
  obtain ⟨type, leads⟩ := grounded
  exact ⟨type, leads.mono subset⟩

/-- What comes down to a type is known after the constraints were swept. -/
theorem Term.Grounded.exists_resolve {count : Nat} {table : Table} (grounded : term.Grounded final)
    (swept : Table.Swept count final table) : ∃ type, table.resolve term = .concrete type := by
  cases term with
  | concrete type => exact ⟨type, rfl⟩
  | pending placeholder => exact (swept.exists_resolve_iff placeholder).mpr grounded

/-- Two terms that have to agree are both grounded, or neither is. -/
theorem Engine.grounded_iff_of_constrain {engine : Engine}
    (within : (engine.constrain left right).constraints ⊆ final) :
    left.Grounded final ↔ right.Grounded final := by
  unfold Engine.constrain at within
  split at within
  · have member : ⟨left, right⟩ ∈ final :=
      within (List.mem_append_right _ (List.mem_singleton.mpr rfl))
    exact ⟨fun grounded => grounded.of_ties (.inr member),
      fun grounded => grounded.of_ties (.inl member)⟩
  · next known =>
      cases left with
      | pending _ => exact absurd rfl known
      | concrete type =>
          cases right with
          | pending _ => exact absurd rfl known
          | concrete type' =>
              exact iff_of_true (Term.grounded_concrete final type)
                (Term.grounded_concrete final type')

end Terms

namespace Engine

variable {final : List Constraint} {ahead : List ForwardReference} {engine engine' : Engine}
  {name other : String} {term : Term}

/-- A name comes down to a type: its symbol does, or the placeholder does that its uses ahead of
its declaration share. -/
structure Grounds (final : List Constraint) (ahead : List ForwardReference) (engine : Engine)
    (name : String) : Prop where
  declared : ∀ symbol term, engine.lookup? name = some symbol → symbol.term? = some term →
    term.Grounded final
  awaited : engine.lookup? name = none → ∀ reference,
    ahead.find? (·.name == name) = some reference →
      (Term.pending reference.placeholder).Grounded final

theorem lookup?_congr (scopes : engine'.scopes = engine.scopes)
    (known : engine'.known = engine.known) (name : String) :
    engine'.lookup? name = engine.lookup? name := by
  rw [lookup?, scopes, known]
  rfl

theorem Grounds.congr (grounds : engine.Grounds final ahead name)
    (look : engine'.lookup? name = engine.lookup? name) : engine'.Grounds final ahead name :=
  ⟨look ▸ grounds.declared, look ▸ grounds.awaited⟩

theorem Grounds.stays (grounds : engine.Grounds final ahead name) (stays : engine.Stays engine') :
    engine'.Grounds final ahead name :=
  grounds.congr (lookup?_congr stays.scopes stays.learns.known name)

theorem Grounds.push (grounds : engine.Grounds final ahead name) :
    engine.push.Grounds final ahead name :=
  grounds.congr (congrArg (Option.or · _) (Scopes.resolve?_push engine.scopes name))

theorem Grounds.define (symbol : Symbol) (isTerm : symbol.term? = some term)
    (grounded : other = name → term.Grounded final)
    (scopes : engine'.scopes = engine.scopes.insert name symbol)
    (known : engine'.known = engine.known)
    (grounds : other ≠ name → engine.Grounds final ahead other) :
    engine'.Grounds final ahead other := by
  have look : engine'.lookup? other =
      (if other = name then some symbol else engine.scopes.resolve? other).or
        (engine.known.lookup other) := by
    rw [lookup?, scopes, known, Scopes.resolve?_insert]
  by_cases same : other = name
  · rw [if_pos same, Option.some_or] at look
    constructor
    · intro symbol' term' found isTerm'
      rw [look] at found
      cases found
      rw [isTerm] at isTerm'
      cases isTerm'
      exact grounded same
    · intro missing
      rw [look] at missing
      cases missing
  · rw [if_neg same] at look
    exact (grounds same).congr look

/-- All of some names that are known come down to types. -/
def GroundsKnown (final : List Constraint) (ahead : List ForwardReference) (engine : Engine)
    (unknown : String → Bool) (names : List String) : Prop :=
  ∀ name ∈ names, unknown name = false → engine.Grounds final ahead name

namespace GroundsKnown

variable {unknown : String → Bool} {names more : List String}

theorem nil : engine.GroundsKnown final ahead unknown [] := List.forall_mem_nil _

theorem append (grounds : engine.GroundsKnown final ahead unknown (names ++ more)) :
    engine.GroundsKnown final ahead unknown names ∧ engine.GroundsKnown final ahead unknown more :=
  List.forall_mem_append.mp grounds

theorem stays (grounds : engine.GroundsKnown final ahead unknown names)
    (stays : engine.Stays engine') : engine'.GroundsKnown final ahead unknown names :=
  fun name present known => (grounds name present known).stays stays

theorem push (grounds : engine.GroundsKnown final ahead unknown names) :
    engine.push.GroundsKnown final ahead unknown names :=
  fun name present known => (grounds name present known).push

end GroundsKnown

end Engine

section Expressions

variable {final : List Constraint} {ahead : List ForwardReference} {engine engine' : Engine}
  {term : Term}

theorem Infer.grounded_name {name : String} {position : Position}
    (yields : Yields (Infer.name name position) engine term engine')
    (forward : engine'.forward <+: ahead) (grounds : engine.Grounds final ahead name) :
    term.Grounded final := by
  obtain ⟨rest, rfl⟩ := forward
  rcases yields_name.mp yields with ⟨symbol, found, isTerm, rfl⟩ | ⟨missing, _, yields⟩
  · exact grounds.declared symbol term found isTerm
  · rcases yields_forward.mp yields with ⟨reference, found, rfl, rfl⟩ | ⟨new, rfl, rfl⟩
    · apply grounds.awaited missing
      rw [List.find?_append, found, Option.some_or]
    · refine grounds.awaited missing ⟨name, engine.table.next, position⟩ ?_
      simp [List.find?_append, new]

theorem Infer.grounded_operation {operator : BinaryOperator} {left right : Term}
    {position : Position}
    (yields : Yields (operation operator left right position) engine term engine')
    (within : engine'.constraints ⊆ final)
    (grounded : operator.fixedResult? = none → left.Grounded final ∨ right.Grounded final) :
    term.Grounded final := by
  have result : (operator.fixedResult? = none → left.Grounded final) →
      (operator.result left).Grounded final := by
    intro grounded
    unfold BinaryOperator.result
    split
    · exact Term.grounded_concrete final _
    · next free => exact grounded free
  unfold operation at yields
  split at yields
  · split at yields
    · obtain ⟨rfl, _⟩ := yields_pure.mp yields
      exact result fun _ => Term.grounded_concrete final _
    · exact (yields_fail.mp yields).elim
  · simp only [yields_bind, yields_constrain, yields_fresh, yields_pure] at yields
    obtain ⟨_, _, rfl, _, _, ⟨rfl, rfl⟩, _, _, rfl, rfl, rfl⟩ := yields
    refine (Engine.grounded_iff_of_constrain within).mpr (result fun free => ?_)
    -- The operands are tied to each other, so the one that is grounded grounds the left one.
    have tied : left.Grounded final ↔ right.Grounded final := by
      have later := ((Engine.Stays.refl (engine.constrain left right)).grow.constrain
        (.pending (engine.constrain left right).table.next) (operator.result left)).learns
      exact Engine.grounded_iff_of_constrain (List.Subset.trans later.constraints.subset within)
    exact (grounded free).elim id tied.mpr

/-- A call has the result of the function, or what the callee stands for by itself. -/
theorem Expr.yields_call {callee : Expr} {arguments : List Expr}
    (yields : Yields (Expr.call callee arguments).infer engine term engine') :
    ∃ terms between, Yields (Expr.inferAll arguments) engine terms between ∧
      ((∃ name parameters, callee.symbol? = some name ∧
          between.lookup? name = some (.function parameters term)) ∨
        Yields callee.infer between term engine') := by
  unfold Expr.infer at yields
  simp only [yields_bind, yields_get] at yields
  obtain ⟨terms, between, yields, _, _, ⟨rfl, rfl⟩, yields'⟩ := yields
  refine ⟨terms, _, yields, ?_⟩
  split at yields'
  · next parameters result found =>
      obtain ⟨name, symbol, found⟩ := Option.bind_eq_some_iff.mp found
      unfold application at yields'
      split at yields'
      · simp only [yields_bind, yields_update, yields_pure] at yields'
        obtain ⟨_, _, _, rfl, _⟩ := yields'
        exact .inl ⟨name, parameters, symbol, found⟩
      · obtain ⟨rfl, _⟩ := yields_pure.mp yields'
        exact .inl ⟨name, parameters, symbol, found⟩
  · exact .inr yields'

theorem Expr.isOpen_of_symbol? {e : Expr} {name : String} {unknown : String → Bool}
    (symbol : e.symbol? = some name) : e.isOpen unknown = unknown name := by
  unfold Expr.symbol? at symbol
  split at symbol
  · cases symbol
    rfl
  · cases symbol
    rfl
  · cases symbol

/-- The term of an expression that is not open is grounded if the known names in it are. -/
theorem Expr.grounded_infer {unknown : String → Bool} :
    ∀ (e : Expr) {engine engine' : Engine} {term : Term},
      Yields e.infer engine term engine' → engine'.constraints ⊆ final →
        engine'.forward <+: ahead → engine.GroundsKnown final ahead unknown e.names →
        e.isOpen unknown = false → term.Grounded final
  | .identifier name _, _, _, _, yields, _, forward, grounds, known =>
      grounded_name yields forward (grounds name (List.mem_singleton.mpr rfl) known)
  | .member object property, _, _, _, yields, _, forward, grounds, known => by
      cases object with
      | identifier =>
          exact grounded_name yields forward (grounds _ (List.mem_singleton.mpr rfl) known)
      | _ =>
          unfold Expr.infer at yields
          simp only [yields_bind, yields_fail] at yields
          obtain ⟨_, _, _, ⟨⟩⟩ := yields
  | .call callee arguments, _, _, _, yields, within, forward, grounds, known => by
      obtain ⟨terms, between, yields', applies⟩ := Expr.yields_call yields
      have grounds' : between.GroundsKnown final ahead unknown callee.names :=
        grounds.append.1.stays (Expr.stays_inferAll arguments yields')
      rcases applies with ⟨name, parameters, symbol, found⟩ | yields''
      · have named : name ∈ callee.names := by
          rw [callee.names_of_symbol? symbol]
          exact List.mem_singleton.mpr rfl
        have known' : unknown name = false := (callee.isOpen_of_symbol? symbol).symm.trans known
        exact (grounds' name named known').declared _ _ found rfl
      · exact Expr.grounded_infer callee yields'' within forward grounds' known
  | .binary operator left right, _, _, _, yields, within, forward, grounds, known => by
      unfold Expr.infer at yields
      simp only [yields_bind, yields_get] at yields
      obtain ⟨first, between, yields, second, _, yields', _, _, ⟨rfl, rfl⟩, yields''⟩ := yields
      have stays := stays_operation yields''
      have stays' := (Expr.stays_infer right yields').trans stays
      obtain ⟨grounds, others⟩ := grounds.append
      refine grounded_operation yields'' within ?_
      intro free
      simp only [Expr.isOpen, free, Option.isNone_none, Bool.true_and,
        Bool.and_eq_false_iff] at known
      refine known.imp (fun known => ?_) fun known => ?_
      · exact Expr.grounded_infer left yields
          (List.Subset.trans stays'.learns.constraints.subset within) (stays'.forward.trans forward)
          grounds known
      · exact Expr.grounded_infer right yields'
          (List.Subset.trans stays.learns.constraints.subset within) (stays.forward.trans forward)
          (others.stays (Expr.stays_infer left yields)) known
  | .prefixed .negate operand, _, _, _, yields, within, forward, grounds, known =>
      Expr.grounded_infer operand yields within forward grounds known
  | .prefixed .not operand, _, _, _, yields, _, _, _, _ => by
      unfold Expr.infer at yields
      simp only [yields_bind, yields_constrain, yields_pure] at yields
      obtain ⟨_, _, _, _, _, _, rfl, _⟩ := yields
      exact Term.grounded_concrete final .bool
  | .postfixed _ operand, _, _, _, yields, within, forward, grounds, known =>
      Expr.grounded_infer operand yields within forward grounds known
  | .number _, _, _, _, yields, _, _, _, _ | .string _, _, _, _, yields, _, _, _, _
  | .boolean _, _, _, _, yields, _, _, _, _ | .null, _, _, _, yields, _, _, _, _ => by
      obtain ⟨rfl, _⟩ := yields_pure.mp yields
      exact Term.grounded_concrete final _

end Expressions

section Declarations

variable {final : List Constraint} {ahead : List ForwardReference} {engine engine' : Engine}
  {unknown : String → Bool}

theorem Infer.grounded_value? {value : Option Expr} {found : Option Term}
    (yields : Yields (value? value) engine found engine') (within : engine'.constraints ⊆ final)
    (forward : engine'.forward <+: ahead)
    (grounds : engine.GroundsKnown final ahead unknown (Expr.names? value))
    (known : value.any (·.isOpen unknown) = false) : ∀ term ∈ found, term.Grounded final := by
  intro term noted
  cases value with
  | none =>
      obtain ⟨rfl, _⟩ := yields_value?_none.mp yields
      cases noted
  | some e =>
      obtain ⟨_, inferred, rfl⟩ := yields_value?_some.mp yields
      cases noted
      exact e.grounded_infer inferred within forward grounds known

/-- What waits for another name still waits for it after a declaration. -/
theorem Engine.find?_settleForward {name other : String} (differs : other ≠ name) (term : Term) :
    (engine.settleForward name term).forward.find? (·.name == other) =
      engine.forward.find? (·.name == other) := by
  unfold settleForward
  split
  · split
    · rfl
    · rw [constrain_eq, List.find?_filter]
      congr 1
      funext reference
      by_cases same : reference.name = other
      · simp [same, differs]
      · simp [same]
  · rfl

theorem Scopes.typeOf?_isSome {scopes : Scopes} {written : Option TypeName} {declared : Option Ty}
    (isType : scopes.typeOf? written = .ok declared) (stated : written.isSome) :
    ∃ type, declared = some type := by
  obtain ⟨typeName, rfl⟩ := Option.isSome_iff_exists.mp stated
  rw [typeOf?] at isType
  split at isType
  · cases isType
  · cases isType
    exact ⟨_, rfl⟩

/-- The initial term of a variable that is not open is grounded if the known names in its value
are. -/
theorem Infer.grounded_initial {decl : Variable} {found : Option Term}
    (yields : Yields (initial decl) engine found engine') (known : decl.isOpen unknown = false)
    (within : engine'.constraints ⊆ final) (forward : engine'.forward <+: ahead)
    (grounds : engine.GroundsKnown final ahead unknown (Expr.names? decl.value)) :
    ∃ term, found = some term ∧ term.Grounded final := by
  obtain ⟨annotated, value, last, written, valued, rfl, rfl⟩ := yields_initial.mp yields
  cases annotated with
  | some type => exact ⟨.concrete type, rfl, Term.grounded_concrete final type⟩
  | none =>
      have unwritten : decl.typeName.isNone = true := by
        rw [← Bool.not_eq_false, Option.isNone_eq_false_iff]
        intro stated
        obtain ⟨_, ⟨⟩⟩ := Scopes.typeOf?_isSome written stated
      rw [Variable.isOpen, unwritten, Bool.true_and] at known
      cases found : decl.value with
      | none =>
          rw [found] at known
          cases known
      | some e =>
          rw [found] at known valued grounds
          obtain ⟨term, inferred, rfl⟩ := yields_value?_some.mp valued
          refine ⟨term, rfl, e.grounded_infer inferred within forward ?_ known⟩
          exact fun name used known => (grounds name used known).congr rfl

/-- A variable that is not open is grounded if the known names in its value are. In the root scope,
the value does not use the variable itself. -/
theorem Variable.grounded_walk {decl decl' : Variable}
    (ends : decl.walk.Ends engine decl' engine')
    (own : engine.scopes.isRoot = true → decl.name ∉ Expr.names? decl.value)
    (within : engine'.constraints ⊆ final) (forward : engine'.forward <+: ahead)
    (grounds : engine.GroundsKnown final ahead unknown (Expr.names? decl.value)) :
    (decl.isOpen unknown = false → ∀ term ∈ decl'.resolved, term.Grounded final) ∧
      ∀ other, (other = decl.name → decl.isOpen unknown = false) →
        (other ≠ decl.name → engine.Grounds final ahead other) →
        engine'.Grounds final ahead other := by
  obtain ⟨known, between, term, begins, declares, rfl⟩ := Variable.ends_walk.mp ends
  obtain ⟨last, starts, notType, _, rfl⟩ := yields_declare.mp declares
  obtain ⟨fresh, same⟩ := grows_orFresh starts
  have defines := (@Engine.grows_define last decl.name (.variable term decl.mutable) notType
    (by intro type; nofun) term).learns
  have stays : last.scopes = engine.scopes ∧ last.known = engine.known := by
    obtain ⟨_, _, _, _, valued, rfl, _⟩ := yields_initial.mp begins
    have stays := (stays_value? valued).1
    exact ⟨fresh.scopes.trans stays.scopes, fresh.learns.known.trans stays.learns.known⟩
  -- What the value waits for still waits after the declaration.
  have later : ∀ name ∈ Expr.names? decl.value, ∀ reference,
      between.forward.find? (·.name == name) = some reference →
        ahead.find? (·.name == name) = some reference := by
    intro name used reference found
    refine forward.find?_eq_some ?_
    have found' := fresh.forward.find?_eq_some found
    cases isRoot : last.scopes.isRoot with
    | false =>
        rw [Engine.settleForward_of_not_isRoot ((Scopes.isRoot_insert ..).trans isRoot)]
        exact found'
    | true =>
        have differs : name ≠ decl.name := by
          intro same
          exact own (stays.1 ▸ isRoot) (same ▸ used)
        rw [Engine.find?_settleForward differs]
        exact found'
  have decides : decl.isOpen unknown = false → ∃ found, known = some found ∧
      found.Grounded final := by
    intro decided
    refine grounded_initial begins decided
      (List.Subset.trans (fresh.learns.constraints.trans defines.constraints).subset within)
      List.prefix_rfl ?_
    intro name used known
    have grounds' := grounds name used known
    exact ⟨grounds'.declared, fun missing reference found =>
      grounds'.awaited missing reference (later name used reference found)⟩
  constructor
  · intro decided
    obtain ⟨found, rfl, grounded⟩ := decides decided
    rintro _ ⟨⟩
    exact grounded
  · intro other decided grounds'
    refine Engine.Grounds.define (.variable term decl.mutable) rfl (fun own => ?_) ?_ ?_ grounds'
    · obtain ⟨found, rfl, grounded⟩ := decides (decided own)
      exact same found rfl ▸ grounded
    · rw [Engine.settleForward_eq, ← stays.1]
    · rw [Engine.settleForward_eq, ← stays.2]

theorem Infer.grounds_parameters {parameters : List Parameter} {name : String} :
    ∀ {engine engine' : Engine}, Yields (Infer.parameters parameters) engine () engine' →
      (name ∉ parameters.map (·.name) → engine.Grounds final ahead name) →
      engine'.Grounds final ahead name := by
  induction parameters with
  | nil =>
      intro engine engine' yields grounds
      obtain ⟨_, rfl⟩ := yields_pure.mp yields
      exact grounds List.not_mem_nil
  | cons param rest ih =>
      intro engine engine' yields grounds
      simp only [Infer.parameters, yields_bind] at yields
      obtain ⟨_, between, yields, yields'⟩ := yields
      obtain ⟨type, _, _, _, rfl, _⟩ := yields_parameter.mp yields
      refine ih yields' ?_
      intro missing
      refine Engine.Grounds.define (.variable (.concrete type) true) rfl
        (fun _ => Term.grounded_concrete final type) rfl rfl fun differs => grounds ?_
      rw [List.map_cons, List.mem_cons]
      exact not_or.mpr ⟨differs, missing⟩

theorem Engine.grounded_iff_of_constrainAll {pairs : List (Term × Term)} :
    ∀ {engine : Engine}, (engine.constrainAll pairs).constraints ⊆ final → ∀ pair ∈ pairs,
      (pair.1.Grounded final ↔ pair.2.Grounded final) := by
  induction pairs with
  | nil => exact fun _ _ present => nomatch present
  | cons first rest ih =>
      intro engine within pair present
      cases present with
      | head =>
          have later := (Engine.Stays.refl (engine.constrain first.1 first.2)).constrainAll rest
          exact grounded_iff_of_constrain
            (List.Subset.trans later.learns.constraints.subset within)
      | tail _ present => exact ih within pair present

/-- A function without a written result that returns something grounded has a grounded result. -/
theorem Infer.grounded_result {header : FunctionHeader} {declared : Option Ty}
    {terms : List Term} {term : Term}
    (yields : Yields (result header declared terms) engine term engine')
    (within : engine'.constraints ⊆ final)
    (grounded : declared = none → terms ≠ [] → ∃ term ∈ terms, term.Grounded final) :
    term.Grounded final := by
  cases declared with
  | some type =>
      obtain ⟨rfl, _⟩ := yields_pure.mp yields
      exact Term.grounded_concrete final type
  | none =>
      have yields : Yields (commonReturn header terms) engine term engine' := yields
      cases found : terms.find? Term.isPending with
      | some pending =>
          obtain ⟨rfl, rfl⟩ := (yields_commonReturn_of_pending found).mp yields
          have present := List.mem_of_find?_eq_some found
          obtain ⟨other, returned, grounded⟩ := grounded rfl (List.ne_nil_of_mem present)
          by_cases same : other = term
          · exact same ▸ grounded
          · have tied := Engine.grounded_iff_of_constrainAll within (term, other)
              (List.mem_map.mpr ⟨other, List.mem_filter.mpr ⟨returned, bne_iff_ne.mpr same⟩, rfl⟩)
            exact tied.mpr grounded
      | none =>
          obtain ⟨types, rfl⟩ := exists_types_of_find?_eq_none found
          obtain ⟨rfl, _⟩ := yields_commonReturn_of_types.mp yields
          exact Term.grounded_concrete final _

/-- If something that a function returns is grounded, or it returns nothing, then so are its results
before and after its body. -/
theorem Infer.grounded_conclusion {header : FunctionHeader} {declared : Option Ty}
    {before term : Term} {terms : List Term}
    (yields : Yields (conclusion header declared before terms) engine term engine')
    (within : engine'.constraints ⊆ final)
    (grounded : declared = none → terms ≠ [] → ∃ term ∈ terms, term.Grounded final) :
    before.Grounded final ∧ term.Grounded final := by
  obtain ⟨after, between, yields', rfl, rfl⟩ := yields_conclusion.mp yields
  by_cases same : after = before
  · rw [if_pos same] at within
    have grounded' := grounded_result yields' within grounded
    rw [same, ite_self]
    exact ⟨same ▸ grounded', same ▸ grounded'⟩
  · rw [if_neg same] at within
    have later := (Engine.Stays.refl between).constrain before after
    have grounded' := grounded_result yields'
      (List.Subset.trans later.learns.constraints.subset within) grounded
    have both := (Engine.grounded_iff_of_constrain within).mpr grounded'
    refine ⟨both, ?_⟩
    split
    · exact both
    · exact grounded'

/-- A function that is not open has its result written, returns nothing, or returns something
grounded. -/
theorem FunctionHeader.exists_grounded {header : FunctionHeader} {returned : List Bool}
    {terms : List Term} (known : header.isOpen returned = false) (unwritten : header.returns = none)
    (flagged : List.Forall₂ (fun isOpen term => isOpen = false → Term.Grounded final term) returned
      terms) (returns : terms ≠ []) : ∃ term ∈ terms, term.Grounded final := by
  have nonempty : returned.isEmpty = false := by
    cases flagged with
    | nil => exact absurd rfl returns
    | cons => rfl
  rw [isOpen, unwritten, nonempty, Option.isNone_none, Bool.not_false, Bool.true_and,
    Bool.true_and] at known
  clear nonempty returns
  induction flagged with
  | nil => cases known
  | @cons isOpen term _ _ grounded _ ih =>
      cases isOpen with
      | false => exact ⟨term, List.mem_cons_self, grounded rfl⟩
      | true =>
          obtain ⟨other, present, grounded⟩ := ih known
          exact ⟨other, List.mem_cons_of_mem term present, grounded⟩

end Declarations

section Functions

variable {final : List Constraint} {ahead : List ForwardReference}
  {engine inner start last engine' : Engine} {header : FunctionHeader} {declared : Option Ty}
  {before term : Term}

theorem Infer.grounds_function
    (begins : Yields (Infer.function header) engine (declared, before) inner) {name : String}
    (own : name = header.name → before.Grounded final)
    (others : name ≠ header.name → engine.Grounds final ahead name) :
    inner.Grounds final ahead name := by
  obtain ⟨parameters, between, _, _, starts, _, _, rfl⟩ := yields_function.mp begins
  have fresh := (grows_orFresh starts).1
  refine Engine.Grounds.define (.function parameters before) rfl own ?_ ?_ others
  · rw [Engine.settleForward_eq, fresh.scopes]
  · rw [Engine.settleForward_eq, fresh.learns.known]

/-- A result that is written is known before the body. -/
theorem Infer.grounded_of_written
    (begins : Yields (Infer.function header) engine (declared, before) inner)
    (written : header.returns.isSome) : before.Grounded final := by
  obtain ⟨_, _, _, isType, starts, _, _, _⟩ := yields_function.mp begins
  obtain ⟨type, rfl⟩ := Scopes.typeOf?_isSome isType written
  rw [(grows_orFresh starts).2 (.concrete type) rfl]
  exact Term.grounded_concrete final type

/-- Where the body of a function begins, its parameters are known, and its own name stands for its
result so far. -/
theorem Infer.grounds_start
    (begins : Yields (Infer.function header) engine (declared, before) inner)
    (given : Yields (Infer.parameters header.parameters) inner.enter () start) {name : String}
    (own : name ∉ header.parameters.map (·.name) → name = header.name → before.Grounded final)
    (others : name ∉ header.parameters.map (·.name) → name ≠ header.name →
      engine.Grounds final ahead name) : start.Grounds final ahead name := by
  refine grounds_parameters given ?_
  intro missing
  have outside := grounds_function begins (own missing) (others missing)
  exact outside.push.congr rfl

/-- A function that is not open has grounded results, before and after its body, if what it returns
and is not open is grounded. -/
theorem Infer.grounded_function {terms : List Term} {returned : List Bool}
    (begins : Yields (Infer.function header) engine (declared, before) inner)
    (concluded : Yields (conclusion header declared before terms) last term engine')
    (within : engine'.constraints ⊆ final)
    (flagged : List.Forall₂ (fun isOpen term => isOpen = false → Term.Grounded final term) returned
      terms) (known : header.isOpen returned = false) :
    before.Grounded final ∧ term.Grounded final := by
  refine grounded_conclusion concluded within ?_
  intro undeclared returns
  refine header.exists_grounded known ?_ flagged returns
  rw [← Option.not_isSome_iff_eq_none]
  intro written
  obtain ⟨_, _, _, isType, _⟩ := yields_function.mp begins
  obtain ⟨type, rfl⟩ := Scopes.typeOf?_isSome isType written
  cases undeclared

theorem Stmt.mem_needs_of_mem_body {body : List Stmt} {name : String}
    (used : name ∈ Stmt.allNeeds [] body) (differs : name ≠ header.name)
    (missing : name ∉ header.parameters.map (·.name)) :
    name ∈ (Stmt.function header (some body)).needs [] := by
  refine List.mem_append_left _ (List.mem_filter.mpr ⟨used, ?_⟩)
  simpa [differs] using missing

end Functions

namespace Engine

variable {final : List Constraint} {ahead : List ForwardReference}
  {engine engine' engine'' between : Engine} {terms : List Term}
  {unknown unknown' : String → Bool} {returned more : List Bool} {later : List String}

/-- What a walk leaves behind: what it returns and is not open is grounded, and so are some names
that are known afterwards. -/
structure Leaves (final : List Constraint) (ahead : List ForwardReference) (engine engine' : Engine)
    (returned : List Bool) (unknown : String → Bool) (later : List String) : Prop where
  returned : ∃ terms, engine'.frames = framesAfter engine.frames terms ∧
    List.Forall₂ (fun isOpen term => isOpen = false → Term.Grounded final term) returned terms
  grounds : engine'.GroundsKnown final ahead unknown later

theorem Stays.leaves (stays : engine.Stays engine')
    (grounds : engine.GroundsKnown final ahead unknown later) :
    engine.Leaves final ahead engine' [] unknown later where
  returned := ⟨[], by rw [framesAfter_nil, stays.frames], .nil⟩
  grounds := grounds.stays stays

theorem Leaves.trans (first : engine.Leaves final ahead engine' returned unknown' [])
    (second : engine'.Leaves final ahead engine'' more unknown later) :
    engine.Leaves final ahead engine'' (returned ++ more) unknown later where
  returned := by
    obtain ⟨terms, frames, grounded⟩ := first.returned
    obtain ⟨terms', frames', grounded'⟩ := second.returned
    refine ⟨terms ++ terms', ?_, List.rel_append grounded grounded'⟩
    rw [frames', frames, framesAfter_append]
  grounds := second.grounds

theorem Leaves.forget (leaves : engine.Leaves final ahead engine' returned unknown later) :
    engine.Leaves final ahead engine' returned unknown [] :=
  ⟨leaves.returned, .nil⟩

theorem Stays.afterwards (stays : engine.Stays between)
    (leaves : between.Leaves final ahead engine' returned unknown later) :
    engine.Leaves final ahead engine' returned unknown later :=
  (@Stays.leaves _ _ _ _ unknown _ stays .nil).trans leaves

/-- A walk inside of a function, between two engines, none of whose findings is lost. -/
structure Inside (final : List Constraint) (ahead : List ForwardReference)
    (engine engine' : Engine) : Prop where
  sane : engine.scopes.Sane
  inner : engine.scopes.isRoot = false
  within : engine'.constraints ⊆ final
  forward : engine'.forward <+: ahead

theorem Inside.first (inside : engine.Inside final ahead engine')
    (inner : between.scopes.isRoot = false) (grows : between.Grows engine' terms) :
    engine.Inside final ahead between :=
  ⟨inside.sane, inside.inner, List.Subset.trans grows.learns.constraints.subset inside.within,
    (grows.forward inner).trans inside.forward⟩

theorem Inside.second (inside : engine.Inside final ahead engine')
    (grows : engine.Grows between terms) : between.Inside final ahead engine' :=
  ⟨grows.sane inside.sane, grows.isRoot.trans inside.inner, inside.within, inside.forward⟩

theorem Inside.block (inside : engine.Inside final ahead engine'.pop) :
    engine.push.Inside final ahead engine' :=
  ⟨inside.sane.push, rfl, inside.within, inside.forward⟩

/-- What is known of names is the same after a block. -/
theorem Grows.grounds_block {names : List String} (grows : engine.push.Grows engine' terms)
    (grounds : engine.GroundsKnown final ahead unknown names) :
    engine'.pop.GroundsKnown final ahead unknown names := fun name present known =>
  (grounds name present known).congr (lookup?_congr grows.block.1 grows.learns.known name)

end Engine

section Statements

variable {final : List Constraint} {ahead : List ForwardReference} {engine engine' : Engine}
  {unknown : String → Bool} {later : List String}

theorem Engine.addReturn_same (engine : Engine) (term : Term) :
    (engine.addReturn term).constraints = engine.constraints ∧
      (engine.addReturn term).forward = engine.forward ∧
      ∀ name, (engine.addReturn term).lookup? name = engine.lookup? name := by
  unfold addReturn
  split
  · exact ⟨rfl, rfl, fun _ => rfl⟩
  · exact ⟨rfl, rfl, fun _ => rfl⟩

theorem Stmt.leaves_returns {value : Option Expr} {s' : Stmt}
    (ends : (Stmt.returns value).walk.Ends engine s' engine')
    (inside : engine.Inside final ahead engine')
    (grounds : engine.GroundsKnown final ahead unknown ((Stmt.returns value).needs later)) :
    engine.Leaves final ahead engine' [value.any (·.isOpen unknown)] unknown later := by
  obtain ⟨rfl, term, yields⟩ := Stmt.ends_returns.mp ends
  have grows := grows_returns yields
  obtain ⟨found, between, valued, rfl, rfl⟩ := yields_returns.mp yields
  have stays := (stays_value? valued).1
  obtain ⟨constraints, forward, look⟩ :=
    between.addReturn_same (found.getD (.concrete .void))
  obtain ⟨grounds, grounds'⟩ := grounds.append
  constructor
  · refine ⟨_, grows.frames, .cons (fun known => ?_) .nil⟩
    have grounded := grounded_value? valued (constraints ▸ inside.within) (forward ▸ inside.forward)
      grounds known
    cases found with
    | none => exact Term.grounded_concrete final .void
    | some term => exact grounded term rfl
  · intro name present known
    exact ((grounds' name present known).stays stays).congr (look name)

theorem Stmt.leaves_declare {decl : Variable} {s' : Stmt}
    (ends : (Stmt.declare decl).walk.Ends engine s' engine')
    (inside : engine.Inside final ahead engine')
    (grounds : engine.GroundsKnown final ahead unknown ((Stmt.declare decl).needs later)) :
    engine.Leaves final ahead engine' [] ((Stmt.declare decl).unknownAfter unknown) later := by
  obtain ⟨decl', walked, rfl⟩ := Stmt.ends_declare.mp ends
  have own : engine.scopes.isRoot = true → decl.name ∉ Expr.names? decl.value := by
    intro isRoot
    rw [inside.inner] at isRoot
    cases isRoot
  obtain ⟨grounds, others⟩ := grounds.append
  obtain ⟨_, grounds'⟩ :=
    Variable.grounded_walk walked own inside.within inside.forward grounds
  obtain ⟨⟨terms, none, grows⟩, _, _⟩ := Variable.passes_walk walked inside.sane
  obtain rfl := List.length_eq_zero_iff.mp none
  refine ⟨⟨[], grows.frames, .nil⟩, fun name present known => ?_⟩
  rw [Stmt.unknownAfter, Function.update_apply] at known
  refine grounds' name (fun same => ?_) fun differs => ?_
  · rwa [if_pos same] at known
  · rw [if_neg differs] at known
    exact others name (List.mem_filter.mpr ⟨present, bne_iff_ne.mpr differs⟩) known

theorem Stmt.grounded_prototype {header : FunctionHeader} {s' : Stmt}
    (ends : (Stmt.function header none).walk.Ends engine s' engine')
    (external : header.isExternal = true) :
    engine'.frames = engine.frames ∧ (∀ note ∈ s'.notes, ∀ term ∈ note, term.Grounded final) ∧
      ∀ other, (other ≠ header.name → engine.Grounds final ahead other) →
        engine'.Grounds final ahead other := by
  obtain ⟨declared, term, yields, rfl⟩ := Stmt.ends_prototype.mp ends
  have grows := grows_function yields
  have grounded : term.Grounded final := by
    obtain ⟨_, _, _, _, starts, _, _, _⟩ := yields_function.mp yields
    obtain ⟨_, same⟩ := grows_orFresh starts
    cases declared with
    | some type =>
        rw [same (.concrete type) rfl]
        exact Term.grounded_concrete final type
    | none =>
        rw [same (.concrete .void) (by rw [knownResult, if_pos external]; rfl)]
        exact Term.grounded_concrete final .void
  refine ⟨grows.frames.trans (Engine.framesAfter_nil _), fun note present => ?_,
    fun other grounds => grounds_function yields (fun _ => grounded) grounds⟩
  obtain rfl := List.mem_singleton.mp present
  rintro _ ⟨⟩
  exact grounded

/-- The body of a function is walked inside of it. -/
theorem Stmt.inside_function {header : FunctionHeader} {declared : Option Ty} {before term : Term}
    {inner start last : Engine} {body body' : List Stmt}
    (begins : Yields (Infer.function header) engine (declared, before) inner)
    (given : Yields (Infer.parameters header.parameters) inner.enter () start)
    (walked : (Stmt.walkAll body).Ends start body' last)
    (concluded : Yields (conclusion header declared before last.returned) last.leave term engine')
    (sane : engine.scopes.Sane) (within : engine'.constraints ⊆ final)
    (forward : engine'.forward <+: ahead) :
    start.Inside final ahead last ∧ engine'.frames = engine.frames ∧
      ∀ name, engine'.lookup? name = inner.lookup? name := by
  obtain ⟨stays, _, _⟩ := stays_conclusion concluded
  have opened := grows_parameters given
  have begun := grows_function begins
  have sane' := opened.sane (begun.sane sane).push
  obtain ⟨⟨returned, _, grows⟩, _, _⟩ := Stmt.passes_walkAll body walked sane'
  obtain ⟨left, _, leaves⟩ := (opened.andThen grows).leave
  refine ⟨⟨sane', opened.isRoot, ?_, stays.forward.trans forward⟩, ?_, ?_⟩
  · exact List.Subset.trans stays.learns.constraints.subset within
  · rw [stays.frames, leaves.frames, Engine.framesAfter_nil, begun.frames, Engine.framesAfter_nil]
  · exact Engine.lookup?_congr (stays.scopes.trans left)
      (stays.learns.known.trans leaves.learns.known)

/-- What a function returns leads its result to a type, unless it is open. -/
theorem Stmt.grounded_own {header : FunctionHeader} {declared : Option Ty} {before term : Term}
    {inner start last : Engine} {body : List Stmt}
    (begins : Yields (Infer.function header) engine (declared, before) inner)
    (given : Yields (Infer.parameters header.parameters) inner.enter () start)
    (leaves : start.GroundsKnown final ahead (header.unknownInside unknown)
        (Stmt.allNeeds [] body) →
      start.Leaves final ahead last
        (Stmt.allOpenReturns body (header.unknownInside unknown))
        (Stmt.allUnknownAfter body (header.unknownInside unknown)) [])
    (concluded : Yields (conclusion header declared before last.returned) last.leave term engine')
    (within : engine'.constraints ⊆ final)
    (grounds : engine.GroundsKnown final ahead unknown
      ((Stmt.function header (some body)).needs []))
    (known : header.isOpen (Stmt.allOpenReturns body (header.unknownInside unknown)) = false) :
    before.Grounded final ∧ term.Grounded final := by
  have inside : start.GroundsKnown final ahead (header.unknownInside unknown)
      (Stmt.allNeeds [] body) := by
    intro name used known
    unfold FunctionHeader.unknownInside at known
    refine grounds_start begins given (fun missing same => ?_) fun missing differs => ?_
    · rw [if_neg missing, if_pos same, Option.isNone_eq_false_iff] at known
      exact grounded_of_written begins known
    · rw [if_neg missing, if_neg differs] at known
      exact grounds name (Stmt.mem_needs_of_mem_body used differs missing) known
  obtain ⟨terms, frames, flagged⟩ := (leaves inside).returned
  have returned : last.returned = terms := by
    rw [Engine.returned, frames, (grows_parameters given).frames]
    rfl
  exact grounded_function begins concluded within (returned ▸ flagged) known

/-- After a function its name is grounded, unless it is open. -/
theorem Stmt.grounds_walk_function {header : FunctionHeader} {body : List Stmt} {s' : Stmt}
    (walks : ∀ {engine engine' : Engine} {body' : List Stmt},
      (Stmt.walkAll body).Ends engine body' engine' → engine.Inside final ahead engine' →
        engine.GroundsKnown final ahead (header.unknownInside unknown) (Stmt.allNeeds [] body) →
        engine.Leaves final ahead engine'
          (Stmt.allOpenReturns body (header.unknownInside unknown))
          (Stmt.allUnknownAfter body (header.unknownInside unknown)) [])
    (ends : (Stmt.function header (some body)).walk.Ends engine s' engine')
    (sane : engine.scopes.Sane) (within : engine'.constraints ⊆ final)
    (forward : engine'.forward <+: ahead)
    (grounds : engine.GroundsKnown final ahead unknown
      ((Stmt.function header (some body)).needs [])) :
    engine'.frames = engine.frames ∧ ∀ other,
      (Stmt.function header (some body)).unknownAfter unknown other = false →
        (other ≠ header.name → unknown other = false → engine.Grounds final ahead other) →
          engine'.Grounds final ahead other := by
  obtain ⟨declared, before, inner, start, body', last, term, begins, given, walked, concluded,
    rfl⟩ := Stmt.ends_function.mp ends
  obtain ⟨inside, frames, look⟩ :=
    Stmt.inside_function begins given walked concluded sane within forward
  refine ⟨frames, fun other known others => ?_⟩
  rw [Stmt.unknownAfter, Function.update_apply] at known
  refine Engine.Grounds.congr (grounds_function begins (fun same => ?_) fun differs => ?_)
    (look other)
  · rw [if_pos same] at known
    exact (Stmt.grounded_own begins given (walks walked inside) concluded within grounds
      known).1
  · rw [if_neg differs] at known
    exact others differs known

/-- What a block returns is grounded as far as it is not open. Its names are forgotten. -/
theorem Stmt.leaves_block {body body' : List Stmt} {last : Engine}
    (walked : (Stmt.walkAll body).Ends engine.push body' last)
    (leaves : engine.push.Inside final ahead last →
      engine.push.GroundsKnown final ahead unknown (Stmt.allNeeds [] body) →
      engine.push.Leaves final ahead last (Stmt.allOpenReturns body unknown)
        (Stmt.allUnknownAfter body unknown) [])
    (inside : engine.Inside final ahead last.pop)
    (needs : engine.GroundsKnown final ahead unknown (Stmt.allNeeds [] body))
    (grounds : engine.GroundsKnown final ahead unknown later) :
    engine.Leaves final ahead last.pop (Stmt.allOpenReturns body unknown) unknown later := by
  obtain ⟨⟨_, _, grows⟩, _, _⟩ := Stmt.passes_walkAll body walked inside.sane.push
  exact ⟨(leaves inside.block needs.push).returned, grows.grounds_block grounds⟩

/-- The two ways of a branch, one after the other. -/
theorem Stmt.leaves_branch {condition : Expr} {body body' : List Stmt}
    {alternate alternate' : Alternate} {between last : Engine}
    (yields : Yields (Infer.condition condition) engine () between)
    (walked : (Stmt.walkAll body).Ends between.push body' last)
    (walked' : alternate.walk.Ends last.pop alternate' engine')
    (leaves : between.push.Inside final ahead last →
      between.push.GroundsKnown final ahead unknown (Stmt.allNeeds [] body) →
      between.push.Leaves final ahead last (Stmt.allOpenReturns body unknown)
        (Stmt.allUnknownAfter body unknown) [])
    (leaves' : last.pop.Inside final ahead engine' →
      last.pop.GroundsKnown final ahead unknown alternate.needs →
      last.pop.GroundsKnown final ahead unknown later →
      last.pop.Leaves final ahead engine' (alternate.openReturns unknown) unknown later)
    (inside : engine.Inside final ahead engine')
    (needs : engine.GroundsKnown final ahead unknown
      (condition.names ++ Stmt.allNeeds [] body ++ alternate.needs))
    (grounds : engine.GroundsKnown final ahead unknown later) :
    engine.Leaves final ahead engine'
      (Stmt.allOpenReturns body unknown ++ alternate.openReturns unknown) unknown later := by
  have stays := stays_condition yields
  have inside' := inside.second stays.grows
  obtain ⟨⟨_, _, grows⟩, _, _⟩ := Stmt.passes_walkAll body walked inside'.sane.push
  obtain ⟨⟨_, _, grows'⟩, _, _⟩ :=
    Alternate.passes_walk alternate walked' (grows.block.2.sane inside'.sane)
  obtain ⟨needs, others⟩ := needs.append
  have first : between.Inside final ahead last.pop :=
    inside'.first (grows.block.2.isRoot.trans inside'.inner) grows'
  have block := Stmt.leaves_block walked leaves first (needs.append.2.stays stays) .nil
  exact stays.afterwards (block.trans (leaves' (inside'.second grows.block.2)
    (grows.grounds_block (others.stays stays)) (grows.grounds_block (grounds.stays stays))))

mutual

/-- What statements of known kinds return is grounded as far as it is not open, and so are the names
that are known after them. -/
theorem Stmt.Worth.leaves : ∀ {s s' : Stmt} {Δ Δ' : Env Meaning} {returned notes : List Kind}
    {engine engine' : Engine} {unknown : String → Bool} {later : List String},
    Stmt.Worth Δ s Δ' returned notes → s.walk.Ends engine s' engine' →
      engine.Inside final ahead engine' →
      engine.GroundsKnown final ahead unknown (s.needs later) →
      engine.Leaves final ahead engine' (s.openReturns unknown) (s.unknownAfter unknown) later
  | .expr e, _, _, _, _, _, _, _, _, _, .expr _, ends, _, grounds => by
      rw [Stmt.walk, ends_still] at ends
      obtain ⟨rfl, term, yields⟩ := ends
      exact (e.stays_infer yields).leaves grounds.append.2
  | .comment _, _, _, _, _, _, _, _, _, _, .comment _, ends, _, grounds
  | .use _, _, _, _, _, _, _, _, _, _, .use _, ends, _, grounds => by
      rw [Stmt.walk, ends_still] at ends
      obtain ⟨rfl, _, yields⟩ := ends
      obtain ⟨_, rfl⟩ := yields_pure.mp yields
      exact (Engine.Stays.refl _).leaves grounds
  | .returns _, _, _, _, _, _, _, _, _, _, .returns _, ends, inside, grounds =>
      Stmt.leaves_returns ends inside grounds
  | .declare _, _, _, _, _, _, _, _, _, _, .declare .., ends, inside, grounds =>
      Stmt.leaves_declare ends inside grounds
  | .function header none, _, _, _, _, _, _, _, _, _, .prototype _ _ external _, ends, _,
    grounds => by
      obtain ⟨frames, _, grounds'⟩ := Stmt.grounded_prototype ends external
      refine ⟨⟨[], by rw [Engine.framesAfter_nil, frames], .nil⟩, fun name present known => ?_⟩
      refine grounds' name fun differs => grounds name ?_ ?_
      · exact List.mem_filter.mpr ⟨present, bne_iff_ne.mpr differs⟩
      · rwa [Stmt.unknownAfter, Function.update_of_ne differs] at known
  | .function header (some _), _, _, _, _, _, _, _, _, _, .function _ _ _ _ _ _ worth _, ends,
      inside, grounds => by
      obtain ⟨needs, others⟩ := grounds.append
      obtain ⟨frames, grounds'⟩ := Stmt.grounds_walk_function
        (fun ends inside grounds => Stmt.AllWorth.leaves worth ends inside grounds) ends
        inside.sane inside.within inside.forward (by rwa [Stmt.needs, List.filter_nil,
          List.append_nil])
      refine ⟨⟨[], by rw [Engine.framesAfter_nil, frames], .nil⟩, fun name present known => ?_⟩
      refine grounds' name known ?_
      intro differs
      exact others name (List.mem_filter.mpr ⟨present, bne_iff_ne.mpr differs⟩)
  | .branch _ _ _, _, _, _, _, _, _, _, _, _, .branch _ body alternate, ends, inside, grounds => by
      obtain ⟨between, body', last, alternate', yields, walked, walked', rfl⟩ :=
        Stmt.ends_branch.mp ends
      obtain ⟨needs, later⟩ := grounds.append
      exact Stmt.leaves_branch yields walked walked' (Stmt.AllWorth.leaves body walked)
        (Alternate.Worth.leaves alternate walked') inside needs later
  | .loop _ _, _, _, _, _, _, _, _, _, _, .loop _ body, ends, inside, grounds => by
      obtain ⟨between, body', last, yields, walked, rfl, rfl⟩ := Stmt.ends_loop.mp ends
      have stays := stays_condition yields
      obtain ⟨needs, later⟩ := grounds.append
      exact stays.afterwards (Stmt.leaves_block walked (Stmt.AllWorth.leaves body walked)
        (inside.second stays.grows) (needs.append.2.stays stays) (later.stays stays))
  | .switch _ _, _, _, _, _, _, _, _, _, _, .switch _ arms, ends, inside, grounds => by
      obtain ⟨term, between, arms', yields, walked, rfl⟩ := Stmt.ends_switch.mp ends
      have stays := Expr.stays_infer _ yields
      obtain ⟨needs, later⟩ := grounds.append
      exact stays.afterwards (Arm.AllWorth.leaves arms walked (inside.second stays.grows)
        (needs.append.2.stays stays) (later.stays stays))
termination_by structural s => s

theorem Alternate.Worth.leaves : ∀ {alternate alternate' : Alternate} {Δ : Env Meaning}
    {returned notes : List Kind} {engine engine' : Engine} {unknown : String → Bool}
    {later : List String}, Alternate.Worth Δ alternate returned notes →
      alternate.walk.Ends engine alternate' engine' → engine.Inside final ahead engine' →
      engine.GroundsKnown final ahead unknown alternate.needs →
      engine.GroundsKnown final ahead unknown later →
      engine.Leaves final ahead engine' (alternate.openReturns unknown) unknown later
  | .none, _, _, _, _, _, _, _, _, .none, ends, _, _, later => by
      obtain ⟨rfl, rfl⟩ := Alternate.ends_none.mp ends
      exact (Engine.Stays.refl _).leaves later
  | .elseBranch _ _ _, _, _, _, _, _, _, _, _, .elseBranch _ body alternate, ends, inside,
    grounds, later => by
      obtain ⟨between, body', last, alternate', yields, walked, walked', rfl⟩ :=
        Alternate.ends_elseBranch.mp ends
      exact Stmt.leaves_branch yields walked walked' (Stmt.AllWorth.leaves body walked)
        (Alternate.Worth.leaves alternate walked') inside grounds later
  | .otherwise _, _, _, _, _, _, _, _, _, .otherwise body, ends, inside, grounds, later => by
      obtain ⟨body', last, walked, rfl, rfl⟩ := Alternate.ends_otherwise.mp ends
      exact Stmt.leaves_block walked (Stmt.AllWorth.leaves body walked) inside grounds later
termination_by structural alternate => alternate

theorem Arm.Worth.leaves : ∀ {arm arm' : Arm} {subject : Kind} {Δ : Env Meaning}
    {returned notes : List Kind} {engine engine' : Engine} {term : Option Term}
    {unknown : String → Bool} {later : List String},
    Arm.Worth subject Δ arm returned notes → (arm.walk term).Ends engine arm' engine' →
      engine.Inside final ahead engine' → engine.GroundsKnown final ahead unknown arm.needs →
      engine.GroundsKnown final ahead unknown later →
      engine.Leaves final ahead engine' (arm.openReturns unknown) unknown later
  | .value _ _, _, _, _, _, _, _, _, _, _, _, .value _ body, ends, inside, grounds, later => by
      obtain ⟨between, body', last, yields, walked, rfl, rfl⟩ := Arm.ends_value.mp ends
      have stays := stays_pattern yields
      exact stays.afterwards (Stmt.leaves_block walked (Stmt.AllWorth.leaves body walked)
        (inside.second stays.grows) (grounds.append.2.stays stays) (later.stays stays))
  | .otherwise _, _, _, _, _, _, _, _, _, _, _, .otherwise body, ends, inside, grounds, later => by
      obtain ⟨body', last, walked, rfl, rfl⟩ := Arm.ends_otherwise.mp ends
      exact Stmt.leaves_block walked (Stmt.AllWorth.leaves body walked) inside grounds later
termination_by structural arm => arm

theorem Stmt.AllWorth.leaves : ∀ {body body' : List Stmt} {Δ Δ' : Env Meaning}
    {returned notes : List Kind} {engine engine' : Engine} {unknown : String → Bool}
    {later : List String}, Stmt.AllWorth Δ body Δ' returned notes →
      (Stmt.walkAll body).Ends engine body' engine' → engine.Inside final ahead engine' →
      engine.GroundsKnown final ahead unknown (Stmt.allNeeds later body) →
      engine.Leaves final ahead engine' (Stmt.allOpenReturns body unknown)
        (Stmt.allUnknownAfter body unknown) later
  | [], _, _, _, _, _, _, _, _, _, .nil, ends, _, grounds => by
      obtain ⟨rfl, rfl⟩ := Stmt.ends_nil.mp ends
      exact (Engine.Stays.refl _).leaves grounds
  | _ :: _, _, _, _, _, _, _, _, _, _, .cons first rest, ends, inside, grounds => by
      obtain ⟨first', between, rest', walked, walked', rfl⟩ := Stmt.ends_cons.mp ends
      obtain ⟨⟨_, _, grows⟩, _, _⟩ := Stmt.passes_walk _ walked inside.sane
      obtain ⟨⟨_, _, grows'⟩, _, _⟩ := Stmt.passes_walkAll _ walked' (grows.sane inside.sane)
      have leaves := Stmt.Worth.leaves first walked
        (inside.first (grows.isRoot.trans inside.inner) grows') grounds
      exact leaves.forget.trans
        (Stmt.AllWorth.leaves rest walked' (inside.second grows) leaves.grounds)
termination_by structural body => body

theorem Arm.AllWorth.leaves : ∀ {arms arms' : List Arm} {subject : Kind} {Δ : Env Meaning}
    {returned notes : List Kind} {engine engine' : Engine} {term : Option Term}
    {unknown : String → Bool} {later : List String},
    Arm.AllWorth subject Δ arms returned notes →
      (Arm.walkAll term arms).Ends engine arms' engine' → engine.Inside final ahead engine' →
      engine.GroundsKnown final ahead unknown (Arm.allNeeds arms) →
      engine.GroundsKnown final ahead unknown later →
      engine.Leaves final ahead engine' (Arm.allOpenReturns arms unknown) unknown later
  | [], _, _, _, _, _, _, _, _, _, _, .nil, ends, _, _, later => by
      obtain ⟨rfl, rfl⟩ := Arm.ends_nil.mp ends
      exact (Engine.Stays.refl _).leaves later
  | _ :: _, _, _, _, _, _, engine, _, _, unknown, _, .cons first rest, ends, inside, grounds,
    later => by
      obtain ⟨first', between, rest', walked, walked', rfl⟩ := Arm.ends_cons.mp ends
      obtain ⟨⟨_, _, grows⟩, _, _⟩ := Arm.passes_walk _ walked inside.sane
      obtain ⟨⟨_, _, grows'⟩, _, _⟩ := Arm.passes_walkAll _ walked' (grows.sane inside.sane)
      obtain ⟨needs, others⟩ := grounds.append
      have inside' := inside.first (grows.isRoot.trans inside.inner) grows'
      have leaves : ∀ {names : List String}, engine.GroundsKnown final ahead unknown names →
          engine.Leaves final ahead between _ unknown names := fun grounds =>
        Arm.Worth.leaves first walked inside' needs grounds
      exact (leaves .nil).trans (Arm.AllWorth.leaves rest walked' (inside.second grows)
        (leaves others).grounds (leaves later).grounds)
termination_by structural arms => arms

end

end Statements

end SmallLang
