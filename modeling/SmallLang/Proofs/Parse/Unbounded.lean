import SmallLang.Parse.Program

/-!
# Parsers without a bound

The parts of the parser that recurse are given a depth. With a greater depth a part does the same,
except that it is exhausted in fewer states. The depth that the parser gives to its parts is never
used up, so that they call each other as if there were no bound.
-/

set_option autoImplicit false

namespace SmallLang.Parse

variable {α β : Type}

/-! ### Runs -/

section Runs

variable {first : Parse α} {next next' : α → Parse β} {state after : State} {value : α}

theorem bind_of_ok (result : first state = .ok value after) :
    (first >>= next) state = next value after := by
  change EStateM.bind first next state = next value after
  simp only [EStateM.bind, result]

theorem bind_of_error {halt : Halt} (result : first state = .error halt after) :
    (first >>= next) state = .error halt after := by
  change EStateM.bind first next state = .error halt after
  simp only [EStateM.bind, result]

theorem exists_of_bind {last : State} {value : β}
    (result : (first >>= next) state = .ok value last) :
    ∃ middle between, first state = .ok middle between ∧ next middle between = .ok value last := by
  cases begins : first state with
  | ok middle between => exact ⟨middle, between, rfl, by rwa [bind_of_ok begins] at result⟩
  | error halt between =>
      rw [bind_of_error begins] at result
      cases result

/-- Two continuations may differ where the first parser never ends. -/
theorem bind_congr_of_ok (state : State)
    (same : ∀ value after, first state = .ok value after → next value after = next' value after) :
    (first >>= next) state = (first >>= next') state := by
  cases result : first state with
  | ok value after => rw [bind_of_ok result, bind_of_ok result, same value after result]
  | error halt after => rw [bind_of_error result, bind_of_error result]

/-- A parser that does in a state what another one does in a later one goes on from there. -/
theorem bind_from_later {other : Parse α} {later : State} (same : first state = other later) :
    (first >>= next) state = (other >>= next) later := by
  cases result : other later with
  | ok value after => rw [bind_of_ok result, bind_of_ok (same.trans result)]
  | error halt after => rw [bind_of_error result, bind_of_error (same.trans result)]

theorem Ends.length_lt {parser : Parse α} {bound : Nat} (ends : Ends parser state bound)
    (result : parser state = .ok value after) : after.rest.length < bound := by
  unfold Ends at ends
  rw [result] at ends
  exact ends.2.2

end Runs

/-! ### Approximation -/

/-- In every state that does not exhaust it, the bounded parser does what the other one does. -/
def Approximates (bounded parser : Parse α) : Prop :=
  ∀ state, (∀ after, bounded state ≠ .error .exhausted after) → parser state = bounded state

namespace Approximates

theorem refl (parser : Parse α) : Approximates parser parser := fun _ _ => rfl

theorem trans {first second third : Parse α} (low : Approximates first second)
    (high : Approximates second third) : Approximates first third := by
  intro state enough
  have same := low state enough
  rw [← same]
  exact high state (by rwa [same])

theorem exhausted (parser : Parse α) : Approximates Parse.exhausted parser :=
  fun state enough => absurd rfl (enough state)

theorem bind {first first' : Parse α} {next next' : α → Parse β}
    (begins : Approximates first first')
    (goesOn : ∀ value, Approximates (next value) (next' value)) :
    Approximates (first >>= next) (first' >>= next') := by
  intro state enough
  cases result : first state with
  | ok value after =>
      have same : first' state = .ok value after := by
        rw [begins state (by simp [result]), result]
      rw [bind_of_ok result] at enough ⊢
      rw [bind_of_ok same]
      exact goesOn value after enough
  | error halt after =>
      rw [bind_of_error result] at enough ⊢
      have ownReason : halt ≠ .exhausted := fun same => enough after (by rw [same])
      have same : first' state = .error halt after := by
        rw [begins state (by simp [result, ownReason]), result]
      exact bind_of_error same

theorem after {first : Parse α} {next next' : α → Parse β}
    (goesOn : ∀ value, Approximates (next value) (next' value)) :
    Approximates (first >>= next) (first >>= next') :=
  .bind (.refl first) goesOn

theorem ite {condition : Prop} [Decidable condition] {yes yes' no no' : Parse α}
    (first : Approximates yes yes') (second : Approximates no no') :
    Approximates (if condition then yes else no) (if condition then yes' else no') := by
  split
  · exact first
  · exact second

theorem listItems {item item' : Parse α} (items : Approximates item item') (depth : Nat) :
    Approximates (Parse.listItems item depth) (Parse.listItems item' depth) := by
  induction depth with
  | zero => exact .refl _
  | succ depth ih =>
      refine .after fun _ => .after fun _ => .ite (.refl _) ?_
      exact .bind items fun _ => .after fun _ => .after fun _ => .bind ih fun _ => .refl _

theorem list {item item' : Parse α} (items : Approximates item item') :
    Approximates (Parse.list item) (Parse.list item') :=
  .after fun _ => .bind (items.listItems _) fun _ => .refl _

theorem blockItems {skip : Parse Unit} {item item' : Parse α} (items : Approximates item item')
    (depth : Nat) :
    Approximates (Parse.blockItems skip item depth) (Parse.blockItems skip item' depth) := by
  induction depth with
  | zero => exact .refl _
  | succ depth ih =>
      refine .after fun _ => .after fun _ => .ite (.refl _) (.after fun _ => .ite (.refl _) ?_)
      exact .bind items fun _ => .bind ih fun _ => .refl _

theorem block {skip : Parse Unit} {item item' : Parse α} (items : Approximates item item') :
    Approximates (Parse.block skip item) (Parse.block skip item') :=
  .after fun _ => .after fun _ => items.blockItems _

/-- Parsers of growing depth, each of which approximates the next one, approximate all later
ones. -/
theorem of_le {family : Nat → Parse α}
    (step : ∀ depth, Approximates (family depth) (family (depth + 1)))
    {low high : Nat} (le : low ≤ high) : Approximates (family low) (family high) := by
  induction le with
  | refl => exact .refl _
  | step _ ih => exact ih.trans (step _)

end Approximates

/-! ### Enough depth -/

/-- A parser that is given a depth which the state decides. -/
def deepEnough (bound : State → Nat) (family : Nat → Parse α) : Parse α :=
  fun state => family (bound state) state

section DeepEnough

variable {bound : State → Nat} {family : Nat → Parse α}

/-- The bound is enough if no state exhausts the parser. -/
def NeverExhausted (bound : State → Nat) (family : Nat → Parse α) : Prop :=
  ∀ state after, family (bound state) state ≠ .error .exhausted after

/-- What is approximated at every depth is what is done with enough depth. -/
theorem NeverExhausted.eq_of_approximates {parser : Parse α} (enough : NeverExhausted bound family)
    (approximates : ∀ depth, Approximates (family depth) parser) :
    deepEnough bound family = parser :=
  funext fun state => (approximates (bound state) state (enough state)).symm

/-- At every depth, what is done with enough depth is approximated. -/
theorem NeverExhausted.approximates (enough : NeverExhausted bound family)
    (step : ∀ depth, Approximates (family depth) (family (depth + 1))) (depth : Nat) :
    Approximates (family depth) (deepEnough bound family) := by
  intro state notExhausted
  -- both depths do what the greater one of them does
  have this := Approximates.of_le step (Nat.le_max_left depth (bound state)) state notExhausted
  have other := Approximates.of_le step (Nat.le_max_right depth (bound state)) state (enough state)
  exact other.symm.trans this

end DeepEnough

/-! ### Expressions -/

/-- An operand, by a parser for the expressions inside it. -/
def operandUsing (expression : Power → Parse Expr) : Parse Expr := do
  let token ← current
  if token.kind == .number && !Number.isValid token.value then
    fail ⟨.malformedNumber token.value, token.position⟩
  else if let some atom := atom? token then
    consume
    return atom
  else if token.isDelimiter "(" then
    consume
    skipTrivia
    let inner ← expression .lowest
    skipTrivia
    let _ ← expect .delimiter ")"
    return inner
  else if let some operator := prefixOperator? token then
    consume
    return .prefixed operator (← expression .unary)
  else expected "expression"

/-- The operators that follow an expression, by parsers for the expressions inside them and for the
operators after the first one. -/
def operatorsUsing (expression : Power → Parse Expr) (operators : Expr → Parse Expr) (power : Power)
    (left : Expr) : Parse Expr := do
  let token ← current
  if let some operator := postfixOperator? token then
    consume
    operators (.postfixed operator left)
  else if token.isOperator "." then
    consume
    let property ← identifier "property name after `.`"
    operators (.member left property)
  else if token.isDelimiter "(" then
    consume
    let arguments ← list (expression .lowest)
    operators (.call left arguments)
  else if let some operator := operatorAbove? power token then
    consume
    skipTrivia
    let right ← expression operator.power
    operators (.binary operator left right)
  else return left

section Using

variable {expression expression' : Power → Parse Expr}
  (expressions : ∀ power, Approximates (expression power) (expression' power))

include expressions

theorem approximates_operandUsing :
    Approximates (operandUsing expression) (operandUsing expression') := by
  refine .after fun token => .ite (.refl _) ?_
  cases atom? token with
  | some atom => exact .refl _
  | none =>
      refine .ite (.after fun _ => .after fun _ => .bind (expressions _) fun _ => .refl _) ?_
      cases prefixOperator? token with
      | some operator => exact .after fun _ => .bind (expressions _) fun _ => .refl _
      | none => exact .refl _

theorem approximates_operatorsUsing {operators operators' : Expr → Parse Expr} (power : Power)
    (others : ∀ left, Approximates (operators left) (operators' left)) (left : Expr) :
    Approximates (operatorsUsing expression operators power left)
      (operatorsUsing expression' operators' power left) := by
  refine .after ?_
  intro token
  cases postfixOperator? token with
  | some operator => exact .after fun _ => others _
  | none =>
      refine .ite (.after fun _ => .after fun _ => others _) ?_
      refine .ite (.after fun _ => .bind (expressions _).list fun _ => others _) ?_
      cases operatorAbove? power token with
      | some operator =>
          exact .after fun _ => .after fun _ => .bind (expressions _) fun _ => others _
      | none => exact .refl _

end Using

theorem approximates_expressionWithin_succ (depth : Nat) :
    (∀ power, Approximates (expressionWithin depth power) (expressionWithin (depth + 1) power)) ∧
      Approximates (operandWithin depth) (operandWithin (depth + 1)) ∧
      ∀ power left, Approximates (operatorsWithin depth power left)
        (operatorsWithin (depth + 1) power left) := by
  induction depth with
  | zero => exact ⟨fun _ => .exhausted _, .exhausted _, fun _ _ => .exhausted _⟩
  | succ depth ih =>
      obtain ⟨expressions, operands, others⟩ := ih
      refine ⟨fun power => ?_, approximates_operandUsing expressions, fun power left => ?_⟩
      · exact .bind operands fun left => others power left
      · exact approximates_operatorsUsing expressions power (others power) left

/-- An operand. -/
def operand : Parse Expr := deepEnough (fun state => 2 * state.rest.length + 1) operandWithin

/-- The operators that follow what was read so far. -/
def operators (power : Power) (left : Expr) : Parse Expr :=
  deepEnough (fun state => 2 * state.rest.length + 1) (operatorsWithin · power left)

theorem neverExhausted_expressionWithin (power : Power) :
    NeverExhausted (fun state => 2 * state.rest.length + 2) (expressionWithin · power) :=
  fun state _ => (ends_expressionWithin _ power state (Nat.le_refl _)).ne_exhausted

theorem neverExhausted_operandWithin :
    NeverExhausted (fun state => 2 * state.rest.length + 1) operandWithin :=
  fun state _ => (ends_operandWithin _ state (Nat.le_refl _)).ne_exhausted

theorem neverExhausted_operatorsWithin (power : Power) (left : Expr) :
    NeverExhausted (fun state => 2 * state.rest.length + 1) (operatorsWithin · power left) :=
  fun state _ => (ends_operatorsWithin _ power left state (Nat.le_refl _)).ne_exhausted

theorem approximates_expression (depth : Nat) (power : Power) :
    Approximates (expressionWithin depth power) (expression power) :=
  (neverExhausted_expressionWithin power).approximates
    (fun depth => (approximates_expressionWithin_succ depth).1 power) depth

theorem approximates_operand (depth : Nat) : Approximates (operandWithin depth) operand :=
  neverExhausted_operandWithin.approximates
    (fun depth => (approximates_expressionWithin_succ depth).2.1) depth

theorem approximates_operators (depth : Nat) (power : Power) (left : Expr) :
    Approximates (operatorsWithin depth power left) (operators power left) :=
  (neverExhausted_operatorsWithin power left).approximates
    (fun depth => (approximates_expressionWithin_succ depth).2.2 power left) depth

/-- An expression is an operand and the operators that follow it. -/
theorem expression_eq (power : Power) : expression power = operand >>= operators power := by
  refine (neverExhausted_expressionWithin power).eq_of_approximates ?_
  intro depth
  cases depth with
  | zero => exact .exhausted _
  | succ depth =>
      exact .bind (approximates_operand depth) fun left => approximates_operators depth power left

theorem operand_eq : operand = operandUsing expression := by
  refine neverExhausted_operandWithin.eq_of_approximates ?_
  intro depth
  cases depth with
  | zero => exact .exhausted _
  | succ depth => exact approximates_operandUsing (approximates_expression depth)

theorem operators_eq (power : Power) (left : Expr) :
    operators power left = operatorsUsing expression (operators power) power left := by
  refine (neverExhausted_operatorsWithin power left).eq_of_approximates ?_
  intro depth
  cases depth with
  | zero => exact .exhausted _
  | succ depth =>
      exact approximates_operatorsUsing (approximates_expression depth) power
        (approximates_operators depth power) left

end SmallLang.Parse
