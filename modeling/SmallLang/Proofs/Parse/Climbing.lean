import SmallLang.Proofs.Parse.Grammar

/-!
# Climbing precedences

The parser has one loop for the operators of all levels, which stops at the first operator that does
not bind tight enough. What the loop reads at a level, it would have read up to the next tighter
level and then gone on from there. So the loop falls apart into the loops of the grammar, one for
each level.
-/

set_option autoImplicit false

namespace SmallLang.Parse

/-! ### What follows an expression -/

theorem operatorAbove?_eq_some_iff {power : Power} {token : Token} {operator : BinaryOperator} :
    operatorAbove? power token = some operator ↔
      token.kind = .operator ∧ BinaryOperator.ofSymbol? token.value = some operator ∧
        power.rank < operator.power.rank := by
  unfold operatorAbove?
  cases token.kind <;> simp [Option.filter_eq_some_iff]

theorem postfixOperator?_eq_none {token : Token} (notOne : token.isOperator "++" = false)
    (notOther : token.isOperator "--" = false) : postfixOperator? token = none := by
  simp [postfixOperator?, notOne, notOther]

theorem isOperator_of_symbol {token : Token} {symbol other : String}
    (found : token.isOperator symbol = true) (differ : symbol ≠ other) :
    token.isOperator other = false := by
  simp only [Token.isOperator, Token.is, Bool.and_eq_true, beq_iff_eq] at found
  simp [Token.isOperator, Token.is, found, differ]

theorem isOperator_of_isDelimiter {token : Token} {symbol other : String}
    (found : token.isDelimiter symbol = true) : token.isOperator other = false := by
  simp only [Token.isDelimiter, Token.is, Bool.and_eq_true, beq_iff_eq] at found
  simp [Token.isOperator, Token.is, found]

theorem isDelimiter_of_isOperator {token : Token} {symbol other : String}
    (found : token.isOperator symbol = true) : token.isDelimiter other = false := by
  simp only [Token.isOperator, Token.is, Bool.and_eq_true, beq_iff_eq] at found
  simp [Token.isDelimiter, Token.is, found]

/-- A binary operator is written as itself. -/
theorem isOperator_of_operatorAbove? {power : Power} {token : Token} {operator : BinaryOperator}
    (found : operatorAbove? power token = some operator) :
    token.isOperator operator.symbol = true := by
  obtain ⟨isOperator, named, -⟩ := operatorAbove?_eq_some_iff.mp found
  have same := List.find?_some named
  simp only [beq_iff_eq] at same
  simp [Token.isOperator, Token.is, isOperator, same]

/-- The next token does not continue an expression whose operators bind tighter than `power`. -/
structure State.Closes (power : Power) (state : State) : Prop where
  noPostfix : postfixOperator? state.current = none
  noMember : state.current.isOperator "." = false
  noCall : state.current.isDelimiter "(" = false
  noOperator : operatorAbove? power state.current = none

theorem State.Closes.mono {power tighter : Power} {state : State} (closes : state.Closes power)
    (le : power.rank ≤ tighter.rank) : state.Closes tighter := by
  refine ⟨closes.noPostfix, closes.noMember, closes.noCall, ?_⟩
  refine Option.eq_none_iff_forall_ne_some.mpr ?_
  intro operator found
  obtain ⟨isOperator, named, above⟩ := operatorAbove?_eq_some_iff.mp found
  have found' := operatorAbove?_eq_some_iff.mpr ⟨isOperator, named, Nat.lt_of_le_of_lt le above⟩
  exact Option.some_ne_none _ (found'.symm.trans closes.noOperator)

section Steps

variable {α : Type} {power : Power} {left : Expr} {state : State}

theorem current_bind (next : Token → Parse α) (state : State) :
    (current >>= next) state = next state.current state := rfl

theorem get_bind (next : State → Parse α) (state : State) :
    ((get : Parse State) >>= next) state = next state state := rfl

theorem consume_bind (next : Unit → Parse α) (state : State) :
    (consume >>= next) state = next () state.advance := rfl

theorem skipTrivia_bind (next : Unit → Parse α) (state : State) :
    (skipTrivia >>= next) state = next () state.skipTrivia := rfl

theorem operators_postfixed {operator : PostfixOperator}
    (found : postfixOperator? state.current = some operator) :
    operators power left state = operators power (.postfixed operator left) state.advance := by
  rw [operators_eq, operatorsUsing, current_bind]
  simp only [found, consume_bind]

theorem operators_member (found : state.current.isOperator "." = true) :
    operators power left state =
      (identifier "property name after `.`" >>= fun property =>
        operators power (.member left property)) state.advance := by
  have noPostfix := postfixOperator?_eq_none (isOperator_of_symbol found (by decide))
    (isOperator_of_symbol found (by decide))
  rw [operators_eq, operatorsUsing, current_bind]
  simp only [noPostfix, found, if_true, consume_bind]

theorem operators_call (found : state.current.isDelimiter "(" = true) :
    operators power left state =
      (list (expression .lowest) >>= fun arguments =>
        operators power (.call left arguments)) state.advance := by
  have noPostfix := postfixOperator?_eq_none (isOperator_of_isDelimiter found)
    (isOperator_of_isDelimiter found)
  have noMember : state.current.isOperator "." = false := isOperator_of_isDelimiter found
  rw [operators_eq, operatorsUsing, current_bind]
  simp only [noPostfix, noMember, found, if_true]
  rfl

theorem operators_binary {operator : BinaryOperator}
    (found : operatorAbove? power state.current = some operator) :
    operators power left state =
      (expression operator.power >>= fun right =>
        operators power (.binary operator left right)) state.advance.skipTrivia := by
  have written := isOperator_of_operatorAbove? found
  have noPostfix := postfixOperator?_eq_none
    (isOperator_of_symbol written (by cases operator <;> decide))
    (isOperator_of_symbol written (by cases operator <;> decide))
  have noMember : state.current.isOperator "." = false :=
    isOperator_of_symbol written (by cases operator <;> decide)
  have noCall : state.current.isDelimiter "(" = false := isDelimiter_of_isOperator written
  rw [operators_eq, operatorsUsing, current_bind]
  simp only [noPostfix, noMember, noCall, found]
  rfl

theorem operators_of_closes (closes : state.Closes power) :
    operators power left state = .ok left state := by
  rw [operators_eq, operatorsUsing, current_bind]
  simp only [closes.noPostfix, closes.noMember, closes.noCall, closes.noOperator]
  rfl

end Steps

theorem State.length_skipTrivia_lt (state : State) :
    state.skipTrivia.rest.length < state.rest.length + 1 :=
  Nat.lt_succ_of_le (List.dropWhile_suffix State.isTrivia).length_le

/-- Induction along the operators that follow an expression: each of them leaves fewer tokens. -/
theorem operators_induction (power : Power) {motive : Expr → State → Prop}
    (closes : ∀ left state, state.Closes power → motive left state)
    (postfixed : ∀ left state operator, postfixOperator? state.current = some operator →
      motive (.postfixed operator left) state.advance → motive left state)
    (member : ∀ left state, state.current.isOperator "." = true →
      (∀ property after, identifier "property name after `.`" state.advance = .ok property after →
        motive (.member left property) after) → motive left state)
    (call : ∀ left state, state.current.isDelimiter "(" = true →
      (∀ arguments after, list (expression .lowest) state.advance = .ok arguments after →
        motive (.call left arguments) after) → motive left state)
    (binary : ∀ left state operator, operatorAbove? power state.current = some operator →
      (∀ right after, expression operator.power state.advance.skipTrivia = .ok right after →
        motive (.binary operator left right) after) → motive left state)
    (left : Expr) (state : State) : motive left state := by
  induction fewer : state.rest.length using Nat.strongRecOn generalizing left state with
  | _ length ih =>
      subst fewer
      cases noPostfix : postfixOperator? state.current with
      | some operator =>
          have passed := State.length_advance_lt _ (kind_of_postfixOperator? noPostfix)
          exact postfixed left state operator noPostfix (ih _ passed _ _ rfl)
      | none =>
          by_cases noMember : state.current.isOperator "." = true
          · have passed := State.length_advance_lt state (by
              rw [Token.kind_of_is noMember]
              decide)
            refine member left state noMember fun property after result => ih _ ?_ _ _ rfl
            exact Nat.lt_trans (ends_identifier.length_lt result) passed
          · by_cases noCall : state.current.isDelimiter "(" = true
            · have passed := State.length_advance_lt state (by
                rw [Token.kind_of_is noCall]
                decide)
              refine call left state noCall fun arguments after result => ih _ ?_ _ _ rfl
              have shorter := (ends_list fun _ _ => ends_expression _ _).length_lt result
              exact Nat.lt_trans shorter passed
            · cases noOperator : operatorAbove? power state.current with
              | some operator =>
                  have passed := State.length_advance_lt _ (kind_of_operatorAbove? noOperator)
                  have skipped := State.length_skipTrivia_lt state.advance
                  refine binary left state operator noOperator fun right after result =>
                    ih _ ?_ _ _ rfl
                  have shorter := (ends_expression _ _).length_lt result
                  omega
              | none =>
                  exact closes left state ⟨noPostfix, by simpa using noMember,
                    by simpa using noCall, noOperator⟩

/-- Where the operators end, nothing continues them. -/
theorem closes_of_operators {power : Power} {left value : Expr} {state after : State}
    (result : operators power left state = .ok value after) : after.Closes power := by
  induction left, state using operators_induction power with
  | closes left state closes =>
      rw [operators_of_closes closes] at result
      cases result
      exact closes
  | postfixed left state operator found ih =>
      rw [operators_postfixed found] at result
      exact ih result
  | member left state found ih =>
      rw [operators_member found] at result
      obtain ⟨property, between, named, result⟩ := exists_of_bind result
      exact ih property between named result
  | call left state found ih =>
      rw [operators_call found] at result
      obtain ⟨arguments, between, listed, result⟩ := exists_of_bind result
      exact ih arguments between listed result
  | binary left state operator found ih =>
      rw [operators_binary found] at result
      obtain ⟨right, between, read, result⟩ := exists_of_bind result
      exact ih right between read result

theorem closes_of_expression {power : Power} {value : Expr} {state after : State}
    (result : expression power state = .ok value after) : after.Closes power := by
  rw [expression_eq] at result
  obtain ⟨left, between, -, result⟩ := exists_of_bind result
  exact closes_of_operators result

/-! ### The loop falls apart -/

/-- The operators above a level are those above a tighter one, and then all that follow. -/
theorem operators_split {power tighter : Power} (le : power.rank ≤ tighter.rank) (left : Expr) :
    operators power left = operators tighter left >>= operators power := by
  funext state
  induction left, state using operators_induction tighter with
  | closes left state closes => rw [bind_of_ok (operators_of_closes closes)]
  | postfixed left state operator found ih =>
      rw [bind_from_later (operators_postfixed found), operators_postfixed found]
      exact ih
  | member left state found ih =>
      rw [bind_from_later (operators_member found), operators_member found, bind_assoc]
      exact bind_congr_of_ok _ ih
  | call left state found ih =>
      rw [bind_from_later (operators_call found), operators_call found, bind_assoc]
      exact bind_congr_of_ok _ ih
  | binary left state operator found ih =>
      obtain ⟨isOperator, named, above⟩ := operatorAbove?_eq_some_iff.mp found
      have found' : operatorAbove? power state.current = some operator :=
        operatorAbove?_eq_some_iff.mpr ⟨isOperator, named, Nat.lt_of_le_of_lt le above⟩
      rw [bind_from_later (operators_binary found), operators_binary found', bind_assoc]
      exact bind_congr_of_ok _ ih

theorem expression_split (power tighter : Power) (le : power.rank ≤ tighter.rank) :
    expression power = expression tighter >>= operators power := by
  rw [expression_eq, expression_eq, bind_assoc]
  exact congrArg _ (funext fun left => operators_split le left)

theorem Power.eq_of_rank : ∀ {power other : Power}, power.rank = other.rank → power = other := by
  intro power other same
  cases power <;> cases other <;> first | rfl | cases same

/-- The operators that some list has are exactly those of a level. -/
def Grammar.Fills (operators : List BinaryOperator) (power : Power) : Prop :=
  ∀ operator, operator ∈ operators ↔ operator.power = power

/-- No two operators are written alike. -/
theorem find?_symbol_eq_some_iff {operators : List BinaryOperator} {symbol : String}
    {operator : BinaryOperator} :
    operators.find? (fun operator => operator.symbol == symbol) = some operator ↔
      operator ∈ operators ∧ operator.symbol = symbol := by
  have written : ∀ {other : BinaryOperator},
      operators.find? (fun operator => operator.symbol == symbol) = some other →
        other.symbol = symbol := fun found => by simpa using List.find?_some found
  constructor
  · intro found
    exact ⟨List.mem_of_find?_eq_some found, written found⟩
  · rintro ⟨present, same⟩
    obtain ⟨other, found⟩ : ∃ other,
        operators.find? (fun operator => operator.symbol == symbol) = some other := by
      rw [← Option.isSome_iff_exists, List.find?_isSome]
      exact ⟨operator, present, by simpa using same⟩
    have named := congrArg BinaryOperator.ofSymbol? ((written found).trans same.symm)
    rw [BinaryOperator.ofSymbol?_symbol, BinaryOperator.ofSymbol?_symbol] at named
    rw [found, named]

theorem oneOf?_eq_some_iff {operators : List BinaryOperator} {power : Power} {token : Token}
    {operator : BinaryOperator} (fills : Grammar.Fills operators power) :
    Grammar.oneOf? operators token = some operator ↔
      token.kind = .operator ∧ BinaryOperator.ofSymbol? token.value = some operator ∧
        operator.power = power := by
  rw [BinaryOperator.ofSymbol?, find?_symbol_eq_some_iff, ← fills operator]
  unfold Grammar.oneOf?
  split
  · next isOperator =>
      rw [find?_symbol_eq_some_iff]
      simp [isOperator, BinaryOperator.mem_all, and_comm]
  · next notOperator => simp [notOperator]

/-- What binds tighter than a level, but no tighter than the next one, is of the next one. -/
theorem oneOf?_eq_operatorAbove? {power tighter : Power} {operators : List BinaryOperator}
    {token : Token} (fills : Grammar.Fills operators tighter)
    (next : tighter.rank = power.rank + 1) (noOperator : operatorAbove? tighter token = none) :
    Grammar.oneOf? operators token = operatorAbove? power token := by
  refine Option.ext ?_
  intro operator
  rw [oneOf?_eq_some_iff fills, operatorAbove?_eq_some_iff]
  constructor
  · intro found
    exact ⟨found.1, found.2.1, by rw [found.2.2]; omega⟩
  · intro found
    refine ⟨found.1, found.2.1, Power.eq_of_rank ?_⟩
    have notAbove : ¬ tighter.rank < operator.power.rank := fun above => by
      rw [operatorAbove?_eq_some_iff.mpr ⟨found.1, found.2.1, above⟩] at noOperator
      cases noOperator
    omega

/-- Where nothing binds tighter than a level, the operators above the next looser level are those of
this level. -/
theorem operators_eq_foldsWithin {power tighter : Power} {level : List BinaryOperator}
    (fills : Grammar.Fills level tighter) (next : tighter.rank = power.rank + 1)
    {depth : Nat} {left : Expr} {state : State} (closes : state.Closes tighter)
    (enough : state.rest.length < depth) :
    operators power left state =
      Grammar.foldsWithin level (expression tighter) depth left state := by
  induction depth generalizing left state with
  | zero => omega
  | succ depth ih =>
      rw [Grammar.foldsWithin, current_bind,
        oneOf?_eq_operatorAbove? fills next closes.noOperator]
      cases found : operatorAbove? power state.current with
      | none =>
          exact operators_of_closes ⟨closes.noPostfix, closes.noMember, closes.noCall, found⟩
      | some operator =>
          have passed := State.length_advance_lt _ (kind_of_operatorAbove? found)
          have skipped := State.length_skipTrivia_lt state.advance
          have same : operator.power = tighter := by
            rw [← oneOf?_eq_operatorAbove? fills next closes.noOperator] at found
            exact ((oneOf?_eq_some_iff fills).mp found).2.2
          rw [operators_binary found, same]
          refine bind_congr_of_ok _ fun right after result => ih (closes_of_expression result) ?_
          have shorter := (ends_expression _ _).length_lt result
          omega

/-- An expression above a level is a level of the grammar, made of those above the next one. -/
theorem expression_eq_level (power tighter : Power) {operators : List BinaryOperator}
    (fills : Grammar.Fills operators tighter) (next : tighter.rank = power.rank + 1) :
    expression power = Grammar.level operators (expression tighter) := by
  rw [expression_split power tighter
    (Nat.le_of_lt (Nat.lt_of_lt_of_eq (Nat.lt_succ_self _) next.symm))]
  refine funext fun state => bind_congr_of_ok _ ?_
  intro left after result
  exact operators_eq_foldsWithin fills next (closes_of_expression result) (Nat.lt_succ_self _)

/-- No binary operator binds tighter than the multiplicative ones. -/
theorem operatorAbove?_eq_none {power : Power} (tight : Power.multiplicative.rank ≤ power.rank)
    (token : Token) : operatorAbove? power token = none := by
  refine Option.eq_none_iff_forall_ne_some.mpr ?_
  intro operator found
  have above := Nat.lt_of_le_of_lt tight (operatorAbove?_eq_some_iff.mp found).2.2
  cases operator <;> simp [BinaryOperator.power, Power.rank] at above

theorem expression_multiplicative : expression .multiplicative = expression .unary := by
  rw [expression_split .multiplicative .unary (by decide)]
  refine funext fun state => Eq.trans (bind_congr_of_ok state ?_) (congrFun (bind_pure _) state)
  intro left after result
  have closes := closes_of_expression result
  exact operators_of_closes ⟨closes.noPostfix, closes.noMember, closes.noCall,
    operatorAbove?_eq_none (by decide) _⟩

namespace Grammar

/-! The operators that each level of the grammar names are those that bind at the level. -/

theorem fills_multiplicative : Fills [.multiply, .divide] .multiplicative := by
  intro operator
  cases operator <;> decide

theorem fills_additive : Fills [.add, .subtract] .additive := by
  intro operator
  cases operator <;> decide

theorem fills_relational : Fills [.less, .greater, .lessEquals, .greaterEquals] .relational := by
  intro operator
  cases operator <;> decide

theorem fills_equality : Fills [.equals, .notEquals] .equality := by
  intro operator
  cases operator <;> decide

theorem fills_logical : Fills [.and, .or] .logical := by
  intro operator
  cases operator <;> decide

end Grammar

/-- Expressions are parsed by the levels of the grammar, on top of the unary expressions. -/
theorem expression_eq_above (power : Power) :
    expression power = Grammar.above (expression .unary) power := by
  have additive : expression .additive = Grammar.multiplicative (expression .unary) := by
    rw [expression_eq_level .additive .multiplicative Grammar.fills_multiplicative rfl,
      expression_multiplicative]
    rfl
  have relational : expression .relational = Grammar.additive (expression .unary) := by
    rw [expression_eq_level .relational .additive Grammar.fills_additive rfl, additive]
    rfl
  have equality : expression .equality = Grammar.relational (expression .unary) := by
    rw [expression_eq_level .equality .relational Grammar.fills_relational rfl, relational]
    rfl
  have logical : expression .logical = Grammar.equality (expression .unary) := by
    rw [expression_eq_level .logical .equality Grammar.fills_equality rfl, equality]
    rfl
  have lowest : expression .lowest = Grammar.logical (expression .unary) := by
    rw [expression_eq_level .lowest .logical Grammar.fills_logical rfl, logical]
    rfl
  cases power with
  | lowest => exact lowest
  | logical => exact logical
  | equality => exact equality
  | relational => exact relational
  | additive => exact additive
  | multiplicative => exact expression_multiplicative
  | unary => rfl

/-! ### The unary level -/

/-- No binary operator binds tighter than the unary level, so that only suffixes are left. -/
theorem operators_unary_eq_suffixesWithin {depth : Nat} {left : Expr} {state : State}
    (enough : state.rest.length < depth) :
    operators .unary left state =
      Grammar.suffixesWithin (expression .unary) depth left state := by
  have lowest : expression .lowest = Grammar.logical (expression .unary) :=
    expression_eq_above .lowest
  induction depth generalizing left state with
  | zero => omega
  | succ depth ih =>
      rw [Grammar.suffixesWithin, current_bind, operators_eq, operatorsUsing, current_bind, lowest]
      cases found : postfixOperator? state.current with
      | some operator =>
          have passed := State.length_advance_lt _ (kind_of_postfixOperator? found)
          exact ih (by omega)
      | none =>
          dsimp only
          split
          · next found =>
              have passed := State.length_advance_lt state (by
                rw [Token.kind_of_is found]
                decide)
              refine bind_congr_of_ok state.advance fun property after result => ih ?_
              have shorter := ends_identifier.length_lt result
              omega
          · split
            · next found =>
                have passed := State.length_advance_lt state (by
                  rw [Token.kind_of_is found]
                  decide)
                refine bind_congr_of_ok state.advance fun arguments after result => ih ?_
                rw [← lowest] at result
                have shorter := (ends_list fun _ _ => ends_expression _ _).length_lt result
                omega
            · rw [operatorAbove?_eq_none (by decide)]

theorem operand_eq_primary {state : State} (noPrefix : prefixOperator? state.current = none) :
    operand state = Grammar.primary (expression .unary) state := by
  have lowest : expression .lowest = Grammar.logical (expression .unary) :=
    expression_eq_above .lowest
  rw [operand_eq, operandUsing, Grammar.primary, current_bind, current_bind, lowest]
  split
  · rfl
  · cases atom? state.current with
    | some atom => rfl
    | none =>
        dsimp only
        split
        · rfl
        · rw [noPrefix]

theorem operand_prefixed {operator : PrefixOperator} {state : State}
    (found : prefixOperator? state.current = some operator) :
    operand state =
      (expression .unary >>= fun inner => pure (.prefixed operator inner)) state.advance := by
  have written : state.current.isOperator operator.symbol = true := by
    unfold prefixOperator? at found
    split at found
    · next negates =>
        cases found
        exact negates
    · split at found
      · next inverts =>
          cases found
          exact inverts
      · cases found
  have isOperator := Token.kind_of_is written
  have noCall : state.current.isDelimiter "(" = false := isDelimiter_of_isOperator written
  have noAtom : atom? state.current = none := by simp [atom?, isOperator]
  rw [operand_eq, operandUsing, current_bind]
  simp only [noAtom, noCall, found, isOperator]
  rfl

/-- Unary expressions are those of the grammar, with the same unary expressions inside them. -/
theorem expression_unary : expression .unary = Grammar.unaryUsing (expression .unary) := by
  refine funext fun state => Eq.trans (congrFun (expression_eq .unary) state) ?_
  rw [Grammar.unaryUsing, current_bind]
  cases found : prefixOperator? state.current with
  | some operator =>
      rw [bind_from_later (operand_prefixed found), bind_assoc]
      refine bind_congr_of_ok state.advance ?_
      intro inner after result
      -- nothing is left to apply to the whole: the operand has taken it
      exact operators_of_closes (closes_of_expression result)
  | none =>
      rw [bind_from_later (operand_eq_primary found)]
      refine bind_congr_of_ok _ ?_
      intro left after _
      exact operators_unary_eq_suffixesWithin (Nat.lt_succ_self _)

/-! ### The grammar without a bound -/

namespace Grammar

/-- From each state with fewer than `bound` tokens left, the parser ends by itself. -/
def EndsBelow (bound : Nat) (parser : Parse Expr) : Prop :=
  ∀ state : State, state.rest.length < bound → Ends parser state state.rest.length

theorem kind_of_oneOf? {operators : List BinaryOperator} {token : Token}
    {operator : BinaryOperator} (found : oneOf? operators token = some operator) :
    token.kind = .operator := by
  unfold oneOf? at found
  split at found
  · assumption
  · cases found

section Ends

variable {operators : List BinaryOperator} {bound : Nat} {operand unary : Parse Expr}

theorem EndsBelow.foldsWithin (operands : EndsBelow bound operand) (depth : Nat) (left : Expr)
    (state : State) (few : state.rest.length < bound) (enough : state.rest.length < depth) :
    Ends (foldsWithin operators operand depth left) state (state.rest.length + 1) := by
  induction depth generalizing left state with
  | zero => omega
  | succ depth ih =>
      refine .current_bind ?_
      split
      · next operator found =>
          have isOperator := kind_of_oneOf? found
          have passed := State.length_advance_lt state (by
            rw [isOperator]
            decide)
          refine .consume_bind (.bind .skipTrivia fun _ skipped skipped_lt => ?_)
          refine .bind (operands skipped (by omega)) ?_
          intro _ read read_lt
          exact (ih _ read (by omega) (by omega)).mono (by omega)
      · exact .pure (Nat.lt_succ_self _)

theorem EndsBelow.level (operands : EndsBelow bound operand) :
    EndsBelow bound (level operators operand) := by
  intro state few
  refine .bind (operands state few) fun _ read read_lt => .get_bind ?_
  exact (operands.foldsWithin _ _ read (by omega) (Nat.lt_succ_self _)).mono (by omega)

variable (units : EndsBelow bound unary)

include units

theorem EndsBelow.logical : EndsBelow bound (logical unary) :=
  units.level.level.level.level.level

theorem EndsBelow.primary : EndsBelow (bound + 1) (primary unary) := by
  intro state few
  refine .current_bind ?_
  split
  · exact .fail
  · split
    · next found => exact .consume_bind (.pure (State.length_advance_lt _ (kind_of_atom? found)))
    · split
      · next found =>
          have passed := State.length_advance_lt state (by
            rw [Token.kind_of_is found]
            decide)
          refine .consume_bind (.bind .skipTrivia fun _ skipped skipped_lt => ?_)
          refine .bind (units.logical skipped (by omega)) ?_
          intro _ read read_lt
          refine .bind .skipTrivia ?_
          intro _ last last_lt
          refine .bind (ends_expect (by decide)) ?_
          intro _ closed closed_lt
          exact .pure (by omega)
      · exact .expected

theorem EndsBelow.suffixesWithin (depth : Nat) (left : Expr) (state : State)
    (few : state.rest.length < bound + 1) (enough : state.rest.length < depth) :
    Ends (suffixesWithin unary depth left) state (state.rest.length + 1) := by
  induction depth generalizing left state with
  | zero => omega
  | succ depth ih =>
      refine .current_bind ?_
      split
      · next found =>
          have passed := State.length_advance_lt _ (kind_of_postfixOperator? found)
          exact .consume_bind ((ih _ _ (by omega) (by omega)).mono (by omega))
      · split
        · next found =>
            have passed := State.length_advance_lt state (by
              rw [Token.kind_of_is found]
              decide)
            refine .consume_bind (.bind ends_identifier fun _ read read_lt => ?_)
            exact (ih _ read (by omega) (by omega)).mono (by omega)
        · split
          · next found =>
              have passed := State.length_advance_lt state (by
                rw [Token.kind_of_is found]
                decide)
              refine .consume_bind (.bind (ends_list fun state' le =>
                units.logical state' (by omega)) fun _ read read_lt => ?_)
              exact (ih _ read (by omega) (by omega)).mono (by omega)
          · exact .pure (Nat.lt_succ_self _)

theorem EndsBelow.unaryUsing : EndsBelow (bound + 1) (unaryUsing unary) := by
  intro state few
  refine .current_bind ?_
  split
  · next found =>
      have passed := State.length_advance_lt _ (kind_of_prefixOperator? found)
      exact .consume_bind (.bind (units _ (by omega)) fun _ read read_lt => .pure (by omega))
  · refine .bind (units.primary state few) fun _ read read_lt => .get_bind ?_
    exact (units.suffixesWithin _ _ read (by omega) (Nat.lt_succ_self _)).mono (by omega)

end Ends

theorem endsBelow_unaryWithin (depth : Nat) : EndsBelow depth (unaryWithin depth) := by
  induction depth with
  | zero => nofun
  | succ depth ih => exact ih.unaryUsing

section Approximates

variable {operators : List BinaryOperator} {operand operand' unary unary' : Parse Expr}

theorem approximates_foldsWithin (operands : Approximates operand operand') (depth : Nat)
    (left : Expr) :
    Approximates (foldsWithin operators operand depth left)
      (foldsWithin operators operand' depth left) := by
  induction depth generalizing left with
  | zero => exact .refl _
  | succ depth ih =>
      refine .after ?_
      intro token
      split
      · exact .after fun _ => .after fun _ => .bind operands fun _ => ih _
      · exact .refl _

theorem approximates_level (operands : Approximates operand operand') :
    Approximates (level operators operand) (level operators operand') :=
  .bind operands fun _ => .after fun _ => approximates_foldsWithin operands _ _

variable (units : Approximates unary unary')

include units

theorem approximates_logical : Approximates (logical unary) (logical unary') :=
  approximates_level (approximates_level (approximates_level
    (approximates_level (approximates_level units))))

theorem approximates_primary : Approximates (primary unary) (primary unary') := by
  refine .after fun token => .ite (.refl _) ?_
  split
  · exact .refl _
  · refine .ite ?_ (.refl _)
    exact .after fun _ => .after fun _ => .bind (approximates_logical units) fun _ => .refl _

theorem approximates_suffixesWithin (depth : Nat) (left : Expr) :
    Approximates (suffixesWithin unary depth left) (suffixesWithin unary' depth left) := by
  induction depth generalizing left with
  | zero => exact .refl _
  | succ depth ih =>
      refine .after ?_
      intro token
      split
      · exact .after fun _ => ih _
      · refine .ite (.after fun _ => .after fun _ => ih _) (.ite ?_ (.refl _))
        exact .after fun _ => .bind (approximates_logical units).list fun _ => ih _

theorem approximates_unaryUsing : Approximates (unaryUsing unary) (unaryUsing unary') := by
  refine .after ?_
  intro token
  split
  · exact .after fun _ => .bind units fun _ => .refl _
  · refine .bind (approximates_primary units) ?_
    intro _
    refine .after ?_
    intro _
    exact approximates_suffixesWithin units _ _

end Approximates

/-- What solves the equation of the unary level is the unary level. -/
theorem unary_eq_of_unaryUsing {parser : Parse Expr} (solves : parser = unaryUsing parser) :
    unary = parser := by
  refine NeverExhausted.eq_of_approximates (fun state after => ?_) fun depth => ?_
  · exact (endsBelow_unaryWithin _ state (Nat.lt_succ_self _)).ne_exhausted
  · induction depth with
    | zero => exact .exhausted _
    | succ depth ih =>
        rw [solves]
        exact approximates_unaryUsing ih

end Grammar

/-- The parser with one loop for all operators does in every state, at every level, what the grammar
does: it builds the same tree and keeps the same place, or fails in the same place for the same
reason. -/
theorem expression_eq_grammar (power : Power) : expression power = Grammar.expression power := by
  rw [Grammar.expression, Grammar.unary_eq_of_unaryUsing expression_unary]
  exact expression_eq_above power

end SmallLang.Parse
