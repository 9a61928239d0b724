import SmallLang.Parse.Stmt

/-!
# Depth of the parser

A parser only ever moves forward, and each of its parts that succeeds has read a token. So
the depth that it is given, which grows with the tokens left, is never used up.
-/

set_option autoImplicit false

namespace SmallLang

/-- A token known by its text is not the end of input unless that is asked for. -/
theorem Token.kind_of_is {token : Token} {kind : Token.Kind} {value : String}
    (found : token.is kind value = true) : token.kind = kind := by
  unfold Token.is at found
  simp only [Bool.and_eq_true, beq_iff_eq] at found
  exact found.1

namespace Parse

namespace State

theorem current_of_rest_nil {state : State} (empty : state.rest = []) :
    state.current.kind = .endOfInput := by
  unfold current
  rw [empty]
  exact state.stop_kind

theorem length_advance_lt (state : State) (more : state.current.kind ≠ .endOfInput) :
    state.advance.rest.length < state.rest.length := by
  cases tokens : state.rest with
  | nil => exact absurd (current_of_rest_nil tokens) more
  | cons token rest => simp [advance, tokens]

theorem advance_suffix (state : State) : state.advance.rest <:+ state.rest :=
  List.tail_suffix state.rest

end State

variable {α β : Type}

/-- From a state, a parser ends by itself: with fewer than `bound` tokens left, or with an
error. It has not moved back. -/
def Ends (parser : Parse α) (state : State) (bound : Nat) : Prop :=
  match parser state with
  | .ok _ after =>
      after.rest <:+ state.rest ∧ after.stop = state.stop ∧ after.rest.length < bound
  | .error halt after =>
      halt ≠ .exhausted ∧ after.rest <:+ state.rest ∧ after.stop = state.stop

namespace Ends

theorem mono {parser : Parse α} {state : State} {low high : Nat}
    (ends : Ends parser state low) (le : low ≤ high) : Ends parser state high := by
  unfold Ends at *
  split <;> rename_i result <;> rw [result] at ends
  · exact ⟨ends.1, ends.2.1, Nat.lt_of_lt_of_le ends.2.2 le⟩
  · exact ends

/-- What a parser does from a later state counts from an earlier one as well. -/
theorem from_later {first : Parse α} (second : Parse α) {state : State} (later : State)
    {bound : Nat} (same : first state = second later) (suffix : later.rest <:+ state.rest)
    (stop : later.stop = state.stop) (ends : Ends second later bound) :
    Ends first state bound := by
  unfold Ends at *
  rw [same]
  split <;> rename_i result <;> rw [result] at ends
  · exact ⟨ends.1.trans suffix, ends.2.1.trans stop, ends.2.2⟩
  · exact ⟨ends.1, ends.2.1.trans suffix, ends.2.2.trans stop⟩

theorem bind {parser : Parse α} {next : α → Parse β} {state : State} {middle bound : Nat}
    (ends : Ends parser state middle)
    (later : ∀ value after, after.rest.length < middle → Ends (next value) after bound) :
    Ends (parser >>= next) state bound := by
  cases result : parser state with
  | ok value after =>
      unfold Ends at ends
      rw [result] at ends
      refine from_later (next value) after ?_ ends.1 ends.2.1
        (later value after ends.2.2)
      change EStateM.bind parser next state = next value after
      simp only [EStateM.bind, result]
  | error halt after =>
      unfold Ends at ends ⊢
      rw [result] at ends
      change match EStateM.bind parser next state with
        | .ok _ after => _
        | .error halt after => _
      simp only [EStateM.bind, result]
      exact ends

theorem pure {value : α} {state : State} {bound : Nat} (few : state.rest.length < bound) :
    Ends (Pure.pure value : Parse α) state bound :=
  ⟨List.suffix_refl _, rfl, few⟩

theorem fail {error : Error} {state : State} {bound : Nat} :
    Ends (Parse.fail error : Parse α) state bound :=
  ⟨nofun, List.suffix_refl _, rfl⟩

theorem expected {what : String} {state : State} {bound : Nat} :
    Ends (Parse.expected what : Parse α) state bound :=
  ⟨nofun, List.suffix_refl _, rfl⟩

theorem current_bind {next : Token → Parse β} {state : State} {bound : Nat}
    (ends : Ends (next state.current) state bound) : Ends (current >>= next) state bound :=
  from_later (next state.current) _ rfl (List.suffix_refl _) rfl ends

theorem get_bind {next : State → Parse β} {state : State} {bound : Nat}
    (ends : Ends (next state) state bound) : Ends (get >>= next) state bound :=
  from_later (next state) _ rfl (List.suffix_refl _) rfl ends

theorem consume_bind {next : Unit → Parse β} {state : State} {bound : Nat}
    (ends : Ends (next ()) state.advance bound) : Ends (consume >>= next) state bound :=
  from_later (next ()) _ rfl state.advance_suffix rfl ends

theorem advance_bind {next : Token → Parse β} {state : State} {bound : Nat}
    (ends : Ends (next state.current) state.advance bound) :
    Ends (advance >>= next) state bound :=
  from_later (next state.current) _ rfl state.advance_suffix rfl ends

theorem modify_bind {change : State → State} {next : PUnit → Parse β} {state : State}
    {bound : Nat} (rest : (change state).rest = state.rest)
    (stop : (change state).stop = state.stop)
    (ends : Ends (next ()) (change state) bound) : Ends (modify change >>= next) state bound :=
  from_later (next ()) _ rfl (rest ▸ List.suffix_refl _) stop ends

theorem consume {state : State} (more : state.current.kind ≠ .endOfInput) :
    Ends Parse.consume state state.rest.length :=
  ⟨state.advance_suffix, rfl, State.length_advance_lt _ more⟩

theorem skipTrivia {state : State} : Ends Parse.skipTrivia state (state.rest.length + 1) :=
  ⟨List.dropWhile_suffix _, rfl,
    Nat.lt_succ_of_le (List.dropWhile_suffix State.isTrivia).length_le⟩

theorem skipNewlines {state : State} : Ends Parse.skipNewlines state (state.rest.length + 1) :=
  ⟨List.dropWhile_suffix _, rfl,
    Nat.lt_succ_of_le (List.dropWhile_suffix State.isSeparator).length_le⟩

/-- A parser that has ended has no reason but an error for it. -/
theorem ne_exhausted {parser : Parse α} {state after : State} {bound : Nat}
    (ends : Ends parser state bound) : parser state ≠ .error .exhausted after := by
  intro result
  unfold Ends at ends
  rw [result] at ends
  exact ends.1 rfl

end Ends

/-! ### Tokens -/

theorem ends_expect {kind : Token.Kind} {value : String} {state : State}
    (proper : kind ≠ .endOfInput) : Ends (expect kind value) state state.rest.length := by
  refine .current_bind ?_
  split
  · next found =>
      exact ⟨state.advance_suffix, rfl,
        State.length_advance_lt _ (Token.kind_of_is found ▸ proper)⟩
  · exact .expected

theorem ends_identifier {what : String} {state : State} :
    Ends (identifier what) state state.rest.length := by
  refine .current_bind ?_
  split
  · next found =>
      refine .advance_bind (.pure (State.length_advance_lt _ ?_))
      rw [beq_iff_eq.mp found]
      decide
  · exact .expected

theorem ends_typeName {state : State} : Ends typeName state state.rest.length := by
  refine .current_bind ?_
  split
  · next found =>
      refine .consume_bind (.pure (State.length_advance_lt _ ?_))
      rcases Bool.or_eq_true_iff.mp found with found | found
      · rw [beq_iff_eq.mp found]
        decide
      · rw [Token.kind_of_is found]
        decide
  · exact .expected

theorem ends_statementEnd {state : State} : Ends statementEnd state (state.rest.length + 1) := by
  refine .current_bind ?_
  split
  · next found => exact (Ends.consume (by rw [found]; decide)).mono (Nat.le_succ _)
  · exact .pure (Nat.lt_succ_self _)
  · exact .pure (Nat.lt_succ_self _)
  · next found =>
      split
      · exact (Ends.consume (by rw [found]; decide)).mono (Nat.le_succ _)
      · split
        · exact .pure (Nat.lt_succ_self _)
        · exact .expected
  · exact .expected

/-! ### Lists and blocks -/

theorem ends_listSeparator {state : State} :
    Ends listSeparator state (state.rest.length + 1) := by
  refine .current_bind ?_
  split
  · next found =>
      exact (Ends.consume (by rw [Token.kind_of_is found]; decide)).mono (Nat.le_succ _)
  · split
    · exact .pure (Nat.lt_succ_self _)
    · exact .expected

theorem ends_listItems {item : Parse α} (depth : Nat) (state : State)
    (items : ∀ state' : State, state'.rest.length ≤ state.rest.length →
      Ends item state' state'.rest.length)
    (enough : state.rest.length < depth) :
    Ends (listItems item depth) state (state.rest.length + 1) := by
  induction depth generalizing state with
  | zero => omega
  | succ depth ih =>
      refine .bind .skipTrivia fun _ opened opened_lt => ?_
      refine .current_bind ?_
      split
      · exact .pure opened_lt
      · refine .bind (items opened (by omega)) fun _ read read_lt => ?_
        refine .bind .skipTrivia fun _ skipped skipped_lt => ?_
        refine .bind ends_listSeparator fun _ next next_lt => ?_
        refine .bind (ih next (fun state' le => items state' (by omega)) (by omega))
          fun _ last last_lt => ?_
        exact .pure (by omega)

theorem ends_list {item : Parse α} {state : State}
    (items : ∀ state' : State, state'.rest.length ≤ state.rest.length →
      Ends item state' state'.rest.length) :
    Ends (list item) state state.rest.length := by
  refine .get_bind ?_
  refine .bind (ends_listItems _ state items (Nat.lt_succ_self _)) fun _ read read_lt => ?_
  refine .bind (ends_expect (by decide)) fun _ last last_lt => ?_
  exact .pure (by omega)

theorem ends_blockItems {skip : Parse Unit} {item : Parse α} (depth : Nat) (state : State)
    (skips : ∀ state' : State, Ends skip state' (state'.rest.length + 1))
    (items : ∀ state' : State, state'.rest.length ≤ state.rest.length →
      Ends item state' state'.rest.length)
    (enough : state.rest.length < depth) :
    Ends (blockItems skip item depth) state state.rest.length := by
  induction depth generalizing state with
  | zero => omega
  | succ depth ih =>
      refine .bind (skips state) fun _ opened opened_lt => ?_
      refine .current_bind ?_
      split
      · next found =>
          have shorter := State.length_advance_lt opened (by rw [Token.kind_of_is found]; decide)
          exact .consume_bind (.pure (by omega))
      · refine .get_bind ?_
        split
        · exact .expected
        · refine .bind (items opened (by omega)) fun _ read read_lt => ?_
          refine .bind (ih read (fun state' le => items state' (by omega)) (by omega))
            fun _ last last_lt => ?_
          exact .pure (by omega)

theorem ends_block {skip : Parse Unit} {item : Parse α} {state : State}
    (skips : ∀ state' : State, Ends skip state' (state'.rest.length + 1))
    (items : ∀ state' : State, state'.rest.length < state.rest.length →
      Ends item state' state'.rest.length) :
    Ends (block skip item) state state.rest.length := by
  refine .bind (ends_expect (by decide)) fun _ opened opened_lt => ?_
  refine .get_bind ?_
  exact (ends_blockItems _ opened skips (fun state' le => items state' (by omega))
    (Nat.lt_succ_self _)).mono (by omega)

/-! ### Expressions -/

theorem kind_of_atom? {token : Token} {atom : Expr} (found : atom? token = some atom) :
    token.kind ≠ .endOfInput := by
  intro finished
  simp [atom?, finished] at found

theorem kind_of_prefixOperator? {token : Token} {operator : PrefixOperator}
    (found : prefixOperator? token = some operator) : token.kind ≠ .endOfInput := by
  intro finished
  simp [prefixOperator?, Token.isOperator, Token.is, finished] at found

theorem kind_of_postfixOperator? {token : Token} {operator : PostfixOperator}
    (found : postfixOperator? token = some operator) : token.kind ≠ .endOfInput := by
  intro finished
  simp [postfixOperator?, Token.isOperator, Token.is, finished] at found

theorem kind_of_operatorAbove? {power : Power} {token : Token} {operator : BinaryOperator}
    (found : operatorAbove? power token = some operator) : token.kind ≠ .endOfInput := by
  intro finished
  simp [operatorAbove?, finished] at found

mutual

theorem ends_expressionWithin (depth : Nat) (power : Power) (state : State)
    (enough : 2 * state.rest.length + 2 ≤ depth) :
    Ends (expressionWithin depth power) state state.rest.length := by
  cases depth with
  | zero => omega
  | succ depth =>
      refine .bind (ends_operandWithin depth state (by omega)) fun left read read_lt => ?_
      exact (ends_operatorsWithin depth power left read (by omega)).mono (by omega)

theorem ends_operandWithin (depth : Nat) (state : State)
    (enough : 2 * state.rest.length + 1 ≤ depth) :
    Ends (operandWithin depth) state state.rest.length := by
  cases depth with
  | zero => omega
  | succ depth =>
      refine .current_bind ?_
      split
      · exact .fail
      · split
        · next found =>
            exact .consume_bind (.pure (State.length_advance_lt _ (kind_of_atom? found)))
        · split
          · next found =>
              have opened := State.length_advance_lt state (by rw [Token.kind_of_is found]; decide)
              refine .consume_bind ?_
              refine .bind .skipTrivia fun _ skipped skipped_lt => ?_
              refine .bind (ends_expressionWithin depth .lowest skipped (by omega))
                fun _ read read_lt => ?_
              refine .bind .skipTrivia fun _ last last_lt => ?_
              refine .bind (ends_expect (by decide)) fun _ closed closed_lt => ?_
              exact .pure (by omega)
          · split
            · next found =>
                have opened := State.length_advance_lt _ (kind_of_prefixOperator? found)
                refine .consume_bind ?_
                refine .bind (ends_expressionWithin depth .unary _ (by omega))
                  fun _ read read_lt => ?_
                exact .pure (by omega)
            · exact .expected

theorem ends_operatorsWithin (depth : Nat) (power : Power) (left : Expr) (state : State)
    (enough : 2 * state.rest.length + 1 ≤ depth) :
    Ends (operatorsWithin depth power left) state (state.rest.length + 1) := by
  cases depth with
  | zero => omega
  | succ depth =>
      refine .current_bind ?_
      split
      · next found =>
          have passed := State.length_advance_lt _ (kind_of_postfixOperator? found)
          refine .consume_bind ?_
          exact (ends_operatorsWithin depth power _ _ (by omega)).mono (by omega)
      · split
        · next found =>
            have passed := State.length_advance_lt state (by rw [Token.kind_of_is found]; decide)
            refine .consume_bind ?_
            refine .bind ends_identifier fun _ read read_lt => ?_
            exact (ends_operatorsWithin depth power _ read (by omega)).mono (by omega)
        · split
          · next found =>
              have passed := State.length_advance_lt state (by rw [Token.kind_of_is found]; decide)
              refine .consume_bind ?_
              refine .bind (ends_list fun state' le =>
                ends_expressionWithin depth .lowest state' (by omega)) fun _ read read_lt => ?_
              exact (ends_operatorsWithin depth power _ read (by omega)).mono (by omega)
          · split
            · next operator found =>
                have passed := State.length_advance_lt _ (kind_of_operatorAbove? found)
                refine .consume_bind ?_
                refine .bind .skipTrivia fun _ skipped skipped_lt => ?_
                refine .bind (ends_expressionWithin depth operator.power skipped (by omega))
                  fun _ read read_lt => ?_
                exact (ends_operatorsWithin depth power _ read (by omega)).mono (by omega)
            · exact .pure (Nat.lt_succ_self _)

end

theorem ends_expression (power : Power) (state : State) :
    Ends (expression power) state state.rest.length :=
  .get_bind (ends_expressionWithin _ power state (Nat.le_refl _))

end Parse

end SmallLang
