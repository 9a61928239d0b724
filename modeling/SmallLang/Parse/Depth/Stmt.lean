import SmallLang.Parse.Depth

/-!
# Depth of statements

The depth of a statement grows with three times the tokens left, and that of a program with
their number. Neither is ever used up.
-/

set_option autoImplicit false

namespace SmallLang.Parse

theorem ends_segmentsWithin (path : String) (depth : Nat) (state : State)
    (enough : state.rest.length < depth) :
    Ends (segmentsWithin path depth) state (state.rest.length + 1) := by
  induction depth generalizing state path with
  | zero => omega
  | succ depth ih =>
      refine .current_bind ?_
      split
      · next found =>
          have passed := State.length_advance_lt state (by rw [Token.kind_of_is found]; decide)
          refine .consume_bind ?_
          refine .bind ends_identifier fun _ read read_lt => ?_
          exact (ih _ read (by omega)).mono (by omega)
      · exact .pure (Nat.lt_succ_self _)

theorem ends_useStatement {state : State} (more : state.current.kind ≠ .endOfInput) :
    Ends useStatement state state.rest.length := by
  have passed := State.length_advance_lt _ more
  refine .advance_bind ?_
  refine .bind ends_identifier fun _ read read_lt => ?_
  refine .get_bind ?_
  refine .bind (ends_segmentsWithin _ _ read (Nat.lt_succ_self _)) fun _ path path_lt => ?_
  refine .current_bind ?_
  split
  · next found =>
      have passed := State.length_advance_lt path (by rw [Token.kind_of_is found]; decide)
      refine .consume_bind ?_
      refine .bind ends_identifier fun _ last last_lt => ?_
      exact .pure (by omega)
  · exact .pure (by omega)

theorem ends_typeAndValue {state : State} : Ends typeAndValue state (state.rest.length + 1) := by
  refine .current_bind ?_
  split
  · next found =>
      have passed := State.length_advance_lt state (by rw [Token.kind_of_is found]; decide)
      refine .consume_bind ?_
      refine .bind (ends_expression _ _) fun _ last last_lt => ?_
      exact .pure (by omega)
  · refine .current_bind ?_
    split
    · next found =>
        have passed := State.length_advance_lt state (by rw [Token.kind_of_is found]; decide)
        refine .consume_bind ?_
        refine .bind ends_typeName fun _ named named_lt => ?_
        refine .current_bind ?_
        split
        · next found =>
            have passed := State.length_advance_lt named (by rw [Token.kind_of_is found]; decide)
            refine .consume_bind ?_
            refine .bind (ends_expression _ _) fun _ last last_lt => ?_
            exact .pure (by omega)
        · exact .pure (by omega)
    · exact .pure (Nat.lt_succ_self _)

theorem ends_variableStatement {state : State} (more : state.current.kind ≠ .endOfInput) :
    Ends variableStatement state state.rest.length := by
  have passed := State.length_advance_lt _ more
  refine .advance_bind ?_
  refine .bind ends_identifier fun _ read read_lt => ?_
  refine .bind ends_typeAndValue fun ⟨type, value⟩ last last_lt => ?_
  dsimp only
  split
  · exact .expected
  · exact .pure (by omega)

theorem ends_returnStatement {state : State} (more : state.current.kind ≠ .endOfInput) :
    Ends returnStatement state state.rest.length := by
  have passed := State.length_advance_lt _ more
  refine .consume_bind ?_
  refine .current_bind ?_
  split
  · exact .pure passed
  · refine .bind (ends_expression _ _) fun _ last last_lt => ?_
    exact .pure (by omega)

theorem ends_parameter {state : State} : Ends parameter state state.rest.length := by
  refine .bind ends_identifier fun _ read read_lt => ?_
  refine .bind (ends_expect (by decide)) fun _ opened opened_lt => ?_
  refine .bind ends_typeName fun _ last last_lt => ?_
  exact .pure (by omega)

theorem ends_functionHeader {state : State} (more : state.current.kind ≠ .endOfInput) :
    Ends functionHeader state state.rest.length := by
  have passed := State.length_advance_lt _ more
  refine .get_bind ?_
  refine .modify_bind rfl rfl ?_
  refine .advance_bind ?_
  refine .bind ends_identifier fun _ read read_lt => ?_
  refine .bind (ends_expect (by decide)) fun _ opened opened_lt => ?_
  refine .bind (ends_list fun _ _ => ends_parameter) fun _ closed closed_lt => ?_
  change _ < state.advance.rest.length at read_lt
  refine .current_bind ?_
  split
  · next found =>
      have passed := State.length_advance_lt closed (by rw [Token.kind_of_is found]; decide)
      refine .consume_bind ?_
      refine .bind ends_typeName fun _ last last_lt => ?_
      exact .pure (by omega)
  · exact .pure (by omega)

theorem ends_addModifier {modifier : Modifier} {state : State}
    (more : state.current.kind ≠ .endOfInput) :
    Ends (addModifier modifier) state state.rest.length := by
  have passed := State.length_advance_lt _ more
  refine .advance_bind ?_
  refine .get_bind ?_
  split
  · exact .fail
  · refine .modify_bind rfl rfl ?_
    refine .current_bind ?_
    split
    · exact .pure passed
    · exact .expected

theorem ends_skipToArm {state : State} : Ends skipToArm state (state.rest.length + 1) := by
  refine .bind .skipTrivia fun _ skipped skipped_lt => ?_
  exact Ends.skipNewlines.mono (by omega)

theorem ends_pattern {state : State} : Ends pattern state state.rest.length := by
  refine .current_bind ?_
  split
  · next found =>
      have passed := State.length_advance_lt state (by rw [Token.kind_of_is found]; decide)
      refine .consume_bind ?_
      refine .bind (ends_expect (by decide)) fun _ last last_lt => ?_
      exact .pure (by omega)
  · refine .bind (ends_expression _ _) fun _ read read_lt => ?_
    refine .bind (ends_expect (by decide)) fun _ last last_lt => ?_
    exact .pure (by omega)

mutual

theorem ends_statementWithin (depth : Nat) (state : State)
    (enough : 3 * state.rest.length + 3 ≤ depth) :
    Ends (statementWithin depth) state state.rest.length := by
  cases depth with
  | zero => omega
  | succ depth =>
      refine .current_bind ?_
      split
      · next kind =>
          have more : state.current.kind ≠ .endOfInput := by rw [kind]; decide
          have passed := State.length_advance_lt _ more
          split
          · refine .bind (ends_functionHeader more) fun header read read_lt => ?_
            split
            · refine .current_bind ?_
              split
              · exact .expected
              · exact .pure read_lt
            · refine .bind (ends_blockWithin depth read (by omega)) fun _ last last_lt => ?_
              exact .pure (by omega)
          · refine .bind (ends_addModifier more) fun _ read read_lt => ?_
            exact (ends_statementWithin depth read (by omega)).mono (by omega)
          · refine .bind (ends_addModifier more) fun _ read read_lt => ?_
            exact (ends_statementWithin depth read (by omega)).mono (by omega)
          · refine .bind (ends_branchWithin depth state (by omega)) fun found last last_lt => ?_
            exact .pure last_lt
          · refine .consume_bind ?_
            refine .bind (ends_expression _ _) fun _ read read_lt => ?_
            refine .bind (ends_blockWithin depth read (by omega)) fun _ last last_lt => ?_
            exact .pure (by omega)
          · exact ends_returnStatement more
          · exact ends_variableStatement more
          · exact ends_variableStatement more
          · refine .consume_bind ?_
            refine .bind (ends_expression _ _) fun _ read read_lt => ?_
            refine .bind (ends_block (fun _ => ends_skipToArm) fun inner inner_lt =>
              ends_armWithin depth inner (by omega)) fun _ last last_lt => ?_
            exact .pure (by omega)
          · exact ends_useStatement more
          · exact .bind (ends_expression _ _) fun _ last last_lt => .pure last_lt
          · exact .bind (ends_expression _ _) fun _ last last_lt => .pure last_lt
          · exact .bind (ends_expression _ _) fun _ last last_lt => .pure last_lt
          · exact .fail
          · exact .fail
          · exact .fail
          · exact .fail
      · next kind =>
          exact .consume_bind (.pure (State.length_advance_lt _ (by rw [kind]; decide)))
      · exact .bind (ends_expression _ _) fun _ last last_lt => .pure last_lt

theorem ends_blockWithin (depth : Nat) (state : State)
    (enough : 3 * state.rest.length + 1 ≤ depth) :
    Ends (blockWithin depth) state state.rest.length := by
  cases depth with
  | zero => omega
  | succ depth =>
      refine ends_block (fun _ => .skipNewlines) fun inner inner_lt => ?_
      refine .bind (ends_statementWithin depth inner (by omega)) fun _ read read_lt => ?_
      refine .bind ends_statementEnd fun _ last last_lt => ?_
      exact .pure (by omega)

theorem ends_branchWithin (depth : Nat) (state : State)
    (enough : 3 * state.rest.length + 2 ≤ depth) :
    Ends (branchWithin depth) state state.rest.length := by
  cases depth with
  | zero => omega
  | succ depth =>
      have passed := state.advance_suffix.length_le
      refine .consume_bind ?_
      refine .bind (ends_expression _ _) fun _ read read_lt => ?_
      refine .bind (ends_blockWithin depth read (by omega)) fun _ closed closed_lt => ?_
      refine .get_bind ?_
      split
      · refine .bind .skipNewlines fun _ skipped skipped_lt => ?_
        have forward := skipped.advance_suffix.length_le
        refine .consume_bind ?_
        refine .current_bind ?_
        split
        · refine .bind (ends_branchWithin depth skipped.advance (by omega))
            fun found last last_lt => ?_
          exact .pure (by omega)
        · refine .bind (ends_blockWithin depth skipped.advance (by omega))
            fun _ last last_lt => ?_
          exact .pure (by omega)
      · exact .pure (by omega)

theorem ends_armWithin (depth : Nat) (state : State)
    (enough : 3 * state.rest.length + 1 ≤ depth) :
    Ends (armWithin depth) state state.rest.length := by
  cases depth with
  | zero => omega
  | succ depth =>
      refine .bind ends_pattern fun found read read_lt => ?_
      split
      · refine .bind (ends_blockWithin depth read (by omega)) fun _ last last_lt => ?_
        exact .pure (by omega)
      · refine .bind (ends_blockWithin depth read (by omega)) fun _ last last_lt => ?_
        exact .pure (by omega)

end

theorem ends_statement (state : State) : Ends statement state state.rest.length :=
  .get_bind (ends_statementWithin _ state (Nat.le_refl _))

theorem ends_statements (state : State) : Ends statements state state.rest.length :=
  .get_bind (ends_blockWithin _ state (by unfold State.depth; omega))

theorem ends_programWithin (depth : Nat) (state : State)
    (enough : state.rest.length < depth) :
    Ends (programWithin depth) state (state.rest.length + 1) := by
  induction depth generalizing state with
  | zero => omega
  | succ depth ih =>
      refine .bind .skipNewlines fun _ skipped skipped_lt => ?_
      refine .get_bind ?_
      split
      · exact .pure skipped_lt
      · refine .bind (ends_statement skipped) fun _ read read_lt => ?_
        refine .bind ends_statementEnd fun _ next next_lt => ?_
        refine .bind (ih next (by omega)) fun _ last last_lt => ?_
        exact .pure (by omega)

theorem ends_program (state : State) : Ends program state (state.rest.length + 1) :=
  .get_bind (ends_programWithin _ state (Nat.lt_succ_self _))

end SmallLang.Parse
