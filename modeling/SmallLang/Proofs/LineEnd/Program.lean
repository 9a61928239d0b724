import SmallLang.Proofs.LineEnd.Statements

/-!
# Blank lines carry no meaning

Tokens spell the same program, or fail with the same error in the same place, whether or not a line
end follows another one or stands at the very beginning. So they may be left out, as a scan does.
-/

set_option autoImplicit false

namespace SmallLang

namespace Parse

/-! ### The end of a statement -/

/-- Where a statement ends, both runs are in the same place once the gap behind it is skipped. -/
theorem statementEnd_merged (state : State) :
    (∃ after after', statementEnd state = .ok () after ∧
      statementEnd state.merged = .ok () after' ∧
      after'.skipNewlines = after.skipNewlines.merged) ∨
    ∃ error after after', statementEnd state = .error (.error error) after ∧
      statementEnd state.merged = .error (.error error) after' := by
  have ends := statementEnd_eq state
  have ends' := statementEnd_eq state.merged
  rw [State.current_merged] at ends'
  split at ends
  · next lineEnd =>
      rw [if_pos lineEnd] at ends'
      exact .inl ⟨_, _, ends, ends', state.skipNewlines_advance_merged⟩
  · next other =>
      rw [if_neg other] at ends'
      split at ends
      · next blank =>
          rw [if_pos blank] at ends'
          exact .inl ⟨_, _, ends, ends', state.skipNewlines_merged⟩
      · next solid =>
          rw [if_neg solid] at ends'
          split at ends
          · next semicolon =>
              rw [if_pos semicolon] at ends'
              refine .inl ⟨_, _, ends, ends', ?_⟩
              rw [State.advance_merged other, State.skipNewlines_merged]
          · next noSemicolon =>
              rw [if_neg noSemicolon] at ends'
              split at ends
              · next brace =>
                  rw [if_pos brace] at ends'
                  exact .inl ⟨_, _, ends, ends', state.skipNewlines_merged⟩
              · next noBrace =>
                  rw [if_neg noBrace] at ends'
                  refine .inr ⟨_, _, state.merged, ends, ?_⟩
                  rw [ends', expected, State.expectation, State.current_merged]
                  rfl

/-! ### Loops over statements -/

section Rounds

variable {closes : State → Bool} {close : Parse Unit} {statement statement' : Parse Stmt}
  (same : ∀ state, closes state.merged = closes state)
  (closing : Merges close close) (statements : Merges statement statement')
include same closing statements

/-- A loop over statements does the same if every statement in it does. -/
theorem merges_rounds {within : Nat → Parse (List Stmt)} {loop : Parse (List Stmt)}
    (zero : within 0 = exhausted)
    (succ : ∀ depth, within (depth + 1) = round closes close statement (within depth))
    (again : loop = round closes close statement' loop) (depth : Nat) :
    Merges (within depth) loop := by
  have meets (state state' : State) (gap : state'.skipNewlines = state.skipNewlines.merged) :
      loop state' = loop state.skipNewlines.merged := by
    rw [again]
    refine round_congr ?_
    rw [gap, State.skipNewlines_merged, State.skipNewlines_skipNewlines]
  induction depth with
  | zero =>
      rw [zero]
      exact .exhausted
  | succ depth ih =>
      rw [succ, again]
      refine Merges.skipNewlines.bind fun _ state => .get_bind ?_
      rw [same]
      split
      · exact closing.bind (fun _ => .pure _) state
      · refine (statements state).bind ?_
        intro first after _
        obtain ⟨last, last', ends, ends', gap⟩ | ⟨error, last, last', fails, fails'⟩ :=
          statementEnd_merged after
        · cases depth with
          | zero => exact .of_exhausted ((bind_of_ok ends).trans (by rw [zero]; rfl))
          | succ depth =>
              -- both runs go on in front of the next statement
              have skips : within (depth + 1) last = within (depth + 1) last.skipNewlines := by
                rw [succ]
                exact round_congr last.skipNewlines_skipNewlines.symm
              exact .from_later last.skipNewlines
                ((bind_of_ok ends).trans (bind_from_later skips))
                ((bind_of_ok ends').trans (bind_from_later (meets last last' gap)))
                (ih.bind (fun _ => .pure _) _)
        · exact .of_error (bind_of_error fails) (bind_of_error fails')

end Rounds

/-! ### Blocks, branches and arms -/

section Using

variable {statement statement' : Parse Stmt} {body body' : Parse (List Stmt)}
  {branch branch' : Parse (Expr × List Stmt × Alternate)} {arm arm' : Parse Arm}

theorem merges_blockUsing (statements : Merges statement Parse.statement) :
    Merges (blockUsing statement) Parse.statements := by
  have closing : Merges closeBlock closeBlock := by
    refine fun state => .current_bind ?_
    split
    · next brace => exact .consume (by simp [Token.kind_of_is brace])
    · exact .expected
  have closes (state : State) : closesBlock state.merged = closesBlock state := by
    simp only [closesBlock, State.atEnd, State.current_merged]
  have again : inBlock skipNewlines (withEnd Parse.statement) =
      round closesBlock closeBlock Parse.statement
        (inBlock skipNewlines (withEnd Parse.statement)) := by
    rw [← blockRound_eq]
    exact inBlock_eq (fun _ => .skipNewlines) takes_withEnd
  have inside : Merges (inBlock skipNewlines (withEnd statement))
      (inBlock skipNewlines (withEnd Parse.statement)) := fun state =>
    .from_later state rfl rfl
      (merges_rounds closes closing statements rfl (fun _ => blockRound_eq statement _) again
        state.rounds state)
  rw [statements_eq]
  exact (Merges.expect (by decide)).bind fun _ => inside

theorem mergesAt_branchUsing (bodies : Merges body body')
    (branches : ∀ state : State, state.current.kind = .keyword → MergesAt branch branch' state)
    {state : State} (keyword : state.current.kind = .keyword) :
    MergesAt (branchUsing body branch) (branchUsing body' branch') state := by
  refine .consume_bind (by simp [keyword]) ?_
  refine (merges_expression _).bind (fun condition => bodies.bind fun first state => ?_) _
  refine .get_bind ?_
  rw [State.peekPastNewlines_merged]
  split
  · refine (Merges.skipNewlines state).bind ?_
    intro _ after skips
    obtain rfl : state.skipNewlines = after := by
      cases skips
      rfl
    refine .consume_bind state.kind_current_skipNewlines (.current_bind ?_)
    split
    · next isIf => exact (branches _ (Token.kind_of_is isIf)).bind fun _ _ _ => .pure _
    · exact bodies.bind (fun _ => .pure _) _
  · exact .pure _

theorem merges_armUsing (bodies : Merges body body') : Merges (armUsing body) (armUsing body') := by
  refine merges_pattern.bind ?_
  intro found
  cases found with
  | some value => exact bodies.bind fun _ => .pure _
  | none => exact bodies.bind fun _ => .pure _

theorem merges_switchBody (arms : Merges arm arm') (takes : Takes arm') :
    Merges (block skipToArm arm) (block skipToArm arm') := by
  have again : inBlock skipToArm arm' =
      skipToArm >>= fun _ => blockStep arm' (inBlock skipToArm arm') :=
    inBlock_eq (fun _ => ends_skipToArm) takes
  have skips : Merges skipToArm skipToArm := Merges.skipTrivia.bind fun _ => .skipNewlines
  have items (depth : Nat) : Merges (blockItems skipToArm arm depth) (inBlock skipToArm arm') := by
    induction depth with
    | zero => exact .exhausted
    | succ depth ih =>
        rw [again]
        refine skips.bind fun _ state => .current_bind ?_
        split
        · next brace => exact .consume_bind (by simp [Token.kind_of_is brace]) (.pure _)
        · refine .get_bind ?_
          rw [State.atEnd, State.atEnd, State.current_merged]
          split
          · exact .expected
          · exact arms.bind (fun _ => ih.bind fun _ => .pure _) state
  exact (Merges.expect (by decide)).bind fun _ state =>
    .from_later state rfl rfl (items state.rounds state)

/-- A statement of any kind is read alike if its parts are. -/
theorem merges_statementUsing (statements : Merges statement statement')
    (bodies : Merges body body')
    (branches : ∀ state : State, state.current.kind = .keyword → MergesAt branch branch' state)
    (arms : Merges arm arm') (takes : Takes arm') :
    Merges (statementUsing statement body branch arm)
      (statementUsing statement' body' branch' arm') := by
  have values : Merges (expression .lowest >>= fun value => pure (Stmt.expr value))
      (expression .lowest >>= fun value => pure (Stmt.expr value)) :=
    (merges_expression .lowest).bind fun _ => .pure _
  refine fun state => .current_bind ?_
  cases kind : state.current.kind with
  | keyword =>
      have modified (modifier : Modifier) :
          MergesAt (addModifier modifier >>= fun _ => statement)
            (addModifier modifier >>= fun _ => statement') state :=
        (mergesAt_addModifier kind modifier).bind fun _ after _ => statements after
      cases Keyword.ofText? state.current.value with
      | none => exact .fail
      | some keyword =>
          cases keyword with
          | function =>
              refine (mergesAt_functionHeader kind).bind ?_
              intro header opened _
              split
              · refine .current_bind ?_
                split
                · exact .expected
                · exact .pure _
              · exact bodies.bind (fun _ => .pure _) opened
          | pub => exact modified .pub
          | external => exact modified .external
          | ifThen => exact (branches state kind).bind fun _ _ _ => .pure _
          | whileLoop =>
              exact .consume_bind (by simp [kind])
                ((merges_expression _).bind (fun _ => bodies.bind fun _ => .pure _) _)
          | returns => exact mergesAt_returnStatement kind
          | letBinding | constant => exact mergesAt_variableStatement kind
          | switch =>
              exact .consume_bind (by simp [kind]) ((merges_expression _).bind
                (fun _ => (merges_switchBody arms takes).bind fun _ => .pure _) _)
          | use => exact mergesAt_useStatement kind
          | true | false | null => exact values state
          | otherwise | default | as => exact .fail
  | comment => exact .consume_bind (by simp [kind]) (.pure _)
  | _ => exact values state

end Using

/-! ### Any depth -/

theorem merges_statementWithin (depth : Nat) :
    Merges (statementWithin depth) statement ∧ Merges (blockWithin depth) statements ∧
      (∀ state : State, state.current.kind = .keyword →
        MergesAt (branchWithin depth) branch state) ∧
      Merges (armWithin depth) arm := by
  induction depth with
  | zero => exact ⟨.exhausted, .exhausted, fun _ _ => .of_exhausted rfl, .exhausted⟩
  | succ depth ih =>
      obtain ⟨statements, bodies, branches, arms⟩ := ih
      refine ⟨?_, merges_blockUsing statements, fun state keyword => ?_, ?_⟩
      · rw [statement_eq]
        exact merges_statementUsing statements bodies branches arms takes_arm
      · rw [branch_eq]
        exact mergesAt_branchUsing bodies branches keyword
      · rw [arm_eq]
        exact merges_armUsing bodies

theorem merges_program : Merges program program := by
  have statements : Merges statement statement := fun state =>
    .from_later state (statement_apply state) rfl ((merges_statementWithin state.depth).1 state)
  have ends (state : State) : state.merged.atEnd = state.atEnd := by
    simp only [State.atEnd, State.current_merged]
  intro state
  exact .from_later state (program_apply state) rfl
    (merges_rounds ends (.pure ()) statements rfl (fun _ => programRound_eq statement _)
      program_eq_round state.rounds state)

end Parse

/-! ### Whole programs -/

open Parse

namespace Token

/-- The second tokens are the first ones and one line end more: at the very beginning, or behind a
line end. -/
inductive AddsLine : List Token → List Token → Prop where
  | front {blank : Token} {tokens : List Token} :
      blank.kind = .endOfLine → AddsLine tokens (blank :: tokens)
  | behind {front back : List Token} {line blank : Token} :
      line.kind = .endOfLine → blank.kind = .endOfLine →
      AddsLine (front ++ line :: back) (front ++ line :: blank :: back)

variable {tokens tokens' : List Token}

theorem AddsLine.mergeLines_eq (adds : AddsLine tokens tokens') :
    mergeLines false tokens' = mergeLines false tokens := by
  cases adds with
  | front isBlank => simp [mergeLines, isBlank]
  | @behind front back line blank isLine isBlank =>
      generalize false = open?
      induction front generalizing open? with
      | nil => cases open? <;> simp [mergeLines, isLine, isBlank]
      | cons first front ih => simp [mergeLines, ih]

theorem AddsLine.subset (adds : AddsLine tokens tokens') : tokens ⊆ tokens' := by
  cases adds with
  | front => exact List.subset_cons_self _ _
  | behind => exact (((List.sublist_cons_self _ _).cons_cons _).append_left _).subset

end Token

section Merged

variable {tokens : List Token} (ended : ∃ last ∈ tokens, last.kind = .endOfInput)
include ended

/-- The end of the input is found where it was. -/
theorem Parse.State.stopOf_mergeLines (open? : Bool) :
    State.stopOf (Token.mergeLines open? tokens) = State.stopOf tokens := by
  have lineEnds (token : Token) (lineEnd : token.kind = .endOfLine) :
      (token.kind == .endOfInput) = false := by simp [lineEnd]
  obtain ⟨last, present, isLast⟩ := ended
  have some : (tokens.find? (·.kind == .endOfInput)).isSome :=
    List.find?_isSome.mpr ⟨last, present, by simp [isLast]⟩
  obtain ⟨stop, found⟩ := Option.isSome_iff_exists.mp some
  rw [State.stopOf, State.stopOf, Token.find?_mergeLines _ _ lineEnds, found]
  rfl

/-- Without line ends in a row, a program is read from the same place but for a gap in front of
it. -/
theorem Parse.program_ofTokens_mergeLines :
    program (.ofTokens (Token.mergeLines false tokens)) =
      program (State.ofTokens tokens).merged := by
  have lineEnds (token : Token) (lineEnd : token.kind = .endOfLine) :
      (token.kind != .endOfInput) = true := by simp [lineEnd]
  rw [program_eq_round]
  refine round_congr ?_
  simp only [State.skipNewlines, State.ofTokens, State.merged, State.stopOf_mergeLines ended,
    Token.takeWhile_mergeLines _ _ lineEnds, State.dropWhile_isSeparator_mergeLines]

theorem Program.parse_mergeLines :
    Program.parse (Token.mergeLines false tokens) = Program.parse tokens := by
  have merges := merges_program (.ofTokens tokens)
  unfold MergesAt at merges
  rw [← Parse.program_ofTokens_mergeLines ended] at merges
  cases parsed : Program.parse tokens with
  | ok program =>
      obtain ⟨after, result⟩ := parse_eq_ok_iff.mp parsed
      rw [result] at merges
      exact parse_eq_ok_iff.mpr ⟨_, merges⟩
  | error error =>
      obtain ⟨after, result⟩ := parse_eq_error_iff.mp parsed
      rw [result] at merges
      exact parse_eq_error_iff.mpr merges

end Merged

/-- Another line end behind a line end or at the very beginning changes nothing of what is read, be
it a program or an error with its place. The tokens that a scan would leave, with no such line ends,
are read alike. -/
theorem Program.parse_spaced {tokens : List Token}
    (ended : tokens.getLast?.map Token.kind = some .endOfInput) :
    (∀ tokens', Token.AddsLine tokens tokens' →
      Program.parse tokens' = Program.parse tokens) ∧
    Program.parse (Token.mergeLines false tokens) = Program.parse tokens := by
  obtain ⟨last, isLast, kind⟩ := Option.map_eq_some_iff.mp ended
  have present := List.mem_of_getLast? isLast
  have merged := parse_mergeLines ⟨last, present, kind⟩
  refine ⟨fun tokens' adds => ?_, merged⟩
  rw [← parse_mergeLines ⟨last, adds.subset present, kind⟩, adds.mergeLines_eq, merged]

/-- `return` and a name in a later line, with something in between. -/
def Token.returning (between : List Token) : List Token :=
  [⟨.keyword, "return", ⟨"", 0, 6⟩⟩] ++ ⟨.endOfLine, "\n", ⟨"", 6, 7⟩⟩ ::
    (between ++ [⟨.identifier, "x", ⟨"", 8, 9⟩⟩, .finish ⟨"", 9, 9⟩])

/-- The name is a statement of its own, whether one line end stands before it or two. -/
theorem Program.parse_spaced_return :
    (Token.returning []).getLast?.map Token.kind = some .endOfInput ∧
    Program.parse (Token.returning [⟨.endOfLine, "\n", ⟨"", 7, 8⟩⟩]) =
      Program.parse (Token.returning []) ∧
    (Program.parse (Token.returning [])).toOption.map List.length = some 2 := by
  have ended : (Token.returning []).getLast?.map Token.kind = some .endOfInput := rfl
  obtain ⟨spaced, -⟩ := parse_spaced ended
  exact ⟨ended, spaced _ (.behind rfl rfl), rfl⟩

end SmallLang
