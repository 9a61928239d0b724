import SmallLang.Proofs.Comment.Blocks

/-!
# Switches without the comments

Between the arms of a switch, comments are passed over in front of the first semicolon only. One
behind it is read as the pattern of an arm, and fails.
-/

set_option autoImplicit false

namespace SmallLang

/-- A comment in the way of the parser among the arms of a switch, and the error that it runs
into. -/
def Token.ObstructsArm (tokens : List Token) (error : Error) : Prop :=
  ∃ front semicolon gap comment after, tokens = front ++ semicolon :: gap ++ comment :: after ∧
    Token.Balanced front ∧ Token.isDelimiter semicolon ";" = true ∧
    (∀ token ∈ gap, Parse.State.isSeparator token = true) ∧
    Token.kind comment = .comment ∧
    error = ⟨.expectedToken "expression" comment.value, comment.position⟩

theorem Token.ObstructsArm.of_append {part tokens : List Token} {error : Error}
    (obstructs : Token.ObstructsArm tokens error) (balanced : Token.Balanced part) :
    Token.ObstructsArm (part ++ tokens) error := by
  obtain ⟨front, semicolon, gap, comment, after, rfl, balanced', rest⟩ := obstructs
  refine ⟨part ++ front, semicolon, gap, comment, after, ?_, balanced.append balanced', rest⟩
  simp only [List.append_assoc]

namespace Parse

section Gaps

variable {state : State}

theorem State.expectation_of_comment (comment : state.current.kind = .comment) (what : String) :
    state.expectation what =
      ⟨.expectedToken what state.current.value, state.current.position⟩ := by
  unfold State.expectation
  simp only [comment, Token.shown]

/-- A comment is left in front of an arm only if a semicolon stands before it. -/
theorem State.obstructsArm_of_skip
    (comment : state.skipTrivia.skipNewlines.current.kind = .comment) :
    Token.ObstructsArm state.rest
      (state.skipTrivia.skipNewlines.expectation "expression") := by
  have more : state.skipTrivia.skipNewlines.current.kind ≠ .endOfInput := by simp [comment]
  obtain ⟨after, rest⟩ := State.exists_rest_of_more more
  have splits : state.rest = state.rest.takeWhile State.isTrivia ++ state.skipTrivia.rest :=
    List.takeWhile_append_dropWhile.symm
  have splits' : state.skipTrivia.rest =
      state.skipTrivia.rest.takeWhile State.isSeparator ++ state.skipTrivia.skipNewlines.rest :=
    List.takeWhile_append_dropWhile.symm
  have proper : ∀ first ∈ state.skipTrivia.rest.head?, State.isTrivia first = false := by
    intro first head
    have stays := List.head?_dropWhile_not State.isTrivia state.rest
    rw [show (state.rest.dropWhile State.isTrivia).head? = some first from head] at stays
    simpa using stays
  cases separators : state.skipTrivia.rest.takeWhile State.isSeparator with
  | nil =>
      -- the comment would have been passed over before
      rw [separators, List.nil_append, rest] at splits'
      have stays := proper _ (by rw [splits']; rfl)
      simp [State.isTrivia, comment] at stays
  | cons semicolon gap =>
      have separate : ∀ token ∈ semicolon :: gap, State.isSeparator token = true := by
        intro token present
        rw [← separators] at present
        exact List.mem_takeWhile_imp present
      have isSemicolon : semicolon.isDelimiter ";" = true := by
        have stays := proper semicolon (by rw [splits', separators]; rfl)
        have separates := separate semicolon List.mem_cons_self
        simp only [State.isTrivia, Bool.or_eq_false_iff, beq_eq_false_iff_ne] at stays
        simp only [State.isSeparator, Bool.or_eq_true, beq_iff_eq] at separates
        exact separates.resolve_left stays.1
      have trivia : Token.Balanced (state.rest.takeWhile State.isTrivia) :=
        Token.balanced_of_flat fun token present =>
          State.isBrace_eq_false_of_isGap (State.isGap_of_isTrivia (List.mem_takeWhile_imp present))
      refine ⟨_, semicolon, gap, _, after, ?_, trivia, isSemicolon,
        fun token present => separate token (List.mem_cons_of_mem _ present), comment, ?_⟩
      · rw [List.append_assoc, ← rest, ← separators, ← splits', ← splits]
      · rw [State.expectation_of_comment comment]

theorem State.exists_gap_of_skip (state : State) :
    ∃ gap, state.rest = gap ++ state.skipTrivia.skipNewlines.rest ∧ Token.Balanced gap := by
  refine ⟨state.rest.takeWhile State.isTrivia ++ state.skipTrivia.rest.takeWhile State.isSeparator,
    ?_, Token.balanced_of_flat fun token present => State.isBrace_eq_false_of_isGap ?_⟩
  · rw [List.append_assoc]
    change _ = _ ++ (_ ++ state.skipTrivia.rest.dropWhile State.isSeparator)
    rw [List.takeWhile_append_dropWhile]
    exact List.takeWhile_append_dropWhile.symm
  · rcases List.mem_append.mp present with trivia | separator
    · exact State.isGap_of_isTrivia (List.mem_takeWhile_imp trivia)
    · simp [State.isGap, List.mem_takeWhile_imp separator]

/-- In front of an arm, both runs are in the same place. -/
theorem State.skipToArm_cleared
    (arm : state.skipTrivia.skipNewlines.current.kind ≠ .comment) :
    state.cleared.skipTrivia.skipNewlines = state.skipTrivia.skipNewlines.cleared := by
  rw [State.skipTrivia_cleared, State.skipNewlines_cleared, State.skipGap_eq_skipNewlines arm]

end Gaps

/-! ### Arms -/

/-- A part of a block, behind the gap in front of it: the brace that closes it, or another item. -/
def blockStep {α : Type} (item : Parse α) (rest : Parse (List α)) : Parse (List α) := do
  if (← current).isDelimiter "\x7d" then
    consume
    return []
  else if (← get).atEnd then expected "`\x7d`"
  else
    let first ← item
    return first :: (← rest)

section Steps

variable {α : Type} {item : Parse α} {rest : Parse (List α)} {state : State}

theorem blockStep_of_closes (closes : state.current.isDelimiter "\x7d" = true) :
    blockStep item rest state = (consume >>= fun _ => pure []) state := by
  change (if state.current.isDelimiter "\x7d" then _ else _ : Parse (List α)) state = _
  rw [closes]
  rfl

theorem blockStep_of_ends (ends : state.current.kind = .endOfInput) :
    blockStep item rest state = expected "`\x7d`" state := by
  have closes : state.current.isDelimiter "\x7d" = false :=
    Token.isDelimiter_of_isBlank (by rw [ends]; rfl) _
  change (if state.current.isDelimiter "\x7d" then _ else _ : Parse (List α)) state = _
  rw [closes]
  change (if state.atEnd then _ else _ : Parse (List α)) state = _
  rw [State.atEnd, ends]
  rfl

theorem blockStep_of_goesOn (closes : state.current.isDelimiter "\x7d" = false)
    (more : state.current.kind ≠ .endOfInput) :
    blockStep item rest state = (do
      let first ← item
      return first :: (← rest)) state := by
  change (if state.current.isDelimiter "\x7d" then _ else _ : Parse (List α)) state = _
  rw [closes]
  change (if state.atEnd then _ else _ : Parse (List α)) state = _
  rw [State.atEnd, beq_eq_false_iff_ne.mpr more]
  rfl

end Steps

section Arms

variable {body body' : Parse (List Stmt)} {arm arm' : Parse Arm} {state : State}

theorem mirrors_armUsing (bodies : Mirrors Token.Balanced body body' Stmt.allUncommented) :
    Mirrors Token.Balanced (armUsing body) (armUsing body') Arm.uncommented := by
  refine (mirrors_pattern.imp fun _ => Token.balanced_of_flat).after shape_balanced ?_
  intro found state commented
  cases found with
  | some value => exact (bodies.here commented).map fun _ => rfl
  | none => exact (bodies.here commented).map fun _ => rfl

/-- No pattern begins with a comment. -/
theorem failsWith_armUsing (comment : state.current.kind = .comment) :
    FailsWith (armUsing body) (state.expectation "expression") state := by
  have blank : state.current.kind.isBlank = true := by rw [comment]; rfl
  have operands : operand state = expected "expression" state := by
    rw [operand_eq]
    change (if _ then _ else _ : Parse Expr) state = _
    have number : (state.current.kind == .number) = false := by rw [comment]; rfl
    simp only [number, Bool.false_and, atom?_of_isBlank blank, Token.isDelimiter_of_isBlank blank,
      prefixOperator?_of_isBlank blank]
    rfl
  have patterns : FailsWith pattern (state.expectation "expression") state := by
    have reads : FailsWith (expression .lowest) (state.expectation "expression") state := by
      rw [expression_eq]
      exact FailsWith.bind ⟨_, _, operands, .inl rfl⟩
    have bound : FailsWith (do
        let value ← expression .lowest
        let _ ← expect .operator "->"
        return some value) (state.expectation "expression") state := reads.bind
    refine failsWith_congr ?_ bound
    change (if state.current.isKeyword "default" then _ else _ : Parse (Option Expr)) state = _
    rw [Token.isKeyword_of_isBlank blank]
    rfl
  exact patterns.bind

/-- In front of an arm or of the closing brace, the run without the comments does the same, or a
comment is in the way further on. -/
theorem mirrors_armStep {rest rest' : Parse (List Arm)}
    (arms : Mirrors Token.Balanced arm arm' Arm.uncommented)
    (rests : ∀ state : State, Token.Commented state.rest →
      MirrorsAt Closed Never rest rest' (List.map Arm.uncommented) state ∨
        ∃ error, FailsWith rest error state ∧ Token.ObstructsArm state.rest error)
    (commented : Token.Commented state.rest) (proper : state.current.kind ≠ .comment) :
    MirrorsAt Closed Never (blockStep arm rest) (blockStep arm' rest') (List.map Arm.uncommented)
        state ∨
      ∃ error, FailsWith (blockStep arm rest) error state ∧
        Token.ObstructsArm state.rest error := by
  have same := State.current_cleared proper
  cases closes : state.current.isDelimiter "\x7d" with
  | true =>
      have closing : MirrorsAt Closed Never (consume >>= fun _ => pure [])
          (consume >>= fun _ => pure []) (List.map Arm.uncommented) state :=
        mirrors_closing closes rfl
      exact .inl (closing.congr (blockStep_of_closes closes) (blockStep_of_closes (same ▸ closes)))
  | false =>
      by_cases ends : state.current.kind = .endOfInput
      · exact .inl (.halt ⟨_, _, blockStep_of_ends ends⟩
          ⟨_, _, blockStep_of_ends (same ▸ ends)⟩)
      · have goesOn : blockStep arm rest state = (do
            let first ← arm
            return first :: (← rest)) state := blockStep_of_goesOn closes ends
        have goesOn' : blockStep arm' rest' state.cleared = (do
            let first ← arm'
            return first :: (← rest')) state.cleared :=
          blockStep_of_goesOn (same ▸ closes) (same ▸ ends)
        have mirrors := arms state commented
        cases result : arm state with
        | error halt after =>
            exact .inl (MirrorsAt.congr goesOn goesOn' (.of_bind_error result mirrors))
        | ok first after =>
            unfold MirrorsAt at mirrors
            rw [result] at mirrors
            obtain ⟨⟨part, splits, balanced⟩, same' | never⟩ := mirrors
            · rcases rests after (commented.suffix ⟨part, splits.symm⟩) with
                later | ⟨error, fails, obstructs⟩
              · have more : MirrorsAt Closed Never (rest >>= fun more => pure (first :: more))
                    (rest' >>= fun more => pure (first.uncommented :: more))
                    (List.map Arm.uncommented) after := later.map fun _ => rfl
                exact .inl (.from_later after splits (fun _ => Closed.append balanced)
                  (goesOn.trans (bind_of_ok result)) (goesOn'.trans (bind_of_ok same')) more)
              · refine .inr ⟨error, ?_, ?_⟩
                · exact failsWith_congr (goesOn.trans (bind_of_ok result)) fails.bind
                · rw [splits]
                  exact obstructs.of_append balanced
            · exact never.elim

/-- Among the arms of a switch, the run without the comments does the same, or a comment is in the
way. -/
theorem mirrors_arms (arms : Mirrors Token.Balanced arm arm' Arm.uncommented)
    (takes : Takes arm')
    (patterns : ∀ state : State, state.current.kind = .comment →
      FailsWith arm (state.expectation "expression") state)
    (depth : Nat) (state : State) (commented : Token.Commented state.rest) :
    MirrorsAt Closed Never (blockItems skipToArm arm depth) (inBlock skipToArm arm')
        (List.map Arm.uncommented) state ∨
      ∃ error, FailsWith (blockItems skipToArm arm depth) error state ∧
        Token.ObstructsArm state.rest error := by
  induction depth generalizing state with
  | zero => exact .inl .exhausted
  | succ depth ih =>
      have within : Token.Commented state.skipTrivia.skipNewlines.rest :=
        (commented.suffix (List.dropWhile_suffix _)).suffix (List.dropWhile_suffix _)
      have again : inBlock skipToArm arm' =
          skipToArm >>= fun _ => blockStep arm' (inBlock skipToArm arm') :=
        inBlock_eq (fun _ => ends_skipToArm) takes
      have runs : blockItems skipToArm arm (depth + 1) state =
          blockStep arm (blockItems skipToArm arm depth) state.skipTrivia.skipNewlines := rfl
      by_cases comment : state.skipTrivia.skipNewlines.current.kind = .comment
      · have goesOn : blockStep arm (blockItems skipToArm arm depth)
            state.skipTrivia.skipNewlines = (do
              let first ← arm
              return first :: (← blockItems skipToArm arm depth)) _ :=
          blockStep_of_goesOn (Token.isDelimiter_of_isBlank (by rw [comment]; rfl) _)
            (by simp [comment])
        exact .inr ⟨_, failsWith_congr (runs.trans goesOn) (patterns _ comment).bind,
          State.obstructsArm_of_skip comment⟩
      · have runs' : inBlock skipToArm arm' state.cleared =
            blockStep arm' (inBlock skipToArm arm') state.skipTrivia.skipNewlines.cleared := by
          rw [congrFun again state.cleared, ← State.skipToArm_cleared comment]
          rfl
        obtain ⟨gap, splits, flat⟩ := state.exists_gap_of_skip
        rcases mirrors_armStep arms ih within comment with mirrors | ⟨error, fails, obstructs⟩
        · exact .inl (.from_later _ splits (fun _ => Closed.append flat) runs runs' mirrors)
        · refine .inr ⟨error, failsWith_congr runs fails, ?_⟩
          rw [splits]
          exact obstructs.of_append flat

/-- Between its braces a switch is read alike, or a comment is in the way there. -/
theorem mirrors_switchBody (arms : Mirrors Token.Balanced arm arm' Arm.uncommented)
    (takes : Takes arm')
    (patterns : ∀ state : State, state.current.kind = .comment →
      FailsWith arm (state.expectation "expression") state)
    (commented : Token.Commented state.rest) :
    MirrorsAt Token.Balanced Never (block skipToArm arm) (block skipToArm arm')
        (List.map Arm.uncommented) state ∨
      ∃ error opening later, FailsWith (block skipToArm arm) error state ∧
        state.rest = opening :: later ∧ opening.isDelimiter "\x7b" = true ∧
        Token.ObstructsArm later error := by
  rcases expect_opening commented with
    ⟨opens, splits, reads, reads'⟩ | ⟨⟨_, _, fails⟩, _, _, fails'⟩
  · have runs (arm : Parse Arm) : block skipToArm arm state =
        blockItems skipToArm arm (state.advance.rest.length + 1) state.advance := bind_of_ok reads
    rcases mirrors_arms arms takes patterns (state.advance.rest.length + 1) state.advance
      (commented.suffix state.advance_suffix) with mirrors | ⟨error, fails, obstructs⟩
    · refine .inl (.from_later state.advance splits (fun more closed => ?_) (runs arm)
        (bind_of_ok reads') mirrors)
      obtain ⟨inner, closing, rfl, balanced, isClosing⟩ := closed
      exact .nest opens balanced isClosing .nil
    · exact .inr ⟨error, _, _, failsWith_congr (runs arm) fails, splits, opens, obstructs⟩
  · exact .inl (.halt ⟨_, _, bind_of_error fails⟩ ⟨_, _, bind_of_error fails'⟩)

end Arms

end Parse

end SmallLang
