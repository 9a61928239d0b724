import SmallLang.Proofs.Parse.Unbounded.Loops

/-!
# The parser moves forward

A parser that holds its tokens in an array, and its place as an index into it, never reads outside
the array: the places are those up to the first end of input. Every part of the parser that succeeds
has moved on, and one that fails has not moved back. So the parser ends, and has read every token
before the end of input if it finds a program.
-/

set_option autoImplicit false

namespace SmallLang

namespace Parse

/-! ## Cursors -/

/-- A place in an array of tokens. -/
structure Cursor where
  tokens : List Token
  index : Nat

namespace Cursor

/-- The start of some tokens, which an end of input closes unless they have one at their end. -/
def ofTokens (tokens : List Token) : Cursor where
  tokens :=
    if tokens.getLast?.any (·.kind == .endOfInput) then tokens
    else tokens ++ [State.endOf tokens]
  index := 0

/-- Where the first end of input stands. -/
def finish (cursor : Cursor) : Nat := cursor.tokens.findIdx (·.kind == .endOfInput)

/-- The token to be read next, or the last one behind the end. Without tokens there is none. -/
def current? (cursor : Cursor) : Option Token :=
  cursor.tokens[min cursor.index (cursor.tokens.length - 1)]?

/-- The place behind the next token, unless that is an end of input. -/
def advance? (cursor : Cursor) : Option Cursor :=
  cursor.current?.map fun token =>
    if token.kind == .endOfInput then cursor else { cursor with index := cursor.index + 1 }

/-- The next token that is no line end. There is no slice of the tokens from behind the end. -/
def peekPastNewlines? (cursor : Cursor) : Option Token :=
  if cursor.index ≤ cursor.tokens.length then
    ((cursor.tokens.drop cursor.index).find? (·.kind != .endOfLine)).or cursor.current?
  else none

/-- Moving on for as long as a token is to be skipped. -/
inductive Skips (skipped : Token → Bool) : Cursor → Cursor → Prop where
  | stay {cursor token} : cursor.current? = some token → skipped token = false →
      Skips skipped cursor cursor
  | move {cursor token next last} : cursor.current? = some token → skipped token = true →
      cursor.advance? = some next → Skips skipped next last → Skips skipped cursor last

end Cursor

/-- The place of a parser in an array: what is to be read there, up to the first end of input. -/
structure State.At (cursor : Cursor) (state : State) : Prop where
  within : cursor.index ≤ cursor.finish
  rest : state.rest = (cursor.tokens.take cursor.finish).drop cursor.index
  stop : cursor.tokens[cursor.finish]? = some state.stop

/-- What a parser does in one step, a cursor at its place does too, and nothing that the cursor
reads is outside its array. -/
structure Cursor.Mimics (cursor : Cursor) (state : State) : Prop where
  current : cursor.current? = some state.current
  peekPastNewlines : cursor.peekPastNewlines? = some state.peekPastNewlines
  advance : ∃ next, cursor.advance? = some next ∧ state.advance.At next
  skipNewlines : ∃ next, cursor.Skips State.isSeparator next ∧ state.skipNewlines.At next
  skipTrivia : ∃ next, cursor.Skips State.isTrivia next ∧ state.skipTrivia.At next

namespace State.At

variable {cursor : Cursor} {state : State}

theorem finish_lt (here : state.At cursor) : cursor.finish < cursor.tokens.length :=
  (List.getElem?_eq_some_iff.mp here.stop).1

theorem index_lt (here : state.At cursor) : cursor.index < cursor.tokens.length :=
  Nat.lt_of_le_of_lt here.within here.finish_lt

theorem length_rest (here : state.At cursor) :
    state.rest.length = cursor.finish - cursor.index := by
  have := here.finish_lt
  rw [here.rest, List.length_drop, List.length_take]
  omega

theorem getElem?_index (here : state.At cursor) :
    cursor.tokens[cursor.index]? = some state.current := by
  rw [State.current, List.headD_eq_head?_getD, here.rest, List.head?_drop, List.getElem?_take]
  split
  · next more => rw [List.getElem?_eq_getElem here.index_lt, Option.getD_some]
  · next none =>
      have last : cursor.index = cursor.finish := Nat.le_antisymm here.within (Nat.not_lt.mp none)
      rw [last, here.stop, Option.getD_none]

theorem current? (here : state.At cursor) : cursor.current? = some state.current := by
  have inside : min cursor.index (cursor.tokens.length - 1) = cursor.index :=
    Nat.min_eq_left (Nat.le_sub_one_of_lt here.index_lt)
  rw [Cursor.current?, inside, here.getElem?_index]

/-- The next token is the end of input exactly where the first one stands. -/
theorem current_kind_iff (here : state.At cursor) :
    state.current.kind = .endOfInput ↔ cursor.index = cursor.finish := by
  constructor
  · intro ended
    apply Nat.le_antisymm here.within
    apply Nat.not_lt.mp
    intro more
    have other := List.not_of_lt_findIdx more
    have same := List.getElem?_eq_some_iff.mp here.getElem?_index
    obtain ⟨_, same⟩ := same
    simp [same, ended] at other
  · intro last
    have same := here.getElem?_index
    rw [last, here.stop] at same
    rw [← Option.some.inj same]
    exact state.stop_kind

theorem advance (here : state.At cursor) :
    ∃ next, cursor.advance? = some next ∧ state.advance.At next := by
  have moved : cursor.advance? = some (if state.current.kind == .endOfInput then cursor
      else { cursor with index := cursor.index + 1 }) := by
    rw [Cursor.advance?, here.current?, Option.map_some]
  refine ⟨_, moved, ?_⟩
  have tail : state.advance.rest = (cursor.tokens.take cursor.finish).drop (cursor.index + 1) := by
    rw [State.advance, here.rest, List.tail_drop]
  split
  · next ended =>
      have last := here.current_kind_iff.mp (beq_iff_eq.mp ended)
      refine ⟨here.within, ?_, here.stop⟩
      rw [tail, List.drop_eq_nil_of_le, List.drop_eq_nil_of_le]
      · rw [last]
        exact List.length_take_le ..
      · rw [last]
        exact Nat.le_succ_of_le (List.length_take_le ..)
  · next more =>
      have other : cursor.index ≠ cursor.finish := by simpa [here.current_kind_iff] using more
      exact ⟨Nat.lt_of_le_of_ne here.within other, tail, here.stop⟩

theorem peekPastNewlines (here : state.At cursor) :
    cursor.peekPastNewlines? = some state.peekPastNewlines := by
  have before : cursor.tokens.drop cursor.index =
      state.rest ++ cursor.tokens.drop cursor.finish := by
    have inside : cursor.index ≤ (cursor.tokens.take cursor.finish).length := by
      rw [List.length_take]
      exact Nat.le_min.mpr ⟨here.within, Nat.le_of_lt here.index_lt⟩
    rw [here.rest, ← List.drop_append_of_le_length inside, List.take_append_drop]
  have ended : (cursor.tokens.drop cursor.finish).find? (·.kind != .endOfLine) =
      some state.stop := by
    rw [List.drop_eq_getElem_cons here.finish_lt,
      (List.getElem?_eq_some_iff.mp here.stop).2]
    exact List.find?_cons_of_pos (by simp [state.stop_kind])
  rw [Cursor.peekPastNewlines?, if_pos (Nat.le_of_lt here.index_lt), before, List.find?_append,
    ended, State.peekPastNewlines]
  cases state.rest.find? (·.kind != .endOfLine) <;> rfl

/-- A loop over tokens to be skipped ends, since the end of input is none of them. -/
theorem skips {skipped : Token → Bool} {after : State}
    (never : ∀ token, token.kind = .endOfInput → skipped token = false) (here : state.At cursor)
    (rest : after.rest = state.rest.dropWhile skipped) (stop : after.stop = state.stop) :
    ∃ next, cursor.Skips skipped next ∧ after.At next := by
  generalize tokens : state.rest = ahead at rest
  induction ahead generalizing cursor state with
  | nil =>
      have ended := State.current_of_rest_nil tokens
      exact ⟨cursor, .stay here.current? (never _ ended), here.within,
        by rw [rest, ← here.rest, tokens]; rfl, by rw [stop, here.stop]⟩
  | cons token ahead ih =>
      have current : state.current = token := by simp [State.current, tokens]
      cases skips : skipped token with
      | false =>
          rw [List.dropWhile_cons_of_neg (by simp [skips])] at rest
          exact ⟨cursor, .stay here.current? (current ▸ skips), here.within,
            by rw [rest, ← here.rest, tokens], by rw [stop, here.stop]⟩
      | true =>
          rw [List.dropWhile_cons_of_pos skips] at rest
          obtain ⟨next, moved, there⟩ := here.advance
          obtain ⟨last, others, ended⟩ := ih there stop (by simp [State.advance, tokens]) rest
          exact ⟨last, .move here.current? (current ▸ skips) moved others, ended⟩

theorem mimics (here : state.At cursor) : cursor.Mimics state where
  current := here.current?
  peekPastNewlines := here.peekPastNewlines
  advance := here.advance
  skipNewlines := skips (fun token ended => by
    simp [State.isSeparator, Token.isDelimiter, Token.is, ended]) here rfl rfl
  skipTrivia := skips (fun token ended => by simp [State.isTrivia, ended]) here rfl rfl

/-- Fewer tokens ahead, up to the same end of input, are those from a later place on. -/
theorem later (here : state.At cursor) {after : State} (suffix : after.rest <:+ state.rest)
    (stop : after.stop = state.stop) :
    ∃ index, cursor.index + (state.rest.length - after.rest.length) = index ∧
      after.At { cursor with index } := by
  have count := here.length_rest
  have within := here.within
  refine ⟨_, rfl, ?_, ?_, by rw [stop]; exact here.stop⟩
  · change cursor.index + (state.rest.length - after.rest.length) ≤ cursor.finish
    omega
  · calc after.rest = state.rest.drop (state.rest.length - after.rest.length) :=
          List.suffix_iff_eq_drop.mp suffix
      _ = (cursor.tokens.take cursor.finish).drop _ := by rw [here.rest, List.drop_drop]

end State.At

/-- The end of input that closes the tokens changes nothing of what is ahead of it. -/
theorem Cursor.ahead_ofTokens (tokens : List Token) :
    (ofTokens tokens).tokens.takeWhile (·.kind != .endOfInput) =
        tokens.takeWhile (·.kind != .endOfInput) ∧
      (ofTokens tokens).tokens.find? (·.kind == .endOfInput) = some (State.stopOf tokens) := by
  unfold ofTokens State.stopOf
  dsimp only
  split
  · next closed =>
      refine ⟨rfl, ?_⟩
      obtain ⟨last, isLast, ended⟩ := (Option.any_eq_true ..).mp closed
      have present : (tokens.find? (·.kind == .endOfInput)).isSome :=
        List.find?_isSome.mpr ⟨last, List.mem_of_getLast? isLast, ended⟩
      obtain ⟨first, found⟩ := Option.isSome_iff_exists.mp present
      rw [found, Option.getD_some]
  · constructor
    · rw [List.takeWhile_append]
      split
      · next all =>
          have whole := List.IsPrefix.eq_of_length (List.takeWhile_prefix _) all
          simp [whole, State.endOf_kind]
      · rfl
    · rw [List.find?_append]
      cases tokens.find? (·.kind == .endOfInput) <;> simp [State.endOf_kind]

theorem at_ofTokens (tokens : List Token) : (State.ofTokens tokens).At (.ofTokens tokens) := by
  obtain ⟨rest, stop⟩ := Cursor.ahead_ofTokens tokens
  refine ⟨Nat.zero_le _, ?_, ?_⟩
  · have same : (fun token : Token => !(token.kind != .endOfInput)) =
        fun token => token.kind == .endOfInput := by
      funext token
      exact Bool.not_not _
    rw [List.takeWhile_eq_take_findIdx_not, same] at rest
    exact rest.symm
  · rw [List.find?_eq_getElem?_findIdx] at stop
    exact stop

/-! ## Progress -/

/-- From every place, a parser ends by itself: further on if it succeeds, and not before the place
where it began if it fails, in either case not behind the first end of input. -/
def Progresses {α : Type} (parser : Parse α) : Prop :=
  ∀ {cursor : Cursor} {state : State}, state.At cursor →
    (∃ value after index, parser state = .ok value after ∧
      cursor.index < index ∧ after.At { cursor with index }) ∨
    ∃ error after index, parser state = .error (.error error) after ∧
      cursor.index ≤ index ∧ after.At { cursor with index }

theorem Takes.progresses {α : Type} {parser : Parse α} (takes : Takes parser) :
    Progresses parser := by
  intro cursor state here
  have ends := takes state
  unfold Ends at ends
  cases result : parser state with
  | ok value after =>
      rw [result] at ends
      obtain ⟨suffix, stop, fewer⟩ := ends
      obtain ⟨index, moved, there⟩ := here.later suffix stop
      exact .inl ⟨value, after, index, rfl, by omega, there⟩
  | error halt after =>
      rw [result] at ends
      obtain ⟨reason, suffix, stop⟩ := ends
      obtain ⟨index, moved, there⟩ := here.later suffix stop
      cases halt with
      | error error => exact .inr ⟨error, after, index, rfl, by omega, there⟩
      | exhausted => exact absurd rfl reason

/-- A program is found only at the end of input. -/
theorem current_kind_of_programWithin (depth : Nat) {state after : State} {found : Program}
    (result : programWithin depth state = .ok found after) : after.current.kind = .endOfInput := by
  induction depth generalizing state found with
  | zero => cases result
  | succ depth ih =>
      obtain ⟨_, skipped, _, result⟩ := exists_of_bind result
      obtain ⟨_, _, ⟨⟩, result⟩ := exists_of_bind result
      split at result
      · next ended =>
          cases result
          exact beq_iff_eq.mp ended
      · obtain ⟨_, read, _, result⟩ := exists_of_bind result
        obtain ⟨_, next, _, result⟩ := exists_of_bind result
        obtain ⟨_, last, rest, ⟨⟩⟩ := exists_of_bind result
        exact ih rest

/-- More depth than a state asks for changes nothing. -/
theorem NeverExhausted.eq_of_le {α : Type} {bound : State → Nat} {family : Nat → Parse α}
    (enough : NeverExhausted bound family)
    (step : ∀ depth, Approximates (family depth) (family (depth + 1))) {state : State} {depth : Nat}
    (le : bound state ≤ depth) : family depth state = deepEnough bound family state :=
  Approximates.of_le step le state (enough state)

/-- The parser starts at the first token and goes from one token to the next, in an array that has
each token that it looks at. Every part of it moves on, whatever the tokens are, and no part asks
for a depth without bound. So the parser ends, and where it finds a program, it has read every
token before the first end of input. -/
theorem parser_progresses (tokens : List Token) :
    (State.ofTokens tokens).At (.ofTokens tokens) ∧
    (∀ (cursor : Cursor) (state : State), state.At cursor → cursor.Mimics state) ∧
    (Progresses statement ∧ (∀ power, Progresses (expression power)) ∧ Progresses typeName ∧
      Progresses statements) ∧
    (∀ (state : State) (depth : Nat), state.depth ≤ depth →
      programWithin depth state = program state ∧ statementWithin depth state = statement state ∧
      blockWithin depth state = statements state ∧
      ∀ power, expressionWithin depth power state = expression power state) ∧
    ((∃ found after, Program.parse tokens = .ok found ∧
        program (.ofTokens tokens) = .ok found after ∧
        after.At { Cursor.ofTokens tokens with index := (Cursor.ofTokens tokens).finish }) ∨
      ∃ error after index, Program.parse tokens = .error error ∧
        program (.ofTokens tokens) = .error (.error error) after ∧
        after.At { Cursor.ofTokens tokens with index }) := by
  have here := at_ofTokens tokens
  refine ⟨here, fun _ _ => State.At.mimics, ⟨?_, ?_, ?_, ?_⟩, ?_, ?_⟩
  · exact Takes.progresses ends_statement
  · exact fun power => Takes.progresses (ends_expression power)
  · exact Takes.progresses fun _ => ends_typeName
  · exact Takes.progresses ends_statements
  · intro state depth le
    have more : state.depth = 3 * state.rest.length + 3 := rfl
    have programs : NeverExhausted State.rounds programWithin := fun state _ =>
      (ends_programWithin _ state (Nat.lt_succ_self _)).ne_exhausted
    refine ⟨programs.eq_of_le approximates_programWithin_succ ?_, ?_, ?_, ?_⟩
    · unfold State.rounds
      omega
    · exact neverExhausted_statementWithin.eq_of_le
        (fun depth => (approximates_statementWithin_succ depth).1) le
    · exact neverExhausted_blockWithin.eq_of_le
        (fun depth => (approximates_statementWithin_succ depth).2.1) le
    · exact fun power => (neverExhausted_expressionWithin power).eq_of_le
        (fun depth => (approximates_expressionWithin_succ depth).1 power) (by omega)
  · have ends := ends_program (.ofTokens tokens)
    unfold Ends at ends
    cases result : program (.ofTokens tokens) with
    | ok found after =>
        rw [result] at ends
        obtain ⟨index, _, there⟩ := here.later ends.1 ends.2.1
        have last := there.current_kind_iff.mp (current_kind_of_programWithin _ result)
        obtain rfl : index = (Cursor.ofTokens tokens).finish := last
        exact .inl ⟨found, after, Program.parse_eq_ok_iff.mpr ⟨after, result⟩, rfl, there⟩
    | error halt after =>
        rw [result] at ends
        obtain ⟨index, _, there⟩ := here.later ends.2.1 ends.2.2
        cases halt with
        | error error =>
            exact .inr ⟨error, after, index, Program.parse_eq_error_iff.mpr ⟨after, result⟩, rfl,
              there⟩
        | exhausted => exact absurd rfl ends.1

/-- A loop whose block is cut off by an end of input, behind which the closing brace stands. -/
def truncated : List Token :=
  [⟨.keyword, "while", .emptyAt .null⟩, ⟨.identifier, "x", .emptyAt .null⟩,
    ⟨.delimiter, "\x7b", .emptyAt .null⟩, ⟨.endOfInput, "EOF", .emptyAt .null⟩,
    ⟨.delimiter, "\x7d", .emptyAt .null⟩]

/-- The parser stops at the end of input, before the brace. -/
theorem parser_progresses_truncated :
    (State.ofTokens truncated).At (.ofTokens truncated) ∧
    (Cursor.ofTokens truncated).Mimics (.ofTokens truncated) ∧
    ∃ error after index, Program.parse truncated = .error error ∧
      program (.ofTokens truncated) = .error (.error error) after ∧
      index ≤ 3 ∧ after.At { Cursor.ofTokens truncated with index } := by
  obtain ⟨here, mimics, _, _, ends⟩ := parser_progresses truncated
  have fails : (Program.parse truncated).toOption = none := rfl
  refine ⟨here, mimics _ _ here, ?_⟩
  rcases ends with ⟨found, after, parsed, _⟩ | ⟨error, after, index, parsed, result, there⟩
  · rw [parsed] at fails
    cases fails
  · exact ⟨error, after, index, parsed, result, there.within, there⟩

end Parse

end SmallLang
