import Mathlib.Data.List.DropRight
import SmallLang.Proofs.Comment.Sequences

/-!
# Line ends in a row

A parser takes at most one line end of a row by itself, and only at the end of a statement. It skips
all others. So it does the same, in the same places, if no line end follows another one.
-/

set_option autoImplicit false

namespace SmallLang

namespace Token

section MergeLines

variable (open? : Bool) (tokens : List Token)

theorem mergeLines_cons (first : Token) (rest : List Token) :
    mergeLines true (first :: rest) =
      first :: mergeLines (first.kind != .endOfLine) rest := by
  cases lineEnd : first.kind == .endOfLine <;> simp [mergeLines, bne, lineEnd]

/-- What skips line ends skips as far with some of them left out. -/
theorem dropWhile_mergeLines {skipped : Token → Bool}
    (lineEnds : ∀ token, token.kind = .endOfLine → skipped token = true) :
    (mergeLines open? tokens).dropWhile skipped = mergeLines true (tokens.dropWhile skipped) := by
  induction tokens generalizing open? with
  | nil => rfl
  | cons first rest ih =>
      by_cases lineEnd : first.kind = .endOfLine
      · have drops := lineEnds first lineEnd
        cases open? <;> simp [mergeLines, lineEnd, drops, ih]
      · cases drops : skipped first <;> simp [mergeLines, lineEnd, drops, ih]

theorem find?_mergeLines {wanted : Token → Bool}
    (lineEnds : ∀ token, token.kind = .endOfLine → wanted token = false) :
    (mergeLines open? tokens).find? wanted = tokens.find? wanted := by
  induction tokens generalizing open? with
  | nil => rfl
  | cons first rest ih =>
      by_cases lineEnd : first.kind = .endOfLine
      · have passed := lineEnds first lineEnd
        cases open? <;> simp [mergeLines, lineEnd, passed, ih]
      · cases found : wanted first <;> simp [mergeLines, lineEnd, found, ih]

theorem takeWhile_mergeLines {kept : Token → Bool}
    (lineEnds : ∀ token, token.kind = .endOfLine → kept token = true) :
    (mergeLines open? tokens).takeWhile kept = mergeLines open? (tokens.takeWhile kept) := by
  induction tokens generalizing open? with
  | nil => rfl
  | cons first rest ih =>
      by_cases lineEnd : first.kind = .endOfLine
      · have keeps := lineEnds first lineEnd
        cases open? <;> simp [mergeLines, lineEnd, keeps, ih]
      · cases keeps : kept first <;> simp [mergeLines, lineEnd, keeps, ih]

end MergeLines

end Token

namespace Parse

variable {α β : Type}

namespace State

/-- A state in which no line end follows another one. -/
def merged (state : State) : State := { state with rest := Token.mergeLines true state.rest }

variable {state : State}

@[simp] theorem current_merged (state : State) : state.merged.current = state.current := by
  cases tokens : state.rest with
  | nil => simp [current, merged, tokens, Token.mergeLines]
  | cons first rest => simp [current, merged, tokens, Token.mergeLines_cons]

/-- Behind a token, the line ends to come are merged; all of them are left out behind one. -/
theorem rest_advance_merged (state : State) :
    state.merged.advance.rest =
      Token.mergeLines (state.current.kind != .endOfLine) state.advance.rest := by
  cases tokens : state.rest with
  | nil => simp [advance, merged, tokens, Token.mergeLines]
  | cons first rest => simp [advance, current, merged, tokens, Token.mergeLines_cons]

theorem advance_merged (other : state.current.kind ≠ .endOfLine) :
    state.merged.advance = state.advance.merged := by
  have rest := rest_advance_merged state
  rw [bne_iff_ne.mpr other] at rest
  exact congrArg (fun rest => { state with rest := rest }) rest

theorem skipTrivia_merged (state : State) :
    state.merged.skipTrivia = state.skipTrivia.merged := by
  have lineEnds (token : Token) (lineEnd : token.kind = .endOfLine) : isTrivia token = true := by
    simp [isTrivia, lineEnd]
  simp only [skipTrivia, merged, Token.dropWhile_mergeLines _ _ lineEnds]

theorem dropWhile_isSeparator_mergeLines (open? : Bool) (tokens : List Token) :
    (Token.mergeLines open? tokens).dropWhile isSeparator =
      Token.mergeLines true (tokens.dropWhile isSeparator) :=
  Token.dropWhile_mergeLines _ _ fun token lineEnd => by simp [isSeparator, lineEnd]

theorem skipNewlines_merged (state : State) :
    state.merged.skipNewlines = state.skipNewlines.merged := by
  simp only [skipNewlines, merged, dropWhile_isSeparator_mergeLines]

theorem peekPastNewlines_merged (state : State) :
    state.merged.peekPastNewlines = state.peekPastNewlines := by
  have lineEnds (token : Token) (lineEnd : token.kind = .endOfLine) :
      (token.kind != .endOfLine) = false := by simp [lineEnd]
  simp only [peekPastNewlines, merged, Token.find?_mergeLines _ _ lineEnds]

/-- Behind the end of a line, the same is left once the rest of the gap is skipped. -/
theorem skipNewlines_advance_merged (state : State) :
    state.merged.advance.skipNewlines = state.advance.skipNewlines.merged := by
  have rest := congrArg (List.dropWhile isSeparator) (rest_advance_merged state)
  rw [dropWhile_isSeparator_mergeLines] at rest
  exact congrArg (fun rest => { state with rest := rest }) rest

theorem skipNewlines_skipNewlines (state : State) :
    state.skipNewlines.skipNewlines = state.skipNewlines := by
  simp only [skipNewlines, List.dropWhile_idempotent isSeparator state.rest]

theorem kind_current_skipNewlines (state : State) :
    state.skipNewlines.current.kind ≠ .endOfLine := by
  intro lineEnd
  have more : state.skipNewlines.current.kind ≠ .endOfInput := by simp [lineEnd]
  obtain ⟨later, rest⟩ := exists_rest_of_more more
  have separates := isSeparator_current_skipNewlines rest
  simp [isSeparator, lineEnd] at separates

end State

/-! ### Two runs -/

/-- Where no line end follows another one, a parser ends as another one does otherwise: with the
same value in the same place, or with the same error. -/
def MergesAt (parser parser' : Parse α) (state : State) : Prop :=
  match parser state with
  | .ok value after => parser' state.merged = .ok value after.merged
  | .error (.error error) _ => ∃ after, parser' state.merged = .error (.error error) after
  | .error .exhausted _ => True

/-- Two parsers end in the same way from everywhere. -/
def Merges (parser parser' : Parse α) : Prop := ∀ state, MergesAt parser parser' state

namespace MergesAt

variable {state : State}

theorem from_later {first first' second second' : Parse α} (later : State)
    (same : first state = second later) (same' : first' state.merged = second' later.merged)
    (merges : MergesAt second second' later) : MergesAt first first' state := by
  unfold MergesAt at *
  rwa [same, same']

theorem pure (value : α) : MergesAt (Pure.pure value) (Pure.pure value) state := rfl

theorem fail {error : Error} : MergesAt (Parse.fail error : Parse α) (Parse.fail error) state :=
  ⟨_, rfl⟩

theorem expected {what : String} :
    MergesAt (Parse.expected what : Parse α) (Parse.expected what) state := by
  refine ⟨state.merged, ?_⟩
  simp only [Parse.expected, State.expectation, State.current_merged]

theorem of_exhausted {parser parser' : Parse α} {after : State}
    (exhausted : parser state = .error .exhausted after) : MergesAt parser parser' state := by
  unfold MergesAt
  rw [exhausted]
  trivial

theorem of_error {parser parser' : Parse α} {error : Error} {after after' : State}
    (fails : parser state = .error (.error error) after)
    (fails' : parser' state.merged = .error (.error error) after') :
    MergesAt parser parser' state := by
  unfold MergesAt
  rw [fails]
  exact ⟨after', fails'⟩

theorem bind {first first' : Parse β} {next next' : β → Parse α}
    (begins : MergesAt first first' state)
    (goesOn : ∀ value after, first state = .ok value after →
      MergesAt (next value) (next' value) after) :
    MergesAt (first >>= next) (first' >>= next') state := by
  cases result : first state with
  | ok value after =>
      unfold MergesAt at begins
      rw [result] at begins
      exact from_later after (bind_of_ok result) (bind_of_ok begins) (goesOn value after result)
  | error halt after =>
      cases halt with
      | exhausted => exact of_exhausted (bind_of_error result)
      | error error =>
          unfold MergesAt at begins
          rw [result] at begins
          obtain ⟨after', fails⟩ := begins
          exact of_error (bind_of_error result) (bind_of_error fails)

theorem current_bind {next next' : Token → Parse α}
    (merges : MergesAt (next state.current) (next' state.current) state) :
    MergesAt (current >>= next) (current >>= next') state := by
  refine from_later state rfl ?_ merges
  change next' state.merged.current state.merged = _
  rw [State.current_merged]

theorem get_bind {next next' : State → Parse α}
    (merges : MergesAt (next state) (next' state.merged) state) :
    MergesAt (get >>= next) (get >>= next') state := from_later state rfl rfl merges

/-- Behind any token but a line end, both runs are in the same place. -/
theorem advance_bind {next next' : Token → Parse α} (other : state.current.kind ≠ .endOfLine)
    (merges : MergesAt (next state.current) (next' state.current) state.advance) :
    MergesAt (advance >>= next) (advance >>= next') state := by
  refine from_later state.advance rfl ?_ merges
  change next' state.merged.current state.merged.advance = _
  rw [State.current_merged, State.advance_merged other]

theorem consume (other : state.current.kind ≠ .endOfLine) :
    MergesAt Parse.consume Parse.consume state :=
  congrArg (EStateM.Result.ok ()) (State.advance_merged other)

theorem consume_bind {next next' : Unit → Parse α} (other : state.current.kind ≠ .endOfLine)
    (merges : MergesAt (next ()) (next' ()) state.advance) :
    MergesAt (Parse.consume >>= next) (Parse.consume >>= next') state :=
  (consume other).bind fun _ _ result => by
    cases result
    exact merges

theorem modify_bind {change : State → State} {next next' : PUnit → Parse α}
    (same : change state.merged = (change state).merged)
    (merges : MergesAt (next ()) (next' ()) (change state)) :
    MergesAt (modify change >>= next) (modify change >>= next') state := by
  refine from_later (change state) rfl ?_ merges
  change next' () (change state.merged) = _
  rw [same]

end MergesAt

namespace Merges

theorem pure (value : α) : Merges (Pure.pure value) (Pure.pure value) := fun _ => .pure _

theorem exhausted {parser' : Parse α} : Merges Parse.exhausted parser' := fun _ => trivial

theorem expected {what : String} :
    Merges (Parse.expected what : Parse α) (Parse.expected what) := fun _ => .expected

theorem bind {first first' : Parse β} {next next' : β → Parse α} (begins : Merges first first')
    (goesOn : ∀ value, Merges (next value) (next' value)) :
    Merges (first >>= next) (first' >>= next') :=
  fun state => (begins state).bind fun value after _ => goesOn value after

theorem skipTrivia : Merges Parse.skipTrivia Parse.skipTrivia := fun state =>
  congrArg (EStateM.Result.ok ()) state.skipTrivia_merged

theorem skipNewlines : Merges Parse.skipNewlines Parse.skipNewlines := fun state =>
  congrArg (EStateM.Result.ok ()) state.skipNewlines_merged

/-- A token that is passed over if it is the right one, and otherwise stays where it is. -/
theorem take {kind : Token.Kind} {text : String} {yes yes' no no' : Parse α}
    (proper : kind ≠ .endOfLine) (first : Merges yes yes') (second : Merges no no') :
    Merges (do if (← current).is kind text then do Parse.consume; yes else no)
      (do if (← current).is kind text then do Parse.consume; yes' else no') := by
  refine fun state => .current_bind ?_
  split
  · next found => exact .consume_bind (Token.kind_of_is found ▸ proper) (first _)
  · exact second state

theorem expect {kind : Token.Kind} {text : String} (proper : kind ≠ .endOfLine) :
    Merges (Parse.expect kind text) (Parse.expect kind text) := by
  refine fun state => .current_bind ?_
  split
  · next found =>
      have moves : MergesAt (Parse.advance >>= Pure.pure) (Parse.advance >>= Pure.pure) state :=
        .advance_bind (Token.kind_of_is found ▸ proper) (.pure _)
      rwa [bind_pure] at moves
  · exact .expected

theorem identifier (what : String) :
    Merges (Parse.identifier what) (Parse.identifier what) := by
  refine fun state => .current_bind ?_
  split
  · next found =>
      exact .advance_bind (by simp [beq_iff_eq.mp found]) (.pure _)
  · exact .expected

theorem typeName : Merges Parse.typeName Parse.typeName := by
  refine fun state => .current_bind ?_
  split
  · next found =>
      refine .consume_bind ?_ (.pure _)
      rcases Bool.or_eq_true_iff.mp found with found | found
      · simp [beq_iff_eq.mp found]
      · simp [Token.kind_of_is found]
  · exact .expected

theorem listSeparator : Merges Parse.listSeparator Parse.listSeparator := by
  refine fun state => .current_bind ?_
  split
  · next found => exact .consume (by simp [Token.kind_of_is found])
  · split
    · exact .pure _
    · exact .expected

section Lists

variable {item item' : Parse α} (same : Merges item item') (takes : Takes item')
include same takes

theorem listItems (depth : Nat) : Merges (Parse.listItems item depth) (Parse.items item') := by
  induction depth with
  | zero => exact exhausted
  | succ depth ih =>
      rw [items_eq takes]
      refine skipTrivia.bind fun _ state => .current_bind ?_
      split
      · exact .pure _
      · exact same.bind (fun _ => skipTrivia.bind fun _ => listSeparator.bind fun _ =>
          ih.bind fun _ => pure _) state

theorem list : Merges (Parse.list item) (Parse.list item') := by
  have found : Merges (Parse.items item) (Parse.items item') := fun state =>
    .from_later state rfl rfl (listItems same takes state.rounds state)
  rw [list_eq, list_eq]
  exact found.bind fun _ => (expect (by decide)).bind fun _ => pure _

end Lists

end Merges

end Parse

end SmallLang
