import SmallLang.Proofs.Comment.Parts
import SmallLang.Proofs.Comment.Sequences

/-!
# Blocks, branches and arms without the comments

A block is read alike with its comments and without them. Behind a branch a comment hides an `else`,
and between the arms of a switch a comment behind a semicolon is taken for a pattern.
-/

set_option autoImplicit false

namespace SmallLang.Parse

/-- Balanced tokens and the brace that closes them. -/
def Closed (tokens : List Token) : Prop :=
  ∃ inner closing, tokens = inner ++ [closing] ∧ Token.Balanced inner ∧
    closing.isDelimiter "\x7d" = true

theorem Closed.append {part more : List Token} (balanced : Token.Balanced part)
    (closed : Closed more) : Closed (part ++ more) := by
  obtain ⟨inner, closing, rfl, balanced', isClosing⟩ := closed
  exact ⟨part ++ inner, closing, (List.append_assoc _ _ _).symm, balanced.append balanced',
    isClosing⟩

section Blocks

variable {α : Type} {state : State}

/-- Where a block closes, both runs read its brace. -/
theorem mirrors_closing {loose : List Token → Prop} {clean : α → α} {value value' : α}
    (brace : state.current.isDelimiter "\x7d" = true) (same : clean value = value') :
    MirrorsAt Closed loose (consume >>= fun _ => pure value) (consume >>= fun _ => pure value')
      clean state := by
  have solid := Token.isBlank_of_is brace rfl
  obtain ⟨later, rest⟩ := State.exists_rest_of_solid solid
  have splits : state.rest = [state.current] ++ state.advance.rest := by
    rw [State.advance, rest]
    rfl
  have closes : Closed [state.current] := ⟨[], state.current, rfl, .nil, brace⟩
  refine ⟨⟨_, splits, closes⟩, .inl ?_⟩
  change EStateM.Result.ok value' state.cleared.advance = _
  rw [State.advance_cleared solid, ← same]

/-- Where a block should open, both runs read its brace, or none does. -/
theorem expect_opening (commented : Token.Commented state.rest) :
    (state.current.isDelimiter "\x7b" = true ∧ state.rest = [state.current] ++ state.advance.rest ∧
      expect .delimiter "\x7b" state = .ok state.current state.advance ∧
      expect .delimiter "\x7b" state.cleared = .ok state.current state.advance.cleared) ∨
    (∃ halt after, expect .delimiter "\x7b" state = .error halt after) ∧
      ∃ halt after, expect .delimiter "\x7b" state.cleared = .error halt after := by
  have unfolds (state : State) : expect .delimiter "\x7b" state =
      (if state.current.isDelimiter "\x7b" then advance else expected "`\x7b`" : Parse Token)
        state := rfl
  rw [unfolds, unfolds]
  cases blank : state.current.kind.isBlank with
  | true =>
      rw [Token.isDelimiter_of_isBlank blank,
        Token.isDelimiter_of_isBlank (State.isBlank_cleared commented blank)]
      exact .inr ⟨⟨_, _, rfl⟩, _, _, rfl⟩
  | false =>
      have same := State.current_cleared (State.ne_comment_of_solid blank)
      rw [same]
      cases opens : state.current.isDelimiter "\x7b" with
      | false => exact .inr ⟨⟨_, _, rfl⟩, _, _, rfl⟩
      | true =>
          obtain ⟨later, rest⟩ := State.exists_rest_of_solid blank
          refine .inl ⟨rfl, ?_, rfl, ?_⟩
          · rw [State.advance, rest]
            rfl
          · rw [if_pos rfl, ← State.advance_cleared blank, ← same]
            rfl

/-- What stands between braces is read alike, so the block is. -/
theorem mirrors_block {skip : Parse Unit} {item item' : Parse α} {clean : List α → List α}
    (inside : Mirrors Closed (inBlock skip item) (inBlock skip item') clean) :
    Mirrors Token.Balanced (block skip item) (block skip item') clean := by
  intro state commented
  rw [block_eq, block_eq]
  rcases expect_opening commented with
    ⟨opens, splits, reads, reads'⟩ | ⟨⟨_, _, fails⟩, _, _, fails'⟩
  · refine .from_later state.advance splits (fun more closed => ?_) (bind_of_ok reads)
      (bind_of_ok reads') (inside _ (commented.suffix state.advance_suffix))
    obtain ⟨inner, closing, rfl, balanced, isClosing⟩ := closed
    exact .nest opens balanced isClosing .nil
  · exact .halt ⟨_, _, bind_of_error fails⟩ ⟨_, _, bind_of_error fails'⟩

end Blocks

/-- A block of statements closes in front of its brace. -/
theorem closing_block : Closing Closed closesBlock closeBlock where
  current same := by simp only [closesBlock, State.atEnd, same]
  ends closes := by simpa [closesBlock, State.atEnd] using closes
  goesOn closes := by
    simp only [closesBlock, State.atEnd, Bool.or_eq_false_iff, beq_eq_false_iff_ne] at closes
    exact closes.2
  mirrors := by
    intro state commented closes
    have reads {state : State} (brace : state.current.isDelimiter "\x7d" = true) :
        closeBlock state = consume state := by
      change (if state.current.isDelimiter "\x7d" then _ else _ : Parse Unit) state = _
      rw [brace]
      rfl
    cases brace : state.current.isDelimiter "\x7d" with
    | true =>
        have same :=
          State.current_cleared (State.ne_comment_of_solid (Token.isBlank_of_is brace rfl))
        have mirrors : MirrorsAt Closed Never (consume >>= fun _ => pure [])
            (consume >>= fun _ => pure []) Stmt.allUncommented state := mirrors_closing brace rfl
        exact mirrors.congr (bind_from_later (reads brace))
          (bind_from_later (reads (same ▸ brace)))
    | false =>
        have ends : state.current.kind = .endOfInput := by
          simpa [closesBlock, State.atEnd, brace] using closes
        have same : state.cleared.current = state.current :=
          State.current_cleared (by simp [ends])
        have fails {state : State} (brace : state.current.isDelimiter "\x7d" = false) :
            closeBlock state = expected "`\x7d`" state := by
          change (if state.current.isDelimiter "\x7d" then _ else _ : Parse Unit) state = _
          rw [brace]
          rfl
        exact .halt ⟨_, _, bind_of_error (fails brace)⟩
          ⟨_, _, bind_of_error (fails (same ▸ brace))⟩
  append := Closed.append

theorem closing_program : Closing Token.Balanced State.atEnd (pure ()) where
  current same := by simp only [State.atEnd, same]
  ends closes := .inr (by simpa [State.atEnd] using closes)
  goesOn closes := by simpa [State.atEnd] using closes
  mirrors _ _ := .pure shape_balanced rfl
  append := Token.Balanced.append

/-! ### Branches -/

/-- What is read of a branch, with no comments in it. -/
def cleanBranch (built : Expr × List Stmt × Alternate) : Expr × List Stmt × Alternate :=
  (built.1, Stmt.allUncommented built.2.1, built.2.2.uncommented)

section Branches

variable {body body' : Parse (List Stmt)} {branch branch' : Parse (Expr × List Stmt × Alternate)}
  {state : State}

/-- What the parser finds when it looks past some tokens, if that is a keyword. -/
theorem State.exists_of_find? {passes : Token → Bool} {text : String}
    (found : ((state.rest.find? passes).getD state.stop).isKeyword text = true) :
    ∃ keyword front after, state.rest = front ++ keyword :: after ∧
      (∀ token ∈ front, passes token = false) ∧ keyword.isKeyword text = true ∧
      (state.rest.find? passes).getD state.stop = keyword := by
  cases finds : state.rest.find? passes with
  | none =>
      rw [finds] at found
      have kind := Token.kind_of_is found
      rw [Option.getD_none, state.stop_kind] at kind
      cases kind
  | some keyword =>
      rw [finds] at found
      obtain ⟨_, front, after, splits, skipped⟩ := List.find?_eq_some_iff_append.mp finds
      exact ⟨keyword, front, after, splits, by simpa using skipped, found, rfl⟩

theorem State.find?_of_append {passes : Token → Bool} {front after : List Token} {keyword : Token}
    (splits : state.rest = front ++ keyword :: after)
    (skipped : ∀ token ∈ front, passes token = false) (stays : passes keyword = true) :
    (state.rest.find? passes).getD state.stop = keyword := by
  have finds : state.rest.find? passes = some keyword :=
    List.find?_eq_some_iff_append.mpr ⟨stays, front, after, splits, by simpa using skipped⟩
  rw [finds, Option.getD_some]

/-- Without the comments, the next token that is no line end is the next one that means anything. -/
theorem State.peekPastNewlines_cleared :
    state.cleared.peekPastNewlines =
      (state.rest.find? fun token => !State.isTrivia token).getD state.stop := by
  rw [State.peekPastNewlines, State.cleared, State.find?_cleared]

/-- An `else` that only the run without the comments finds is hidden by one of them. -/
theorem State.hidesElse_of_peek
    (found : state.cleared.peekPastNewlines.isKeyword "else" = true)
    (hidden : state.peekPastNewlines.isKeyword "else" = false) :
    Token.HidesElse state.rest := by
  rw [State.peekPastNewlines_cleared] at found
  obtain ⟨keyword, gap, after, splits, trivia, isElse, _⟩ := State.exists_of_find? found
  have trivia : ∀ token ∈ gap, State.isTrivia token = true := by simpa using trivia
  refine ⟨keyword, gap, after, splits, trivia, isElse, ?_⟩
  by_contra commentless
  have lineEnds : ∀ token ∈ gap, (token.kind != .endOfLine) = false := by
    intro token present
    have kind := trivia token present
    simp only [State.isTrivia, Bool.or_eq_true, beq_iff_eq] at kind
    simpa using kind.resolve_right fun comment => commentless ⟨token, present, comment⟩
  have kind := Token.kind_of_is isElse
  rw [State.peekPastNewlines, State.find?_of_append splits lineEnds (by simp [kind]),
    isElse] at hidden
  cases hidden

/-- An `else` behind line ends is found by both runs. -/
theorem State.exists_of_peek (found : state.peekPastNewlines.isKeyword "else" = true) :
    state.cleared.peekPastNewlines.isKeyword "else" = true ∧
      state.skipNewlines.current.isKeyword "else" = true := by
  obtain ⟨keyword, gap, after, splits, lineEnds, isElse, _⟩ := State.exists_of_find? found
  have lineEnds : ∀ token ∈ gap, token.kind = .endOfLine := by simpa using lineEnds
  have kind := Token.kind_of_is isElse
  constructor
  · rw [State.peekPastNewlines_cleared, State.find?_of_append splits
      (fun token present => by simp [State.isTrivia, lineEnds token present])
      (by simp [State.isTrivia, kind])]
    exact isElse
  · have rest : state.skipNewlines.rest = keyword :: after := by
      rw [State.skipNewlines, splits, List.dropWhile_append_of_pos fun token present => by
        simp [State.isSeparator, lineEnds token present]]
      exact List.dropWhile_cons_of_neg (by
        simp [State.isSeparator, Token.isDelimiter, Token.is, kind])
    rwa [State.current, rest, List.headD_cons]

theorem mirrors_branchUsing (bodies : Mirrors Token.Balanced body body' Stmt.allUncommented)
    (branches : ∀ state : State, Token.Commented state.rest → state.current.kind = .keyword →
      MirrorsAt Token.Balanced Token.HidesElse branch branch' cleanBranch state)
    (commented : Token.Commented state.rest) (keyword : state.current.kind = .keyword) :
    MirrorsAt Token.Balanced Token.HidesElse (branchUsing body branch) (branchUsing body' branch')
      cleanBranch state := by
  obtain ⟨solid, flat⟩ := State.proper_of_keyword keyword
  have later := commented.suffix state.advance_suffix
  refine .consume_bind shape_balanced solid flat ?_
  have conditions := (mirrors_expression .lowest).imp fun _ => Token.balanced_of_flat
  refine (conditions.here later).after shape_balanced later ?_
  intro condition opened _ commented
  refine (bodies.here commented).bind shape_balanced commented ?_
  intro first closed _ commented
  refine .get_bind ?_
  cases found : closed.peekPastNewlines.isKeyword "else" with
  | true =>
      obtain ⟨found', isElse⟩ := State.exists_of_peek found
      rw [found', if_pos rfl, if_pos rfl]
      have kind : closed.skipNewlines.current.kind = .keyword := Token.kind_of_is isElse
      have within : Token.Commented closed.skipNewlines.rest :=
        commented.suffix (List.dropWhile_suffix _)
      refine .skipNewlines_bind shape_balanced (by simp [kind]) ?_
      obtain ⟨solid, flat⟩ := State.proper_of_keyword kind
      have later := within.suffix closed.skipNewlines.advance_suffix
      refine .consume_bind shape_balanced solid flat (.current_bind later (fun _ => ?_)
        fun token token' blank blank' => ?_)
      · split
        · next isIf => exact (branches _ later (Token.kind_of_is isIf)).map fun _ => rfl
        · exact (bodies.here later).map fun _ => rfl
      · rw [Token.isKeyword_of_isBlank blank, Token.isKeyword_of_isBlank blank']
        exact (bodies.here later).map fun _ => rfl
  | false =>
      cases found' : closed.cleared.peekPastNewlines.isKeyword "else" with
      | true => exact .of_loose shape_balanced (State.hidesElse_of_peek found' found)
      | false => exact .pure shape_balanced rfl

end Branches

end SmallLang.Parse
