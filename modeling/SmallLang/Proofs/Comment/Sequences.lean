import SmallLang.Proofs.Comment.Mirrors
import SmallLang.Proofs.Comment.Tree

/-!
# Statements one after the other without the comments

A comment is a statement by itself, so with the comments there are more statements to be read. The
run without them stays where it is meanwhile, in front of the next statement.
-/

set_option autoImplicit false

namespace SmallLang

/-- Tokens that begin with a gap between statements, and behind it with an `else`. -/
def Token.LeadsTo (keyword : Token) (tokens : List Token) : Prop :=
  keyword.isKeyword "else" = true ∧
    ∃ after, tokens.dropWhile Parse.State.isGap = keyword :: after

/-- An `else` behind a comment. -/
def Token.HidesElse (tokens : List Token) : Prop :=
  ∃ keyword gap after, tokens = gap ++ keyword :: after ∧
    (∀ token ∈ gap, Parse.State.isTrivia token = true) ∧ keyword.isKeyword "else" = true ∧
    ∃ comment ∈ gap, comment.kind = .comment

/-- An `else` behind a comment is what the gap in front of it leads to, and the comment is in the
way. -/
theorem Token.HidesElse.exists_leadsTo {tokens : List Token} (hides : Token.HidesElse tokens) :
    ∃ keyword : Token, keyword.LeadsTo tokens ∧
      Token.Obstructs tokens ⟨.unexpectedToken keyword.value, keyword.position⟩ ∧
      ∃ first later, tokens = first :: later ∧ Parse.State.isTrivia first = true := by
  obtain ⟨keyword, gap, after, rfl, trivia, isElse, comment, present, isComment⟩ := hides
  have kind := Token.kind_of_is isElse
  have stays : ¬ Parse.State.isGap keyword = true := by
    simp [Parse.State.isGap, Parse.State.isSeparator, Token.isDelimiter, Token.is, kind]
  refine ⟨keyword, ⟨isElse, after, ?_⟩, ?_, ?_⟩
  · rw [List.dropWhile_append_of_pos fun token present =>
      Parse.State.isGap_of_isTrivia (trivia token present), List.dropWhile_cons_of_neg stays]
  · obtain ⟨before, behind, rfl⟩ := List.append_of_mem present
    have rest : ∀ token ∈ behind, Parse.State.isTrivia token = true := fun token present =>
      trivia token (List.mem_append_right _ (List.mem_cons_of_mem _ present))
    exact .alternate rfl isComment rest isElse
  · obtain ⟨first, more, rfl⟩ := List.exists_cons_of_ne_nil (List.ne_nil_of_mem present)
    exact ⟨first, more ++ keyword :: after, rfl, trivia first List.mem_cons_self⟩

namespace Parse

namespace State

variable {state : State}

theorem dropWhile_isGap_eq (tokens : List Token) :
    (tokens.dropWhile isGap) = (tokens.dropWhile isSeparator).dropWhile isGap := by
  induction tokens with
  | nil => rfl
  | cons first rest ih =>
      by_cases separator : isSeparator first = true
      · rw [List.dropWhile_cons_of_pos separator, ← ih,
          List.dropWhile_cons_of_pos (by simp [isGap, separator])]
      · rw [List.dropWhile_cons_of_neg separator]

theorem isSeparator_current_skipNewlines {first : Token} {later : List Token}
    (rest : state.skipNewlines.rest = first :: later) : isSeparator first = false := by
  have head := List.head?_dropWhile_not isSeparator state.rest
  rw [show state.rest.dropWhile isSeparator = first :: later from rest] at head
  simpa using head

/-- In front of what is no comment, nothing is left of the gap before it. -/
theorem skipGap_eq_skipNewlines (statement : state.skipNewlines.current.kind ≠ .comment) :
    state.skipGap = state.skipNewlines := by
  unfold skipGap
  rw [dropWhile_isGap_eq]
  change { state with rest := state.skipNewlines.rest.dropWhile isGap } = _
  cases rest : state.skipNewlines.rest with
  | nil => rw [List.dropWhile_nil, ← rest]; rfl
  | cons first later =>
      have separator := isSeparator_current_skipNewlines rest
      rw [current, rest, List.headD_cons] at statement
      rw [List.dropWhile_cons_of_neg (by simp [isGap, separator, statement]), ← rest]
      rfl

theorem isBlank_of_isTrivia
    (next : ∃ first later, state.rest = first :: later ∧ isTrivia first = true) :
    state.current.kind.isBlank = true := by
  obtain ⟨first, later, rest, trivia⟩ := next
  rw [current, rest, List.headD_cons]
  simp only [isTrivia, Bool.or_eq_true, beq_iff_eq] at trivia
  rcases trivia with kind | kind <;> rw [kind] <;> rfl

/-- A token in front of which no gap is left is proper, unless it is a comment or the end. -/
theorem solid_of_skipNewlines (statement : state.skipNewlines.current.kind ≠ .comment)
    (more : state.skipNewlines.current.kind ≠ .endOfInput) :
    state.skipNewlines.current.kind.isBlank = false := by
  obtain ⟨later, rest⟩ := exists_rest_of_more more
  have separator := isSeparator_current_skipNewlines rest
  simp only [isSeparator, Bool.or_eq_false_iff, beq_eq_false_iff_ne] at separator
  cases kind : state.skipNewlines.current.kind <;> simp_all [Token.Kind.isBlank]

end State

/-- In front of a statement, line ends and semicolons are passed over alike. -/
theorem MirrorsAt.skipNewlines_bind {α : Type} {shape loose : List Token → Prop} {clean : α → α}
    {state : State} (closed : Shape shape) {next next' : Unit → Parse α}
    (statement : state.skipNewlines.current.kind ≠ .comment)
    (mirrors : MirrorsAt shape loose (next ()) (next' ()) clean state.skipNewlines) :
    MirrorsAt shape loose (skipNewlines >>= next) (skipNewlines >>= next') clean state := by
  have splits : state.rest =
      state.rest.takeWhile State.isSeparator ++ state.skipNewlines.rest :=
    List.takeWhile_append_dropWhile.symm
  refine .from_later state.skipNewlines splits
    (fun _ => closed.append (closed.flat fun token present => ?_)) rfl ?_ mirrors
  · refine State.isBrace_eq_false_of_isGap ?_
    simp [State.isGap, List.mem_takeWhile_imp present]
  · change next' () state.cleared.skipNewlines = _
    rw [State.skipNewlines_cleared, State.skipGap_eq_skipNewlines statement]

/-- Once around in a loop over statements: it closes, or reads another one with its end. -/
def round (closes : State → Bool) (close : Parse Unit) (statement : Parse Stmt)
    (rest : Parse (List Stmt)) : Parse (List Stmt) := do
  skipNewlines
  if closes (← get) then
    close
    return []
  else
    let first ← statement
    statementEnd
    return first :: (← rest)

/-- A statement with its end. -/
def withEnd (statement : Parse Stmt) : Parse Stmt := do
  let first ← statement
  statementEnd
  return first

/-- A block closes at its brace, and has to close before the end of the input. -/
def closesBlock (state : State) : Bool := state.current.isDelimiter "\x7d" || state.atEnd

/-- Reads the brace that closes a block. -/
def closeBlock : Parse Unit := do
  if (← current).isDelimiter "\x7d" then consume else expected "`\x7d`"

theorem blockRound_eq (statement : Parse Stmt) (rest : Parse (List Stmt)) :
    (do
      skipNewlines
      if (← current).isDelimiter "\x7d" then
        consume
        return []
      else if (← get).atEnd then expected "`\x7d`"
      else
        let first ← withEnd statement
        return first :: (← rest)) = round closesBlock closeBlock statement rest := by
  refine congrArg (skipNewlines >>= ·) (funext fun _ => funext fun state => ?_)
  change (if state.current.isDelimiter "\x7d" then _ else _ : Parse (List Stmt)) state =
    (if closesBlock state then _ else _ : Parse (List Stmt)) state
  cases closes : state.current.isDelimiter "\x7d" with
  | true =>
      have closes' : closesBlock state = true := by simp [closesBlock, closes]
      rw [closes', if_pos rfl, if_pos rfl]
      change _ = (closeBlock >>= fun _ => pure []) state
      have reads : closeBlock state = consume state := by
        change (if state.current.isDelimiter "\x7d" then _ else _ : Parse Unit) state = _
        rw [closes, if_pos rfl]
      rw [bind_from_later reads]
  | false =>
      change (if state.atEnd then _ else _ : Parse (List Stmt)) state = _
      cases ends : state.atEnd with
      | true =>
          have closes' : closesBlock state = true := by simp [closesBlock, ends]
          have reads : closeBlock state = expected "`\x7d`" state := by
            change (if state.current.isDelimiter "\x7d" then _ else _ : Parse Unit) state = _
            rw [closes]
            rfl
          rw [closes', if_pos rfl, if_pos rfl, bind_from_later reads]
          rfl
      | false =>
          have closes' : closesBlock state = false := by simp [closesBlock, closes, ends]
          rw [closes']
          simp [withEnd]

theorem programRound_eq (statement : Parse Stmt) (rest : Parse (List Stmt)) :
    (do
      skipNewlines
      if (← get).atEnd then return []
      else
        let first ← statement
        statementEnd
        return first :: (← rest)) = round State.atEnd (pure ()) statement rest := rfl

/-- One parser for statements does without the comments what another one does with them. -/
structure Follows (statement statement' : Parse Stmt) : Prop where
  mirrors : ∀ state : State, Token.Commented state.rest → state.current.kind.isBlank = false →
    MirrorsAt Token.Balanced Token.HidesElse statement statement' Stmt.uncommented state
  proper : ∀ (state : State) (value : Stmt) (after : State), state.current.kind ≠ .comment →
    statement state = .ok value after → value.isComment = false
  comment : ∀ state : State, state.current.kind = .comment →
    statement state = .ok (.comment state.current.value) state.advance ∨
      ∃ after, statement state = .error .exhausted after
  alternate : ∀ state : State, state.current.isKeyword "else" = true → FailsWith statement
    ⟨.unexpectedToken state.current.value, state.current.position⟩ state

/-! ### The end of a statement -/

section Ends

variable {state : State}

theorem State.skipGap_skipNewlines (state : State) :
    state.skipGap = state.skipNewlines.skipGap := by
  unfold skipGap
  rw [dropWhile_isGap_eq]
  rfl

theorem State.skipGap_congr {after : State} (same : after.skipNewlines = state.skipNewlines) :
    after.skipGap = state.skipGap := by
  rw [skipGap_skipNewlines, same, ← skipGap_skipNewlines]

/-- What ends a statement is found at the current token. -/
theorem statementEnd_eq (state : State) : statementEnd state =
    (if state.current.kind = .endOfLine then consume
    else if state.current.kind = .endOfInput ∨ state.current.kind = .comment then pure ()
    else if state.current.kind = .delimiter ∧ state.current.value = ";" then consume
    else if state.current.kind = .delimiter ∧ state.current.value = "\x7d" then pure ()
    else expected "end of statement" : Parse Unit) state := by
  have step (next : Token → Parse Unit) : (current >>= next) state = next state.current state := rfl
  rw [statementEnd, step]
  cases kind : state.current.kind with
  | delimiter =>
      by_cases semicolon : state.current.value = ";"
      · simp [semicolon]
      · simp [semicolon]
  | _ => simp

/-- A blank ends a statement, and what is left of it is a gap. -/
theorem statementEnd_of_isBlank (blank : state.current.kind.isBlank = true) :
    ∃ after, statementEnd state = .ok () after ∧ after.skipNewlines = state.skipNewlines ∧
      ∃ part, state.rest = part ++ after.rest ∧ Flat part := by
  have stays : ∃ part, state.rest = part ++ state.rest ∧ Flat part :=
    ⟨[], rfl, List.forall_mem_nil _⟩
  cases kind : state.current.kind with
  | endOfInput | comment => exact ⟨state, by rw [statementEnd_eq, kind]; rfl, rfl, stays⟩
  | endOfLine =>
      have more : state.current.kind ≠ .endOfInput := by simp [kind]
      obtain ⟨later, rest⟩ := State.exists_rest_of_more more
      have advanced : state.advance.rest = later := by rw [State.advance, rest, List.tail_cons]
      refine ⟨state.advance, by rw [statementEnd_eq, kind]; rfl, ?_, [state.current], ?_, ?_⟩
      · unfold State.skipNewlines
        rw [advanced, rest, List.dropWhile_cons_of_pos (by simp [State.isSeparator, kind])]
        rfl
      · rw [advanced, rest, List.singleton_append]
      · exact List.forall_mem_singleton.mpr (Token.isBrace_eq_false_of_kind (by simp [kind]))
  | _ =>
      rw [kind] at blank
      cases blank

theorem statementEnd_of_solid (solid : state.current.kind.isBlank = false) :
    (∃ after, statementEnd state = .ok () after ∧
      statementEnd state.cleared = .ok () after.cleared ∧
      ∃ part, state.rest = part ++ after.rest ∧ Flat part) ∨
    (∃ halt after, statementEnd state = .error halt after) ∧
      ∃ halt after, statementEnd state.cleared = .error halt after := by
  have same := State.current_cleared (State.ne_comment_of_solid solid)
  have ends := statementEnd_eq state
  have ends' := statementEnd_eq state.cleared
  have notLine : state.current.kind ≠ .endOfLine := by
    intro kind
    rw [kind] at solid
    cases solid
  have notBlank : ¬ (state.current.kind = .endOfInput ∨ state.current.kind = .comment) := by
    rintro (kind | kind) <;> rw [kind] at solid <;> cases solid
  rw [if_neg notLine, if_neg notBlank] at ends
  rw [same, if_neg notLine, if_neg notBlank] at ends'
  by_cases semicolon : state.current.kind = .delimiter ∧ state.current.value = ";"
  · rw [if_pos semicolon] at ends ends'
    obtain ⟨later, rest⟩ := State.exists_rest_of_solid solid
    have flat : state.current.isBrace = false := by
      simp [Token.isBrace, Token.isDelimiter, Token.is, semicolon.2]
    refine .inl ⟨state.advance, ends, ?_, [state.current], ?_, List.forall_mem_singleton.mpr flat⟩
    · rw [← State.advance_cleared solid]
      exact ends'
    · rw [State.advance, rest]
      rfl
  · rw [if_neg semicolon] at ends ends'
    by_cases brace : state.current.kind = .delimiter ∧ state.current.value = "\x7d"
    · rw [if_pos brace] at ends ends'
      exact .inl ⟨state, ends, ends', [], rfl, List.forall_mem_nil _⟩
    · rw [if_neg brace] at ends ends'
      exact .inr ⟨⟨_, _, ends⟩, _, _, ends'⟩

/-- Behind the end of a statement, the run without the comments is in the same place but for the gap
that comes next. -/
theorem statementEnd_cleared (commented : Token.Commented state.rest) :
    (∀ after, statementEnd state = .ok () after →
      (∃ part, state.rest = part ++ after.rest ∧ Flat part) ∧
        ∃ after', statementEnd state.cleared = .ok () after' ∧
          after'.skipNewlines = after.skipGap.cleared) ∧
      ∀ halt after, statementEnd state = .error halt after →
        ∃ halt after, statementEnd state.cleared = .error halt after := by
  cases blank : state.current.kind.isBlank with
  | true =>
      obtain ⟨last, ends, same, part⟩ := statementEnd_of_isBlank blank
      obtain ⟨last', ends', same', _⟩ :=
        statementEnd_of_isBlank (State.isBlank_cleared commented blank)
      rw [ends]
      refine ⟨fun after result => ?_, fun _ _ fails => by cases fails⟩
      cases result
      refine ⟨part, last', ends', ?_⟩
      rw [same', State.skipNewlines_cleared, State.skipGap_congr same]
  | false =>
      rcases statementEnd_of_solid blank with
        ⟨last, ends, ends', part⟩ | ⟨⟨halt, last, fails⟩, fails'⟩
      · rw [ends]
        refine ⟨fun after result => ?_, fun _ _ fails => by cases fails⟩
        cases result
        exact ⟨part, last.cleared, ends', State.skipNewlines_cleared last⟩
      · rw [fails]
        exact ⟨fun _ result => (by cases result), fun _ _ _ => fails'⟩

/-- A comment between statements is a gap with its end. -/
theorem exists_of_comment (commented : Token.Commented state.rest)
    (comment : state.current.kind = .comment) :
    ∃ after, statementEnd state.advance = .ok () after ∧ after.skipGap = state.skipGap ∧
      ∃ part, state.rest = part ++ after.rest ∧ Flat part := by
  have more : state.current.kind ≠ .endOfInput := by simp [comment]
  obtain ⟨later, rest⟩ := State.exists_rest_of_more more
  have advanced : state.advance.rest = later := by rw [State.advance, rest, List.tail_cons]
  have blank : state.advance.current.kind.isBlank = true := by
    cases later with
    | nil => rw [State.current_of_rest_nil advanced]; rfl
    | cons second later =>
        rw [rest] at commented
        have lineEnd := (List.isChain_cons_cons.mp commented).1 comment
        rw [State.current, advanced, List.headD_cons, lineEnd]
        rfl
  obtain ⟨after, ends, same, part, splits, flat⟩ := statementEnd_of_isBlank blank
  refine ⟨after, ends, ?_, state.current :: part, ?_, List.forall_mem_cons.mpr ⟨?_, flat⟩⟩
  · rw [State.skipGap_congr same]
    unfold State.skipGap
    rw [advanced, rest, List.dropWhile_cons_of_pos (by simp [State.isGap, comment])]
    rfl
  · rw [List.cons_append, ← splits, advanced, rest]
  · exact Token.isBrace_eq_false_of_kind (by simp [comment])

end Ends

/-! ### Loops over statements -/

/-- A loop over statements closes in front of a brace or the end of the input, and does so in the
same way without the comments. -/
structure Closing (shape : List Token → Prop) (closes : State → Bool) (close : Parse Unit) :
    Prop where
  current : ∀ {state state' : State}, state.current = state'.current →
    closes state = closes state'
  ends : ∀ {state : State}, closes state = true →
    state.current.isDelimiter "\x7d" = true ∨ state.current.kind = .endOfInput
  goesOn : ∀ {state : State}, closes state = false → state.current.kind ≠ .endOfInput
  mirrors : ∀ {state : State}, Token.Commented state.rest → closes state = true →
    MirrorsAt shape Never (close >>= fun _ => pure []) (close >>= fun _ => pure [])
      Stmt.allUncommented state
  append : ∀ {part more : List Token}, Token.Balanced part → shape more → shape (part ++ more)

section Rounds

variable {shape : List Token → Prop} {statement statement' : Parse Stmt} {closes : State → Bool}
  {close : Parse Unit} {rest : Parse (List Stmt)} {state : State}

theorem round_of_closes (closed : closes state.skipNewlines = true) :
    round closes close statement rest state =
      (close >>= fun _ => pure []) state.skipNewlines := by
  change (if closes state.skipNewlines then _ else _ : Parse (List Stmt)) _ = _
  rw [closed]
  rfl

theorem round_of_goesOn (goesOn : closes state.skipNewlines = false) :
    round closes close statement rest state = (do
      let first ← statement
      statementEnd
      return first :: (← rest)) state.skipNewlines := by
  change (if closes state.skipNewlines then _ else _ : Parse (List Stmt)) _ = _
  rw [goesOn]
  rfl

/-- Where the same statement comes next, a loop does the same. -/
theorem round_congr {first second : State} (same : first.skipNewlines = second.skipNewlines) :
    round closes close statement rest first = round closes close statement rest second := by
  unfold round
  exact bind_from_later (congrArg (EStateM.Result.ok ()) same)

section Steps

variable {loop : Parse (List Stmt)} (closing : Closing shape closes close)
  (follows : Follows statement statement')
  (meets : ∀ {first second : State}, first.skipNewlines = second.skipNewlines →
    loop first = loop second)
  (rests : Mirrors shape rest loop Stmt.allUncommented)

include closing follows meets rests

/-- With a comment next, the run without the comments stays where it is. -/
theorem mirrors_comment (commented : Token.Commented state.rest)
    (comment : state.current.kind = .comment) :
    MirrorsAt shape Never (do
        let first ← statement
        statementEnd
        return first :: (← rest)) loop Stmt.allUncommented state := by
  rcases follows.comment state comment with read | ⟨after, exhausted⟩
  · obtain ⟨after, ends, gap, part, splits, flat⟩ := exists_of_comment commented comment
    have later : MirrorsAt shape Never
        (rest >>= fun more => pure (.comment state.current.value :: more))
        (loop >>= fun more => pure more) Stmt.allUncommented after :=
      (rests.here (commented.suffix ⟨part, splits.symm⟩)).map fun _ => rfl
    rw [bind_pure] at later
    refine .from_later after splits (fun _ => closing.append (Token.balanced_of_flat flat))
      ((bind_of_ok read).trans (bind_of_ok ends)) (meets ?_) later
    rw [State.skipNewlines_cleared, State.skipNewlines_cleared, gap]
  · exact .of_exhausted (bind_of_error exhausted)

/-- With another statement next, both runs read it and its end. -/
theorem mirrors_statement (fails : ∀ (keyword : Token) (state : State),
      Token.Commented state.rest → keyword.LeadsTo state.rest →
      FailsWith rest ⟨.unexpectedToken keyword.value, keyword.position⟩ state)
    (commented : Token.Commented state.rest) (solid : state.current.kind.isBlank = false) :
    MirrorsAt shape Never (do
        let first ← statement
        statementEnd
        return first :: (← rest))
      (do
        let first ← statement'
        statementEnd
        return first :: (← loop)) Stmt.allUncommented state := by
  have mirrors := follows.mirrors state commented solid
  cases result : statement state with
  | error halt after => exact .of_bind_error result mirrors
  | ok first after =>
      unfold MirrorsAt at mirrors
      rw [result] at mirrors
      obtain ⟨⟨part, splits, balanced⟩, same | hides⟩ := mirrors
      · have commented' := commented.suffix ⟨part, splits.symm⟩
        have ends := statementEnd_cleared commented'
        cases result' : statementEnd after with
        | error halt last =>
            obtain ⟨halt', last', fails'⟩ := ends.2 halt last result'
            exact .halt ⟨_, _, (bind_of_ok result).trans (bind_of_error result')⟩
              ⟨_, _, (bind_of_ok same).trans (bind_of_error fails')⟩
        | ok _ last =>
            obtain ⟨⟨part', splits', flat⟩, last', ends', gap⟩ := ends.1 last result'
            have later : MirrorsAt shape Never (rest >>= fun more => pure (first :: more))
                (loop >>= fun more => pure (first.uncommented :: more)) Stmt.allUncommented
                last :=
              (rests.here (commented'.suffix ⟨part', splits'.symm⟩)).map fun more => by
                rw [Stmt.allUncommented,
                  follows.proper _ _ _ (State.ne_comment_of_solid solid) result]
                rfl
            have moves : state.rest = (part ++ part') ++ last.rest := by
              rw [splits, splits', List.append_assoc]
            refine .from_later last moves
              (fun _ => closing.append (balanced.append (Token.balanced_of_flat flat)))
              ((bind_of_ok result).trans (bind_of_ok result'))
              ((bind_of_ok same).trans ((bind_of_ok ends').trans ?_)) later
            exact bind_from_later (meets (by rw [gap, State.skipNewlines_cleared]))
      · obtain ⟨keyword, ⟨isElse, later, found⟩, obstructs, blank⟩ := hides.exists_leadsTo
        obtain ⟨last, ends, gap, part', splits', _⟩ :=
          statementEnd_of_isBlank (State.isBlank_of_isTrivia blank)
        have leads : keyword.LeadsTo last.rest := by
          refine ⟨isElse, later, ?_⟩
          rw [← found]
          exact congrArg State.rest (State.skipGap_congr gap)
        have within := (commented.suffix ⟨part, splits.symm⟩).suffix ⟨part', splits'.symm⟩
        exact .of_failsWith
          (failsWith_congr ((bind_of_ok result).trans (bind_of_ok ends))
            (fails keyword last within leads).bind)
          (obstructs.of_infix (List.IsSuffix.isInfix ⟨part, splits.symm⟩))

end Steps

variable (closing : Closing shape closes close) {within : Nat → Parse (List Stmt)}
  (zero : within 0 = exhausted)
  (succ : ∀ depth, within (depth + 1) = round closes close statement (within depth))
  (follows : Follows statement statement')

include closing

theorem Closing.goesOn_of_kind (brace : state.current.kind ≠ .delimiter)
    (more : state.current.kind ≠ .endOfInput) : closes state = false := by
  by_contra closed
  rcases closing.ends (Bool.not_eq_false _ ▸ closed) with found | ends
  · exact brace (Token.kind_of_is found)
  · exact more ends

include zero succ follows

/-- No statement begins with `else`. -/
theorem failsWith_of_leadsTo {keyword : Token} (depth : Nat) (state : State)
    (commented : Token.Commented state.rest) (leads : keyword.LeadsTo state.rest) :
    FailsWith (within depth) ⟨.unexpectedToken keyword.value, keyword.position⟩ state := by
  induction depth generalizing state with
  | zero => exact ⟨_, _, by rw [zero]; rfl, .inr rfl⟩
  | succ depth ih =>
      have within' : Token.Commented state.skipNewlines.rest :=
        commented.suffix (List.dropWhile_suffix _)
      have same : state.skipNewlines.skipGap = state.skipGap := state.skipGap_skipNewlines.symm
      by_cases comment : state.skipNewlines.current.kind = .comment
      · have goesOn : closes state.skipNewlines = false :=
          closing.goesOn_of_kind (by simp [comment]) (by simp [comment])
        refine failsWith_congr ((congrFun (succ depth) state).trans (round_of_goesOn goesOn)) ?_
        rcases follows.comment _ comment with read | ⟨after, exhausted⟩
        · obtain ⟨after, ends, gap, part, splits, _⟩ := exists_of_comment within' comment
          have next : keyword.LeadsTo after.rest := by
            refine ⟨leads.1, ?_⟩
            rw [show after.rest.dropWhile State.isGap = state.rest.dropWhile State.isGap from
              congrArg State.rest (gap.trans same)]
            exact leads.2
          exact failsWith_congr ((bind_of_ok read).trans (bind_of_ok ends))
            (ih after (within'.suffix ⟨part, splits.symm⟩) next).bind
        · exact ⟨_, _, bind_of_error exhausted, .inr rfl⟩
      · obtain ⟨after, found⟩ := leads.2
        have rest : state.skipNewlines.rest = keyword :: after := by
          rw [← found, ← State.skipGap_eq_skipNewlines comment]
          rfl
        have current : state.skipNewlines.current = keyword := by
          rw [State.current, rest, List.headD_cons]
        have kind := Token.kind_of_is leads.1
        have goesOn : closes state.skipNewlines = false :=
          closing.goesOn_of_kind (by simp [current, kind]) (by simp [current, kind])
        refine failsWith_congr ((congrFun (succ depth) state).trans (round_of_goesOn goesOn)) ?_
        have fails := follows.alternate state.skipNewlines (current ▸ leads.1)
        rw [current] at fails
        exact fails.bind

/-- A loop over statements does without the comments what it does with them. -/
theorem mirrors_rounds {loop : Parse (List Stmt)}
    (again : loop = round closes close statement' loop) (depth : Nat) :
    Mirrors shape (within depth) loop Stmt.allUncommented := by
  have meets {first second : State} (same : first.skipNewlines = second.skipNewlines) :
      loop first = loop second := by
    rw [again]
    exact round_congr same
  induction depth with
  | zero =>
      rw [zero]
      exact .exhausted
  | succ depth ih =>
      intro state commented
      have commented' : Token.Commented state.skipNewlines.rest :=
        commented.suffix (List.dropWhile_suffix _)
      have splits : state.rest =
          state.rest.takeWhile State.isSeparator ++ state.skipNewlines.rest :=
        List.takeWhile_append_dropWhile.symm
      have gap : Token.Balanced (state.rest.takeWhile State.isSeparator) := by
        refine Token.balanced_of_flat fun token present => State.isBrace_eq_false_of_isGap ?_
        simp [State.isGap, List.mem_takeWhile_imp present]
      by_cases comment : state.skipNewlines.current.kind = .comment
      · have goesOn : closes state.skipNewlines = false :=
          closing.goesOn_of_kind (by simp [comment]) (by simp [comment])
        refine .from_later state.skipNewlines splits (fun _ => closing.append gap)
          ((congrFun (succ depth) state).trans (round_of_goesOn goesOn)) (meets ?_)
          (mirrors_comment closing follows meets ih commented' comment)
        rw [State.skipNewlines_cleared, State.skipNewlines_cleared, ← State.skipGap_skipNewlines]
      · have behind : state.cleared.skipNewlines = state.skipNewlines.cleared := by
          rw [State.skipNewlines_cleared, State.skipGap_eq_skipNewlines comment]
        have same : closes state.cleared.skipNewlines = closes state.skipNewlines := by
          rw [behind]
          exact closing.current (State.current_cleared comment)
        cases closed : closes state.skipNewlines with
        | true =>
            refine .from_later state.skipNewlines splits (fun _ => closing.append gap)
              ((congrFun (succ depth) state).trans (round_of_closes closed)) ?_
              (closing.mirrors commented' closed)
            rw [congrFun again state.cleared, round_of_closes (same.trans closed), behind]
        | false =>
            have solid : state.skipNewlines.current.kind.isBlank = false :=
              State.solid_of_skipNewlines comment (closing.goesOn closed)
            refine .from_later state.skipNewlines splits (fun _ => closing.append gap)
              ((congrFun (succ depth) state).trans (round_of_goesOn closed)) ?_
              (mirrors_statement closing follows meets ih
                (fun _ => failsWith_of_leadsTo closing zero succ follows depth) commented' solid)
            rw [congrFun again state.cleared, round_of_goesOn (same.trans closed), behind]

end Rounds

end Parse

end SmallLang
