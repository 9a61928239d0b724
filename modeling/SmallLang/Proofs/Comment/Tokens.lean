import Mathlib.Data.List.Chain
import SmallLang.Proofs.Parse.Unbounded

/-!
# Tokens without comments

Comments are taken out of tokens, and line ends that come to stand in front of all others or behind
one another are left out, as a scan leaves them out. Gaps between tokens are then what they were,
except that there are no comments in them.
-/

set_option autoImplicit false

namespace SmallLang

namespace Token

/-- Whether tokens of a kind mean nothing but an end, of a line or of all. -/
def Kind.isBlank : Kind → Bool
  | .endOfInput | .endOfLine | .comment => true
  | _ => false

/-- Whether a token is a brace. -/
def isBrace (token : Token) : Bool := token.isDelimiter "\x7b" || token.isDelimiter "\x7d"

/-- Tokens with the line ends that a scan leaves: those behind a token that is none. `open?` tells
whether such a token stands before them. -/
def mergeLines (open? : Bool) : List Token → List Token
  | [] => []
  | first :: rest =>
      if first.kind == .endOfLine then
        if open? then first :: mergeLines false rest else mergeLines false rest
      else first :: mergeLines true rest

/-- Tokens behind others, with no comments among them. -/
def cleared (open? : Bool) (tokens : List Token) : List Token :=
  mergeLines open? (tokens.filter (·.kind != .comment))

/-- Tokens with no comments among them. -/
def uncommented (tokens : List Token) : List Token := cleared false tokens

section Cleared

variable {first : Token} {rest : List Token} {open? : Bool}

@[simp] theorem cleared_nil : cleared open? [] = [] := rfl

theorem cleared_comment (comment : first.kind = .comment) :
    cleared open? (first :: rest) = cleared open? rest := by
  simp [cleared, comment]

theorem cleared_lineEnd (lineEnd : first.kind = .endOfLine) :
    cleared open? (first :: rest) =
      if open? then first :: cleared false rest else cleared false rest := by
  simp [cleared, mergeLines, lineEnd]

theorem cleared_other (noLineEnd : first.kind ≠ .endOfLine) (noComment : first.kind ≠ .comment) :
    cleared open? (first :: rest) = first :: cleared true rest := by
  simp [cleared, mergeLines, noLineEnd, noComment]

theorem cleared_append (open? : Bool) (tokens : List Token) {stop : Token}
    (noLineEnd : stop.kind ≠ .endOfLine) (noComment : stop.kind ≠ .comment) :
    cleared open? (tokens ++ [stop]) = cleared open? tokens ++ [stop] := by
  induction tokens generalizing open? with
  | nil => exact cleared_other noLineEnd noComment
  | cons first rest ih =>
      rw [List.cons_append]
      by_cases comment : first.kind = .comment
      · rw [cleared_comment comment, cleared_comment comment, ih]
      · by_cases lineEnd : first.kind = .endOfLine
        · rw [cleared_lineEnd lineEnd, cleared_lineEnd lineEnd]
          split
          · rw [ih, List.cons_append]
          · exact ih false
        · rw [cleared_other lineEnd comment, cleared_other lineEnd comment, ih, List.cons_append]

theorem mergeLines_sublist (open? : Bool) (tokens : List Token) :
    (mergeLines open? tokens).Sublist tokens := by
  induction tokens generalizing open? with
  | nil => exact .slnil
  | cons first rest ih =>
      unfold mergeLines
      split
      · split
        · exact (ih false).cons_cons first
        · exact (ih false).cons first
      · exact (ih true).cons_cons first

theorem cleared_sublist (open? : Bool) (tokens : List Token) :
    (cleared open? tokens).Sublist tokens :=
  (mergeLines_sublist open? _).trans List.filter_sublist

end Cleared

section Kinds

variable {token : Token}

theorem kind_beq_of_isBlank {kind : Kind} (blank : token.kind.isBlank = true)
    (proper : kind.isBlank = false) : (token.kind == kind) = false := by
  rw [beq_eq_false_iff_ne]
  intro same
  rw [same, proper] at blank
  cases blank

theorem is_eq_false_of_isBlank {kind : Kind} {value : String} (blank : token.kind.isBlank = true)
    (proper : kind.isBlank = false) : token.is kind value = false := by
  rw [is, kind_beq_of_isBlank blank proper, Bool.false_and]

section Blank

variable (blank : token.kind.isBlank = true) (text : String)
include blank

theorem isOperator_of_isBlank : token.isOperator text = false := is_eq_false_of_isBlank blank rfl

theorem isDelimiter_of_isBlank : token.isDelimiter text = false := is_eq_false_of_isBlank blank rfl

theorem isKeyword_of_isBlank : token.isKeyword text = false := is_eq_false_of_isBlank blank rfl

end Blank

theorem isBlank_of_is {kind : Kind} {value : String} (found : token.is kind value = true)
    (proper : kind.isBlank = false) : token.kind.isBlank = false := by
  rw [kind_of_is found, proper]

theorem isBrace_eq_false_of_kind (other : token.kind ≠ .delimiter) : token.isBrace = false := by
  simp [isBrace, isDelimiter, is, other]

theorem isBrace_eq_false_of_is {kind : Kind} {value : String} (found : token.is kind value = true)
    (opening : value ≠ "\x7b") (closing : value ≠ "\x7d") : token.isBrace = false := by
  simp only [is, Bool.and_eq_true, beq_iff_eq] at found
  simp [isBrace, isDelimiter, is, found.2, opening, closing]

end Kinds

end Token

namespace Parse.State

/-- Whether a token means nothing between statements. -/
def isGap (token : Token) : Bool := isSeparator token || token.kind == .comment

theorem isBrace_eq_false_of_isGap {token : Token} (gap : isGap token = true) :
    token.isBrace = false := by
  simp only [isGap, isSeparator, Bool.or_eq_true, beq_iff_eq] at gap
  rcases gap with (lineEnd | semicolon) | comment
  · exact Token.isBrace_eq_false_of_kind (by simp [lineEnd])
  · exact Token.isBrace_eq_false_of_is semicolon (by decide) (by decide)
  · exact Token.isBrace_eq_false_of_kind (by simp [comment])

theorem isGap_of_isTrivia {token : Token} (trivia : isTrivia token = true) :
    isGap token = true := by
  simp only [isTrivia, Bool.or_eq_true] at trivia
  simp only [isGap, isSeparator, Bool.or_eq_true]
  exact trivia.imp .inl id

section Gaps

variable (open? : Bool) (tokens : List Token)

theorem dropWhile_isTrivia_cleared :
    (Token.cleared open? tokens).dropWhile isTrivia =
      Token.cleared true (tokens.dropWhile isTrivia) := by
  induction tokens generalizing open? with
  | nil => rfl
  | cons first rest ih =>
      by_cases comment : first.kind = .comment
      · rw [Token.cleared_comment comment, ih]
        simp [isTrivia, comment]
      · by_cases lineEnd : first.kind = .endOfLine
        · have drops : isTrivia first = true := by simp [isTrivia, lineEnd]
          rw [Token.cleared_lineEnd lineEnd, List.dropWhile_cons_of_pos drops]
          cases open? with
          | false => exact ih false
          | true => rw [if_pos rfl, List.dropWhile_cons_of_pos drops, ih]
        · have stays : ¬ isTrivia first = true := by simp [isTrivia, lineEnd, comment]
          rw [Token.cleared_other lineEnd comment, List.dropWhile_cons_of_neg stays,
            List.dropWhile_cons_of_neg stays, Token.cleared_other lineEnd comment]

theorem dropWhile_isSeparator_cleared :
    (Token.cleared open? tokens).dropWhile isSeparator =
      Token.cleared true (tokens.dropWhile isGap) := by
  induction tokens generalizing open? with
  | nil => rfl
  | cons first rest ih =>
      by_cases comment : first.kind = .comment
      · rw [Token.cleared_comment comment, ih]
        simp [isGap, comment]
      · by_cases lineEnd : first.kind = .endOfLine
        · have drops : isSeparator first = true := by simp [isSeparator, lineEnd]
          have drops' : isGap first = true := by simp [isGap, drops]
          rw [Token.cleared_lineEnd lineEnd, List.dropWhile_cons_of_pos drops']
          cases open? with
          | false => exact ih false
          | true => rw [if_pos rfl, List.dropWhile_cons_of_pos drops, ih]
        · have same : isGap first = isSeparator first := by simp [isGap, comment]
          rw [Token.cleared_other lineEnd comment, List.dropWhile_cons, List.dropWhile_cons, same]
          split
          · exact ih true
          · rw [Token.cleared_other lineEnd comment]

theorem find?_cleared :
    (Token.cleared open? tokens).find? (·.kind != .endOfLine) =
      tokens.find? fun token => !isTrivia token := by
  induction tokens generalizing open? with
  | nil => rfl
  | cons first rest ih =>
      by_cases comment : first.kind = .comment
      · rw [Token.cleared_comment comment, ih]
        simp [isTrivia, comment]
      · by_cases lineEnd : first.kind = .endOfLine
        · have passes : (!isTrivia first) = false := by simp [isTrivia, lineEnd]
          rw [Token.cleared_lineEnd lineEnd, List.find?_cons, passes]
          cases open? with
          | false => exact ih false
          | true => simp [lineEnd, ih]
        · rw [Token.cleared_other lineEnd comment]
          simp [isTrivia, lineEnd, comment]

end Gaps

/-- A state with no comments to come. A token that is no line end stands before it. -/
def cleared (state : State) : State := { state with rest := Token.cleared true state.rest }

/-- The state past all that means nothing between statements. -/
def skipGap (state : State) : State := { state with rest := state.rest.dropWhile isGap }

variable {state : State}

theorem skipTrivia_cleared (state : State) :
    state.cleared.skipTrivia = state.skipTrivia.cleared := by
  simp only [skipTrivia, cleared, dropWhile_isTrivia_cleared]

theorem skipNewlines_cleared (state : State) :
    state.cleared.skipNewlines = state.skipGap.cleared := by
  simp only [skipNewlines, skipGap, cleared, dropWhile_isSeparator_cleared]

/-- A token that is not the end of the input comes before it. -/
theorem exists_rest_of_more (more : state.current.kind ≠ .endOfInput) :
    ∃ later, state.rest = state.current :: later := by
  cases tokens : state.rest with
  | nil => exact absurd (current_of_rest_nil tokens) more
  | cons first later => exact ⟨later, by rw [current, tokens, List.headD_cons]⟩

theorem exists_rest_of_solid (solid : state.current.kind.isBlank = false) :
    ∃ later, state.rest = state.current :: later :=
  exists_rest_of_more fun ends => by simp [ends, Token.Kind.isBlank] at solid

theorem cleared_of_solid (solid : state.current.kind.isBlank = false) {later : List Token}
    (rest : state.rest = state.current :: later) :
    state.cleared.rest = state.current :: Token.cleared true later := by
  rw [cleared, rest]
  exact Token.cleared_other (fun lineEnd => by simp [lineEnd, Token.Kind.isBlank] at solid)
    fun comment => by simp [comment, Token.Kind.isBlank] at solid

/-- What comes next comes next without the comments as well, unless it is one. -/
theorem current_cleared (statement : state.current.kind ≠ .comment) :
    state.cleared.current = state.current := by
  cases tokens : state.rest with
  | nil => simp only [current, cleared, tokens, Token.cleared_nil]
  | cons first later =>
      rw [current, tokens, List.headD_cons] at statement
      simp only [current, cleared, tokens]
      by_cases lineEnd : first.kind = .endOfLine
      · rw [Token.cleared_lineEnd lineEnd, if_pos rfl, List.headD_cons, List.headD_cons]
      · rw [Token.cleared_other lineEnd statement, List.headD_cons, List.headD_cons]

theorem ne_comment_of_solid (solid : state.current.kind.isBlank = false) :
    state.current.kind ≠ .comment := fun comment => by simp [comment, Token.Kind.isBlank] at solid

theorem advance_cleared (solid : state.current.kind.isBlank = false) :
    state.cleared.advance = state.advance.cleared := by
  obtain ⟨later, rest⟩ := exists_rest_of_solid solid
  simp only [advance, cleared_of_solid solid rest, List.tail_cons]
  simp only [cleared, rest, List.tail_cons]

end Parse.State

/-- Behind every comment, the line ends. -/
def Token.Commented (tokens : List Token) : Prop :=
  tokens.IsChain fun first second => first.kind = .comment → second.kind = .endOfLine

theorem Token.Commented.suffix {tokens later : List Token} (commented : Commented tokens)
    (within : later <:+ tokens) : Commented later :=
  List.IsChain.suffix commented within

/-- Where a blank stands, one is left without the comments. -/
theorem Parse.State.isBlank_cleared {state : State} (commented : Token.Commented state.rest)
    (blank : state.current.kind.isBlank = true) : state.cleared.current.kind.isBlank = true := by
  by_cases comment : state.current.kind = .comment
  · cases tokens : state.rest with
    | nil => simp [current_of_rest_nil tokens] at comment
    | cons first later =>
        rw [tokens] at commented
        rw [current, tokens, List.headD_cons] at comment
        rw [current, cleared, tokens, Token.cleared_comment comment]
        cases later with
        | nil =>
            rw [Token.cleared_nil, List.headD_nil, state.stop_kind]
            rfl
        | cons second later =>
            have lineEnd := (List.isChain_cons_cons.mp commented).1 comment
            rw [Token.cleared_lineEnd lineEnd, if_pos rfl, List.headD_cons, lineEnd]
            rfl
  · rwa [current_cleared comment]

/-! ### Comments in the way -/

namespace Token

/-- Tokens in which every brace has its counterpart. -/
inductive Balanced : List Token → Prop where
  | nil : Balanced []
  | token {first : Token} {rest : List Token} :
      first.isBrace = false → Balanced rest → Balanced (first :: rest)
  | nest {opening closing : Token} {inner rest : List Token} :
      opening.isDelimiter "\x7b" = true → Balanced inner → closing.isDelimiter "\x7d" = true →
      Balanced rest → Balanced (opening :: inner ++ closing :: rest)

theorem Balanced.append {front back : List Token} (first : Balanced front)
    (second : Balanced back) : Balanced (front ++ back) := by
  induction first with
  | nil => exact second
  | token flat _ ih => exact .token flat ih
  | nest opens inner closes _ _ ih =>
      have nested := Balanced.nest opens inner closes ih
      rwa [← List.cons_append, ← List.append_assoc] at nested

theorem balanced_of_flat : ∀ {tokens : List Token}, (∀ token ∈ tokens, token.isBrace = false) →
    Balanced tokens
  | [], _ => .nil
  | _ :: _, flat => .token (flat _ List.mem_cons_self)
      (balanced_of_flat fun token present => flat token (List.mem_cons_of_mem _ present))

/-- A comment in the way of the parser, and the error that it runs into: a comment between a branch
and its `else`, or one behind a semicolon between the arms of a switch. -/
inductive Obstructs (tokens : List Token) : Error → Prop where
  | alternate {before gap after : List Token} {comment keyword : Token} :
      tokens = before ++ comment :: gap ++ keyword :: after →
      comment.kind = .comment → (∀ token ∈ gap, Parse.State.isTrivia token = true) →
      keyword.isKeyword "else" = true →
      Obstructs tokens ⟨.unexpectedToken keyword.value, keyword.position⟩
  | arm {before subject front gap after : List Token}
      {switch opening semicolon comment : Token} :
      tokens =
        before ++ switch :: subject ++ opening :: front ++ semicolon :: gap ++ comment :: after →
      switch.isKeyword "switch" = true → (∀ token ∈ subject, token.isBrace = false) →
      opening.isDelimiter "\x7b" = true → Balanced front → semicolon.isDelimiter ";" = true →
      (∀ token ∈ gap, Parse.State.isSeparator token = true) → comment.kind = .comment →
      Obstructs tokens ⟨.expectedToken "expression" comment.value, comment.position⟩

theorem Obstructs.of_infix {tokens part : List Token} {error : Error}
    (obstructs : Obstructs part error) (within : part <:+: tokens) : Obstructs tokens error := by
  obtain ⟨front, back, rfl⟩ := within
  cases obstructs with
  | @alternate before gap after comment keyword parts isComment trivia isKeyword =>
      have wider : front ++ part ++ back =
          (front ++ before) ++ comment :: gap ++ keyword :: (after ++ back) := by
        rw [parts]
        simp only [List.append_assoc, List.cons_append]
      exact .alternate wider isComment trivia isKeyword
  | @arm before subject inner gap after switch opening semicolon comment parts isSwitch flat opens
      balanced isSemicolon separators isComment =>
      have wider : front ++ part ++ back = (front ++ before) ++ switch :: subject ++
          opening :: inner ++ semicolon :: gap ++ comment :: (after ++ back) := by
        rw [parts]
        simp only [List.append_assoc, List.cons_append]
      exact .arm wider isSwitch flat opens balanced isSemicolon separators isComment

end Token

end SmallLang
