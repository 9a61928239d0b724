import Mathlib.Data.List.TakeWhile
import SmallLang.Proofs.Comment.Tokens
import SmallLang.Proofs.Parse.Unbounded.Loops

/-!
# Parsing without the comments

Each part of the parser does without the comments what it does with them. Where it reads on, both
runs are in the same place behind the part, and where it fails, so does the run without comments,
unless a comment is in the way.
-/

set_option autoImplicit false

namespace SmallLang.Parse

variable {α β : Type}

/-- What the tokens of some part look like: none is looked at twice, and only braces count. -/
structure Shape (shape : List Token → Prop) : Prop where
  append : ∀ {front back : List Token}, shape front → shape back → shape (front ++ back)
  flat : ∀ {tokens : List Token}, (∀ token ∈ tokens, token.isBrace = false) → shape tokens

/-- No token is a brace. -/
def Flat (tokens : List Token) : Prop := ∀ token ∈ tokens, token.isBrace = false

theorem shape_flat : Shape Flat :=
  ⟨fun front back => List.forall_mem_append.mpr ⟨front, back⟩, id⟩

theorem shape_balanced : Shape Token.Balanced := ⟨.append, Token.balanced_of_flat⟩

/-- A parser fails with an error, or because it may not go deeper. -/
def FailsWith (parser : Parse α) (error : Error) (state : State) : Prop :=
  ∃ halt after, parser state = .error halt after ∧ (halt = .error error ∨ halt = .exhausted)

theorem failsWith_congr {first second : Parse α} {error : Error} {state later : State}
    (same : first state = second later) (fails : FailsWith second error later) :
    FailsWith first error state := by
  unfold FailsWith
  rwa [same]

theorem FailsWith.bind {parser : Parse α} {next : α → Parse β} {error : Error} {state : State}
    (fails : FailsWith parser error state) : FailsWith (parser >>= next) error state := by
  obtain ⟨halt, after, result, reason⟩ := fails
  exact ⟨halt, after, bind_of_error result, reason⟩

/-- With the comments in a state, a parser does the same as another one without them. If it
succeeds, it has read tokens of some shape, and the other one is where it is, unless what comes next
is loose. If it fails, so does the other one, unless a comment is in the way. -/
def MirrorsAt (shape loose : List Token → Prop) (parser parser' : Parse α) (clean : α → α)
    (state : State) : Prop :=
  match parser state with
  | .ok value after =>
      (∃ part, state.rest = part ++ after.rest ∧ shape part) ∧
        (parser' state.cleared = .ok (clean value) after.cleared ∨ loose after.rest)
  | .error (.error error) _ =>
      (∃ halt after, parser' state.cleared = .error halt after) ∨
        Token.Obstructs state.rest error
  | .error .exhausted _ => True

/-- Nothing that comes next is loose. -/
def Never (_ : List Token) : Prop := False

/-- A parser does the same without the comments, wherever the line ends behind each of them. -/
def Mirrors (shape : List Token → Prop) (parser parser' : Parse α) (clean : α → α) : Prop :=
  ∀ state : State, Token.Commented state.rest →
    MirrorsAt shape Never parser parser' clean state

namespace MirrorsAt

variable {shape loose : List Token → Prop} {clean : α → α} {state : State}

theorem imp {shape' loose' : List Token → Prop} {parser parser' : Parse α}
    (mirrors : MirrorsAt shape loose parser parser' clean state)
    (parts : ∀ part, shape part → shape' part) (next : ∀ later, loose later → loose' later) :
    MirrorsAt shape' loose' parser parser' clean state := by
  unfold MirrorsAt at *
  split <;> rename_i result <;> rw [result] at mirrors
  · obtain ⟨⟨part, splits, allowed⟩, same⟩ := mirrors
    exact ⟨⟨part, splits, parts part allowed⟩, same.imp_right (next _)⟩
  · exact mirrors
  · trivial

/-- Only what the parsers do in the state and without its comments counts. -/
theorem congr {first first' second second' : Parse α} (same : first state = second state)
    (same' : first' state.cleared = second' state.cleared)
    (mirrors : MirrorsAt shape loose second second' clean state) :
    MirrorsAt shape loose first first' clean state := by
  unfold MirrorsAt at *
  rwa [same, same']

theorem exhausted {parser' : Parse α} :
    MirrorsAt shape loose Parse.exhausted parser' clean state :=
  trivial

theorem halt {parser parser' : Parse α} (halts : ∃ halt after, parser state = .error halt after)
    (halts' : ∃ halt after, parser' state.cleared = .error halt after) :
    MirrorsAt shape loose parser parser' clean state := by
  obtain ⟨halt, after, result⟩ := halts
  unfold MirrorsAt
  rw [result]
  cases halt with
  | error error => exact .inl halts'
  | exhausted => trivial

theorem of_exhausted {parser parser' : Parse α} {after : State}
    (result : parser state = .error .exhausted after) :
    MirrorsAt shape loose parser parser' clean state := by
  unfold MirrorsAt
  rw [result]
  trivial

/-- A comment in the way may have a parser fail that does not without it. -/
theorem of_failsWith {parser parser' : Parse α} {error : Error}
    (fails : FailsWith parser error state) (obstructs : Token.Obstructs state.rest error) :
    MirrorsAt shape loose parser parser' clean state := by
  obtain ⟨halt, after, result, rfl | rfl⟩ := fails
  · unfold MirrorsAt
    rw [result]
    exact .inr obstructs
  · exact of_exhausted result

theorem fail {error error' : Error} :
    MirrorsAt shape loose (Parse.fail error) (Parse.fail error') clean state :=
  halt ⟨_, _, rfl⟩ ⟨_, _, rfl⟩

theorem expected {what what' : String} :
    MirrorsAt shape loose (Parse.expected what) (Parse.expected what') clean state :=
  halt ⟨_, _, rfl⟩ ⟨_, _, rfl⟩

theorem get_bind {next next' : State → Parse α}
    (mirrors : MirrorsAt shape loose (next state) (next' state.cleared) clean state) :
    MirrorsAt shape loose (get >>= next) (get >>= next') clean state :=
  congr rfl rfl mirrors

theorem current_bind_of_solid {next next' : Token → Parse α}
    (solid : state.current.kind.isBlank = false)
    (mirrors : MirrorsAt shape loose (next state.current) (next' state.current) clean state) :
    MirrorsAt shape loose (current >>= next) (current >>= next') clean state := by
  refine congr rfl ?_ mirrors
  change next' state.cleared.current state.cleared = _
  rw [State.current_cleared (State.ne_comment_of_solid solid)]

/-- A parser looks at the next token. Blanks are all the same to it. -/
theorem current_bind {next next' : Token → Parse α} (commented : Token.Commented state.rest)
    (proper : state.current.kind.isBlank = false →
      MirrorsAt shape loose (next state.current) (next' state.current) clean state)
    (blank : ∀ token token' : Token, token.kind.isBlank = true → token'.kind.isBlank = true →
      MirrorsAt shape loose (next token) (next' token') clean state) :
    MirrorsAt shape loose (current >>= next) (current >>= next') clean state := by
  cases kind : state.current.kind.isBlank with
  | false => exact current_bind_of_solid kind (proper kind)
  | true => exact congr rfl rfl (blank _ _ kind (State.isBlank_cleared commented kind))

/-- Where what comes next is loose, a parser that reads nothing need not do the same. -/
theorem of_loose (closed : Shape shape) {value : α} {parser' : Parse α} (next : loose state.rest) :
    MirrorsAt shape loose (Pure.pure value) parser' clean state :=
  ⟨⟨[], rfl, closed.flat (List.forall_mem_nil _)⟩, .inr next⟩

/-- What a parser does from a later place counts from an earlier one as well. -/
theorem from_later {shape' : List Token → Prop} {first first' second second' : Parse α}
    (later : State) {part : List Token} (splits : state.rest = part ++ later.rest)
    (extends' : ∀ more, shape' more → shape (part ++ more))
    (same : first state = second later) (same' : first' state.cleared = second' later.cleared)
    (mirrors : MirrorsAt shape' loose second second' clean later) :
    MirrorsAt shape loose first first' clean state := by
  unfold MirrorsAt at *
  rw [same, same']
  split <;> rename_i result <;> rw [result] at mirrors
  · obtain ⟨⟨more, splits', allowed⟩, goesOn⟩ := mirrors
    refine ⟨⟨part ++ more, ?_, extends' more allowed⟩, goesOn⟩
    rw [splits, splits', List.append_assoc]
  · refine mirrors.imp_right ?_
    intro obstructs
    exact obstructs.of_infix (List.IsSuffix.isInfix ⟨part, splits.symm⟩)
  · trivial

/-- Where the first part fails, the rest does not matter. -/
theorem of_bind_error {shape' loose' : List Token → Prop} {first first' : Parse β}
    {next next' : β → Parse α} {clean' : β → β} {halt : Halt} {after : State}
    (result : first state = .error halt after)
    (begins : MirrorsAt shape' loose' first first' clean' state) :
    MirrorsAt shape loose (first >>= next) (first' >>= next') clean state := by
  unfold MirrorsAt at *
  rw [result] at begins
  rw [Parse.bind_of_error result]
  cases halt with
  | exhausted => trivial
  | error error =>
      exact begins.imp_left fun ⟨halt, after, fails⟩ => ⟨halt, after, Parse.bind_of_error fails⟩

/-- What is made of a value in the end moves neither run. -/
theorem map {first first' : Parse β} {make make' : β → α} {clean' : β → β}
    (mirrors : MirrorsAt shape loose first first' clean' state)
    (same : ∀ value, clean (make value) = make' (clean' value)) :
    MirrorsAt shape loose (first >>= fun value => Pure.pure (make value))
      (first' >>= fun value => Pure.pure (make' value)) clean state := by
  cases result : first state with
  | ok value after =>
      unfold MirrorsAt at *
      rw [result] at mirrors
      rw [bind_of_ok result]
      refine ⟨mirrors.1, mirrors.2.imp_left fun goesOn => ?_⟩
      rw [bind_of_ok goesOn, ← same]
      rfl
  | error halt after => exact of_bind_error result mirrors

theorem modify_bind {change : State → State} {next next' : PUnit → Parse α}
    (rest : (change state).rest = state.rest)
    (same : change state.cleared = (change state).cleared)
    (mirrors : MirrorsAt shape loose (next ()) (next' ()) clean (change state)) :
    MirrorsAt shape loose (modify change >>= next) (modify change >>= next') clean state := by
  have splits : state.rest = [] ++ (change state).rest := by rw [rest, List.nil_append]
  refine from_later (change state) splits (fun _ => id) rfl ?_ mirrors
  change next' () (change state.cleared) = next' () _
  rw [same]

variable (closed : Shape shape)
include closed

theorem pure {value value' : α} (same : clean value = value') :
    MirrorsAt shape loose (Pure.pure value) (Pure.pure value') clean state := by
  subst same
  exact ⟨⟨[], rfl, closed.flat (List.forall_mem_nil _)⟩, .inl rfl⟩

theorem bind {first first' : Parse β} {next next' : β → Parse α} {clean' : β → β}
    (begins : MirrorsAt shape Never first first' clean' state)
    (commented : Token.Commented state.rest)
    (goesOn : ∀ value after, first state = .ok value after → Token.Commented after.rest →
      MirrorsAt shape loose (next value) (next' (clean' value)) clean after) :
    MirrorsAt shape loose (first >>= next) (first' >>= next') clean state := by
  cases result : first state with
  | ok value after =>
      unfold MirrorsAt at begins
      rw [result] at begins
      obtain ⟨⟨part, splits, allowed⟩, same | never⟩ := begins
      · exact from_later after splits (fun _ => closed.append allowed) (bind_of_ok result)
          (bind_of_ok same)
          (goesOn value after result (commented.suffix ⟨part, splits.symm⟩))
      · exact never.elim
  | error halt after => exact of_bind_error result begins

/-- The next part, behind one in which there are no comments to be left out. -/
theorem after {first first' : Parse β} {next next' : β → Parse α}
    (begins : MirrorsAt shape Never first first' id state)
    (commented : Token.Commented state.rest)
    (goesOn : ∀ value after, first state = .ok value after → Token.Commented after.rest →
      MirrorsAt shape loose (next value) (next' value) clean after) :
    MirrorsAt shape loose (first >>= next) (first' >>= next') clean state :=
  begins.bind closed commented goesOn

/-- Behind a token that is no blank and no brace, both runs are in the same place. -/
theorem advance_bind {next next' : Token → Parse α} (solid : state.current.kind.isBlank = false)
    (flat : state.current.isBrace = false)
    (mirrors : MirrorsAt shape loose (next state.current) (next' state.current) clean
      state.advance) :
    MirrorsAt shape loose (advance >>= next) (advance >>= next') clean state := by
  obtain ⟨later, rest⟩ := State.exists_rest_of_solid solid
  have splits : state.rest = [state.current] ++ state.advance.rest := by
    rw [State.advance, rest]
    rfl
  refine from_later state.advance splits
    (fun _ => closed.append (closed.flat (List.forall_mem_singleton.mpr flat))) rfl ?_ mirrors
  change next' state.cleared.current state.cleared.advance = next' state.current _
  rw [State.current_cleared (State.ne_comment_of_solid solid), State.advance_cleared solid]

theorem consume_bind {next next' : Unit → Parse α} (solid : state.current.kind.isBlank = false)
    (flat : state.current.isBrace = false)
    (mirrors : MirrorsAt shape loose (next ()) (next' ()) clean state.advance) :
    MirrorsAt shape loose (consume >>= next) (consume >>= next') clean state := by
  have moves : MirrorsAt shape loose (Parse.advance >>= fun _ => next ())
      (Parse.advance >>= fun _ => next' ()) clean state := advance_bind closed solid flat mirrors
  exact moves.congr rfl rfl

theorem skipTrivia_bind {next next' : Unit → Parse α}
    (mirrors : MirrorsAt shape loose (next ()) (next' ()) clean state.skipTrivia) :
    MirrorsAt shape loose (skipTrivia >>= next) (skipTrivia >>= next') clean state := by
  have splits : state.rest = state.rest.takeWhile State.isTrivia ++ state.skipTrivia.rest :=
    List.takeWhile_append_dropWhile.symm
  refine from_later state.skipTrivia splits
    (fun _ => closed.append (closed.flat fun token present => ?_)) rfl ?_ mirrors
  · exact State.isBrace_eq_false_of_isGap
      (State.isGap_of_isTrivia (List.mem_takeWhile_imp present))
  · change next' () state.cleared.skipTrivia = next' () _
    rw [State.skipTrivia_cleared]

theorem advance (solid : state.current.kind.isBlank = false)
    (flat : state.current.isBrace = false) :
    MirrorsAt shape loose Parse.advance Parse.advance id state := by
  have mirrors : MirrorsAt shape loose (Parse.advance >>= Pure.pure) (Parse.advance >>= Pure.pure)
      id state := advance_bind closed solid flat (.pure closed rfl)
  rwa [bind_pure] at mirrors

theorem consume (solid : state.current.kind.isBlank = false)
    (flat : state.current.isBrace = false) :
    MirrorsAt shape loose Parse.consume Parse.consume id state := by
  have mirrors : MirrorsAt shape loose (Parse.consume >>= Pure.pure) (Parse.consume >>= Pure.pure)
      id state := consume_bind closed solid flat (.pure closed rfl)
  rwa [bind_pure] at mirrors

end MirrorsAt

namespace Mirrors

variable {shape : List Token → Prop} {clean : α → α}

theorem here {parser parser' : Parse α} {state : State} {loose : List Token → Prop}
    (mirrors : Mirrors shape parser parser' clean) (commented : Token.Commented state.rest) :
    MirrorsAt shape loose parser parser' clean state :=
  (mirrors state commented).imp (fun _ => id) fun _ never => never.elim

theorem imp {shape' : List Token → Prop} {parser parser' : Parse α}
    (mirrors : Mirrors shape parser parser' clean) (parts : ∀ part, shape part → shape' part) :
    Mirrors shape' parser parser' clean :=
  fun state commented => (mirrors state commented).imp parts fun _ => id

theorem exhausted {parser' : Parse α} : Mirrors shape Parse.exhausted parser' clean :=
  fun _ _ => .exhausted

theorem expected (what : String) :
    Mirrors shape (Parse.expected what) (Parse.expected what) clean :=
  fun _ _ => .expected

theorem pure (closed : Shape shape) {value value' : α} (same : clean value = value') :
    Mirrors shape (Pure.pure value) (Pure.pure value') clean :=
  fun _ _ => .pure closed same

theorem bind (closed : Shape shape) {first first' : Parse β} {next next' : β → Parse α}
    {clean' : β → β} (begins : Mirrors shape first first' clean')
    (goesOn : ∀ value, Mirrors shape (next value) (next' (clean' value)) clean) :
    Mirrors shape (first >>= next) (first' >>= next') clean :=
  fun state commented => (begins state commented).bind closed commented
    fun value after _ commented => goesOn value after commented

/-- The next part, behind one in which there are no comments to be left out. -/
theorem after (closed : Shape shape) {first first' : Parse β} {next next' : β → Parse α}
    (begins : Mirrors shape first first' id)
    (goesOn : ∀ value, Mirrors shape (next value) (next' value) clean) :
    Mirrors shape (first >>= next) (first' >>= next') clean :=
  begins.bind closed goesOn

theorem skipTrivia_bind (closed : Shape shape) {next next' : Unit → Parse α}
    (goesOn : Mirrors shape (next ()) (next' ()) clean) :
    Mirrors shape (skipTrivia >>= next) (skipTrivia >>= next') clean :=
  fun state commented => .skipTrivia_bind closed
    (goesOn state.skipTrivia (commented.suffix (List.dropWhile_suffix _)))

/-- A token that is passed over if it is the right one, and otherwise stays where it is. -/
theorem take (closed : Shape shape) {kind : Token.Kind} {text : String} {yes yes' no no' : Parse α}
    (proper : kind.isBlank = false) (opening : text ≠ "\x7b") (closing : text ≠ "\x7d")
    (first : Mirrors shape yes yes' clean) (second : Mirrors shape no no' clean) :
    Mirrors shape (do if (← current).is kind text then do consume; yes else no)
      (do if (← current).is kind text then do consume; yes' else no') clean := by
  intro state commented
  refine .current_bind commented (fun solid => ?_) fun token token' blank blank' => ?_
  · split
    · next found =>
        exact .consume_bind closed solid (Token.isBrace_eq_false_of_is found opening closing)
          (first.here (commented.suffix state.advance_suffix))
    · exact second.here commented
  · rw [Token.is_eq_false_of_isBlank blank proper, Token.is_eq_false_of_isBlank blank' proper]
    exact second.here commented

section Tokens

theorem expect {kind : Token.Kind} {text : String} (proper : kind.isBlank = false)
    (opening : text ≠ "\x7b") (closing : text ≠ "\x7d") :
    Mirrors Flat (Parse.expect kind text) (Parse.expect kind text) id := by
  intro state commented
  refine .current_bind commented (fun solid => ?_) fun token token' blank blank' => ?_
  · split
    · next found =>
        exact .advance shape_flat solid (Token.isBrace_eq_false_of_is found opening closing)
    · exact .expected
  · rw [Token.is_eq_false_of_isBlank blank proper, Token.is_eq_false_of_isBlank blank' proper]
    exact .expected

theorem identifier (what : String) :
    Mirrors Flat (Parse.identifier what) (Parse.identifier what) id := by
  intro state commented
  refine .current_bind commented (fun solid => ?_) fun token token' blank blank' => ?_
  · split
    · next found =>
        rw [beq_iff_eq] at found
        exact .advance_bind shape_flat solid (Token.isBrace_eq_false_of_kind (by simp [found]))
          (.pure shape_flat rfl)
    · exact .expected
  · rw [Token.kind_beq_of_isBlank blank rfl, Token.kind_beq_of_isBlank blank' rfl]
    exact .expected

theorem typeName : Mirrors Flat Parse.typeName Parse.typeName id := by
  intro state commented
  refine .current_bind commented (fun solid => ?_) fun token token' blank blank' => ?_
  · split
    · next found =>
        have other : state.current.kind ≠ .delimiter := by
          rcases Bool.or_eq_true_iff.mp found with found | found
          · simp [beq_iff_eq.mp found]
          · simp [Token.kind_of_is found]
        exact .consume_bind shape_flat solid (Token.isBrace_eq_false_of_kind other)
          (.pure shape_flat rfl)
    · exact .expected
  · have differs {token : Token} (blank : token.kind.isBlank = true) :
        (token.kind == .identifier || token.isKeyword "null") = false := by
      rw [Token.kind_beq_of_isBlank blank rfl, Token.isKeyword_of_isBlank blank, Bool.false_or]
    rw [differs blank, differs blank']
    exact .expected

theorem listSeparator : Mirrors Flat Parse.listSeparator Parse.listSeparator id := by
  intro state commented
  refine .current_bind commented (fun solid => ?_) fun token token' blank blank' => ?_
  · split
    · next found =>
        exact .consume shape_flat solid (Token.isBrace_eq_false_of_is found (by decide) (by decide))
    · split
      · exact .pure shape_flat rfl
      · exact .expected
  · simp only [Token.isDelimiter_of_isBlank blank, Token.isDelimiter_of_isBlank blank']
    exact .expected

end Tokens

section Lists

variable {item item' : Parse α}

theorem listItems (items : Mirrors Flat item item' clean) (takes : Takes item') (depth : Nat) :
    Mirrors Flat (Parse.listItems item depth) (Parse.items item') (List.map clean) := by
  induction depth with
  | zero => exact .exhausted
  | succ depth ih =>
      rw [items_eq takes]
      refine .skipTrivia_bind shape_flat ?_
      intro state commented
      have goesOn : Mirrors Flat (do
            let first ← item
            Parse.skipTrivia
            Parse.listSeparator
            return first :: (← Parse.listItems item depth))
          (do
            let first ← item'
            Parse.skipTrivia
            Parse.listSeparator
            return first :: (← Parse.items item')) (List.map clean) :=
        items.bind shape_flat fun first => .skipTrivia_bind shape_flat <|
          listSeparator.after shape_flat fun _ => ih.bind shape_flat fun rest =>
            .pure shape_flat rfl
      refine .current_bind commented (fun _ => ?_) fun token token' blank blank' => ?_
      · split
        · exact .pure shape_flat rfl
        · exact goesOn.here commented
      · rw [Token.isDelimiter_of_isBlank blank, Token.isDelimiter_of_isBlank blank']
        exact goesOn.here commented

/-- Between parentheses comments are passed over. -/
theorem list (items : Mirrors Flat item item' clean) (takes : Takes item') :
    Mirrors Flat (Parse.list item) (Parse.list item') (List.map clean) := by
  have found : Mirrors Flat (Parse.items item) (Parse.items item') (List.map clean) :=
    fun state commented => (items.listItems takes state.rounds state commented).congr rfl rfl
  rw [list_eq, list_eq]
  exact found.bind shape_flat fun _ =>
    (expect rfl (by decide) (by decide)).after shape_flat fun _ => .pure shape_flat rfl

end Lists

end Mirrors

end SmallLang.Parse
