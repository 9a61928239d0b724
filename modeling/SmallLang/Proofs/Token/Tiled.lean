import Mathlib.Data.List.Chain
import SmallLang.Proofs.Token.Spelling

/-!
# Tokens account for their source

The tokens of a source lie in it one after the other. What none of them covers is blank, and a word,
a number or a symbol is written as it stands there and could not be longer.
-/

set_option autoImplicit false

namespace SmallLang.Token

open Lexeme

/-- What leaves a token at the head of a text. A line end does if a token that is none stands
before it. -/
inductive Marks : Bool → Kind → String → List Char → List Char → Prop where
  | token {open? : Bool} {kind : Kind} {value : String} {text later : List Char} :
      Takes (.token kind value) text later → Marks open? kind value text later
  | lineEnd {text later : List Char} : Marks true .endOfLine "\n" text later

/-- The tokens of a text that begins at a byte of a file. `open?` tells whether a token other than
a line end stands before it. -/
inductive Tiles (file : String) : Nat → Bool → List Char → List Token → Prop where
  | finish {offset : Nat} {open? : Bool} :
      Tiles file offset open? [] [finish ⟨file, offset, offset⟩]
  | token {offset : Nat} {open? : Bool} {kind : Kind} {value : String} {text later : List Char}
      {tokens : List Token} : Marks open? kind value text later →
      Tiles file (offset + Text.byteLength text) (kind != .endOfLine) later tokens →
      Tiles file offset open? (text ++ later)
        (⟨kind, value, ⟨file, offset, offset + Text.byteLength text⟩⟩ :: tokens)
  | gap {offset : Nat} {open? : Bool} {text later : List Char} {tokens : List Token} :
      (∀ c ∈ text, isBreak c = true) → (open? = true → '\n' ∉ text) →
      Tiles file (offset + Text.byteLength text) open? later tokens →
      Tiles file offset open? (text ++ later) tokens

section Scanning

theorem exists_of_map_eq {tokens : List Token} {first : Token}
    {scanned : Except Error (List Token)} (maps : scanned.map (first :: ·) = .ok tokens) :
    ∃ rest, scanned = .ok rest ∧ tokens = first :: rest := by
  cases scanned with
  | ok rest =>
      cases maps
      exact ⟨rest, rfl, rfl⟩
  | error error => cases maps

theorem tiles_of_scanFrom {file : String} : ∀ {offset : Nat} {open? : Bool} (text : List Char)
    {tokens : List Token}, scanFrom file offset open? text = .ok tokens →
      Tiles file offset open? text tokens
  | offset, open?, [], tokens, scans => by
      rw [scanFrom] at scans
      cases scans
      exact .finish
  | offset, open?, first :: rest, tokens, scans => by
      rw [scanFrom] at scans
      split at scans
      · cases scans
      · next lexeme reads =>
          have takes := takes_of_read reads
          have whole : first :: rest = first :: rest.take lexeme.more ++ rest.drop lexeme.more := by
            rw [List.cons_append, List.take_append_drop]
          rw [whole]
          simp only at scans
          split at scans
          · next kind value content =>
              obtain ⟨more, scans', rfl⟩ := exists_of_map_eq scans
              rw [content] at takes
              refine .token (.token takes) ?_
              rw [bne_iff_ne.mpr takes.kind_ne.1]
              exact tiles_of_scanFrom _ scans'
          · next content =>
              rw [content] at takes
              split at scans
              · next marked =>
                  obtain ⟨more, scans', rfl⟩ := exists_of_map_eq scans
                  rw [marked]
                  exact .token .lineEnd (tiles_of_scanFrom _ scans')
              · next unmarked =>
                  rw [Bool.not_eq_true] at unmarked
                  rw [unmarked]
                  refine .gap takes.isBreak (fun marked => ?_) (tiles_of_scanFrom _ scans)
                  cases marked
          · next content =>
              rw [content] at takes
              have spaces := takes.isSpace
              refine .gap (fun c present => ?_) (fun _ newline => ?_) (tiles_of_scanFrom _ scans)
              · rw [isBreak, spaces c present, Bool.true_or]
              · exact absurd (spaces '\n' newline) (by decide)
termination_by _ _ text => text.length
decreasing_by all_goals simp only [List.length_cons, List.length_drop]; omega

end Scanning

section Tiles

variable {file : String} {offset : Nat} {open? : Bool} {text : List Char} {tokens : List Token}

namespace Tiles

/-- No token lies outside the text. -/
theorem bounded (tiles : Tiles file offset open? text tokens) : ∀ token ∈ tokens,
    token.span.file = file ∧ offset ≤ token.span.start ∧ token.span.start ≤ token.span.stop ∧
      token.span.stop ≤ offset + Text.byteLength text := by
  induction tiles with
  | finish =>
      intro token present
      obtain rfl := List.mem_singleton.mp present
      exact ⟨rfl, Nat.le_refl _, Nat.le_refl _, Nat.le_refl _⟩
  | token _ _ ih =>
      rw [Text.byteLength_append]
      refine List.forall_mem_cons.mpr ⟨⟨rfl, Nat.le_refl _, ?_, ?_⟩, fun token present => ?_⟩
      · exact Nat.le_add_right _ _
      · exact Nat.add_le_add_left (Nat.le_add_right _ _) _
      · obtain ⟨inFile, start, proper, stop⟩ := ih token present
        exact ⟨inFile, by omega, proper, by omega⟩
  | gap _ _ _ ih =>
      rw [Text.byteLength_append]
      intro token present
      obtain ⟨inFile, start, proper, stop⟩ := ih token present
      exact ⟨inFile, by omega, proper, by omega⟩

theorem ordered (tiles : Tiles file offset open? text tokens) :
    tokens.Pairwise fun earlier later => earlier.span.stop ≤ later.span.start := by
  induction tiles with
  | finish => exact List.pairwise_singleton _ _
  | token _ tiles ih =>
      exact List.pairwise_cons.mpr ⟨fun later present => (tiles.bounded later present).2.1, ih⟩
  | gap _ _ _ ih => exact ih

/-- A character of two texts one after the other stands in the first or in the second. -/
private theorem append_eq_append_cons {front later before after : List Char} {c : Char}
    (same : front ++ later = before ++ c :: after) :
    (∃ more, front = before ++ c :: more) ∨
      ∃ before', before = front ++ before' ∧ later = before' ++ c :: after := by
  obtain ⟨before', isBefore, isLater⟩ | ⟨more, isFront, isAfter⟩ :=
    List.append_eq_append_iff.mp same
  · exact .inr ⟨before', isBefore, isLater⟩
  · cases more with
    | nil =>
        rw [List.append_nil] at isFront
        exact .inr ⟨[], by rw [isFront, List.append_nil], isAfter.symm⟩
    | cons first more =>
        obtain ⟨rfl, _⟩ := List.cons.inj isAfter
        exact .inl ⟨more, isFront⟩

/-- A byte in no token belongs to a blank. -/
theorem covered (tiles : Tiles file offset open? text tokens) {before after : List Char} {c : Char}
    {byte : Nat} (same : text = before ++ c :: after)
    (from' : offset + Text.byteLength before ≤ byte)
    (upTo : byte < offset + Text.byteLength before + c.utf8Size)
    (outside : ∀ token ∈ tokens, ¬ (token.span.start ≤ byte ∧ byte < token.span.stop)) :
    isBreak c = true := by
  induction tiles generalizing before with
  | finish => cases before <;> cases same
  | @token offset _ _ _ text _ _ _ _ ih =>
      obtain ⟨more, rfl⟩ | ⟨before', rfl, same'⟩ := append_eq_append_cons same
      · refine absurd ⟨Nat.le_of_add_right_le from', Nat.lt_of_lt_of_le upTo ?_⟩
          (outside _ List.mem_cons_self)
        change _ ≤ offset + Text.byteLength (before ++ c :: more)
        rw [Text.byteLength_append, Text.byteLength_cons]
        omega
      · rw [Text.byteLength_append, ← Nat.add_assoc] at from' upTo
        exact ih same' from' upTo
          fun token present => outside token (List.mem_cons_of_mem _ present)
  | gap breaks _ _ ih =>
      obtain ⟨more, rfl⟩ | ⟨before', rfl, same'⟩ := append_eq_append_cons same
      · exact breaks c (List.mem_append_right _ List.mem_cons_self)
      · rw [Text.byteLength_append, ← Nat.add_assoc] at from' upTo
        exact ih same' from' upTo outside

/-- Where a token that is spelled as it is meant stands in the text. -/
theorem exact (tiles : Tiles file offset open? text tokens) :
    ∀ token ∈ tokens, token.kind.isSpelled = true → ∃ before after,
      text = before ++ token.value.toList ++ after ∧
      token.span.start = offset + Text.byteLength before ∧
      token.span.stop = offset + Text.byteLength (before ++ token.value.toList) ∧
      IsSpelling token.kind token.value.toList ∧
      IsLongest token.value.toList (token.value.toList ++ after) := by
  induction tiles with
  | finish =>
      intro token present spelled
      obtain rfl := List.mem_singleton.mp present
      cases spelled
  | @token offset _ _ _ text later _ marks _ ih =>
      refine List.forall_mem_cons.mpr ⟨fun spelled => ?_, fun token present spelled => ?_⟩
      · cases marks with
        | token takes =>
            obtain ⟨rfl, spelling, longest⟩ := takes.of_isSpelled spelled
            exact ⟨[], later, rfl, rfl, rfl, spelling, longest⟩
        | lineEnd => cases spelled
      · obtain ⟨before, after, rfl, start, stop, longest⟩ := ih token present spelled
        refine ⟨text ++ before, after, by simp, ?_, ?_, longest⟩
        · rw [start, Text.byteLength_append, Nat.add_assoc]
        · rw [stop, List.append_assoc, Text.byteLength_append text, Nat.add_assoc]
  | @gap offset _ text later _ _ _ _ ih =>
      intro token present spelled
      obtain ⟨before, after, rfl, start, stop, longest⟩ := ih token present spelled
      refine ⟨text ++ before, after, by simp, ?_, ?_, longest⟩
      · rw [start, Text.byteLength_append, Nat.add_assoc]
      · rw [stop, List.append_assoc, Text.byteLength_append text, Nat.add_assoc]

/-- A line end leaves a token only behind a token that is none. -/
theorem head_ne_endOfLine (tiles : Tiles file offset false text tokens) :
    ∀ first ∈ tokens.head?, first.kind ≠ .endOfLine := by
  generalize isOpen : false = open? at tiles
  induction tiles with
  | finish =>
      intro first head
      cases head
      exact Kind.noConfusion
  | token marks _ _ =>
      intro first head
      cases head
      cases marks with
      | token takes => exact takes.kind_ne.1
      | lineEnd => cases isOpen
  | gap _ _ _ ih => exact ih isOpen

/-- A token comes of the line end or the end of the input that stands behind another token. -/
theorem head_of_newline (tiles : Tiles file offset true text tokens)
    (newline : ∀ c ∈ text.head?, c = '\n') :
    ∃ first ∈ tokens.head?, first.kind = .endOfLine ∨ first.kind = .endOfInput := by
  generalize isOpen : true = open? at tiles
  induction tiles with
  | finish => exact ⟨_, rfl, .inr rfl⟩
  | token marks _ _ =>
      refine ⟨_, rfl, .inl ?_⟩
      cases marks with
      | token takes =>
          obtain ⟨first, rest, rfl, differs⟩ := takes.exists_head
          exact absurd (newline first rfl) differs
      | lineEnd => rfl
  | @gap _ _ text _ _ _ noNewline _ ih =>
      cases text with
      | nil => exact ih newline isOpen
      | cons first rest =>
          obtain rfl := newline first rfl
          exact absurd List.mem_cons_self (noNewline isOpen.symm)

/-- What may come next to a token. -/
theorem isChain (tiles : Tiles file offset open? text tokens) :
    tokens.IsChain fun first second =>
      (first.kind = .endOfLine → second.kind ≠ .endOfLine) ∧
      (first.kind = .comment → second.kind = .endOfLine ∨ second.kind = .endOfInput) := by
  induction tiles with
  | finish => exact List.isChain_singleton _
  | @token _ _ kind _ _ later tokens marks tiles ih =>
      refine List.isChain_cons.mpr ⟨fun second head => ⟨?_, ?_⟩, ih⟩
      · rintro rfl
        exact tiles.head_ne_endOfLine second head
      · rintro rfl
        cases marks with
        | token takes =>
            obtain ⟨first, head', ends⟩ := tiles.head_of_newline takes.of_comment
            obtain rfl : first = second := Option.some.inj (head'.symm.trans head)
            exact ends
  | gap _ _ _ ih => exact ih

/-- The end of the input is marked once, and last. -/
theorem finished (tiles : Tiles file offset open? text tokens) :
    ∃ front, tokens = front ++ [Token.finish ⟨file, offset + Text.byteLength text,
        offset + Text.byteLength text⟩] ∧ ∀ token ∈ front, token.kind ≠ .endOfInput := by
  induction tiles with
  | finish => exact ⟨[], rfl, List.forall_mem_nil _⟩
  | @token _ _ _ _ _ _ _ marks _ ih =>
      obtain ⟨front, rfl, proper⟩ := ih
      rw [Text.byteLength_append, ← Nat.add_assoc]
      refine ⟨_ :: front, rfl, List.forall_mem_cons.mpr ⟨?_, proper⟩⟩
      cases marks with
      | token takes => exact takes.kind_ne.2
      | lineEnd => exact Kind.noConfusion
  | gap _ _ _ ih =>
      rw [Text.byteLength_append, ← Nat.add_assoc]
      exact ih

end Tiles

end Tiles

/-- The tokens of a source account for all of it. -/
structure Accounts (source file : String) (tokens : List Token) : Prop where
  bounded : ∀ token ∈ tokens, token.span.file = file ∧ token.span.start ≤ token.span.stop ∧
    token.span.stop ≤ Text.byteLength source.toList
  ordered : tokens.Pairwise fun earlier later => earlier.span.stop ≤ later.span.start
  /-- A byte in no span belongs to a blank. -/
  covered : ∀ before c after byte, source.toList = before ++ c :: after →
    Text.byteLength before ≤ byte → byte < Text.byteLength before + c.utf8Size →
    (∀ token ∈ tokens, ¬ (token.span.start ≤ byte ∧ byte < token.span.stop)) →
    c ∈ [' ', '\t', '\r', '\n']
  /-- A word, a number or a symbol is the text of its span, and no longer one begins there. -/
  exact : ∀ token ∈ tokens, token.kind.isSpelled = true → ∃ before after,
    source.toList = before ++ token.value.toList ++ after ∧
    token.span = ⟨file, Text.byteLength before, Text.byteLength (before ++ token.value.toList)⟩ ∧
    IsSpelling token.kind token.value.toList ∧
    ∀ kind other, IsSpelling kind other → other <+: token.value.toList ++ after →
      other.length ≤ token.value.toList.length
  reserved : ∀ token ∈ tokens, token.kind = .identifier ∨ token.kind = .keyword →
    IsWord token.value.toList ∧ (token.kind = .keyword ↔ Keyword.isReserved token.value = true)
  opening : ∀ first ∈ tokens.head?, first.kind ≠ .endOfLine
  next : tokens.IsChain fun first second =>
    (first.kind = .endOfLine → second.kind ≠ .endOfLine) ∧
    (first.kind = .comment → second.kind = .endOfLine ∨ second.kind = .endOfInput)
  finished : ∃ front, tokens = front ++ [finish ⟨file, Text.byteLength source.toList,
      Text.byteLength source.toList⟩] ∧ ∀ token ∈ front, token.kind ≠ .endOfInput

/-- Whatever the scanner reads, its tokens account for. -/
theorem scan_accounts {source file : String} {tokens : List Token}
    (scans : scan source file = .ok tokens) : Accounts source file tokens := by
  have tiles := tiles_of_scanFrom source.toList scans
  have finished := tiles.finished
  simp only [Nat.zero_add] at finished
  refine ⟨fun token present => ?_, tiles.ordered,
    fun before c after byte same from' upTo outside => ?_,
    fun token present spelled => ?_, fun token present word => ?_, tiles.head_ne_endOfLine,
    tiles.isChain, finished⟩
  · obtain ⟨inFile, _, proper, stop⟩ := tiles.bounded token present
    rw [Nat.zero_add] at stop
    exact ⟨inFile, proper, stop⟩
  · rw [← Nat.zero_add (Text.byteLength before)] at from' upTo
    exact mem_of_isBreak (tiles.covered same from' upTo outside)
  · obtain ⟨before, after, same, start, stop, spelling, longest⟩ :=
      tiles.exact token present spelled
    obtain ⟨inFile, _⟩ := tiles.bounded token present
    rw [Nat.zero_add] at start stop
    refine ⟨before, after, same, ?_, spelling, longest⟩
    rw [← inFile, ← start, ← stop]
  · have spelled : token.kind.isSpelled = true := by
      obtain isWord | isWord := word <;> rw [isWord] <;> rfl
    obtain ⟨before, after, _, _, _, spelling, _⟩ := tiles.exact token present spelled
    exact spelling.of_word word


namespace CommentedLine

/-- A comment between line ends, and a line on which symbols touch words and numbers. -/
def source : String := "\n// é\r\n\nlet lets := 1.5.x <= \"→\"\n"

/-- The tokens of the source. -/
def tokens : List Token :=
  [⟨.comment, "é", ⟨"f", 1, 7⟩⟩, ⟨.endOfLine, "\n", ⟨"f", 7, 9⟩⟩, ⟨.keyword, "let", ⟨"f", 9, 12⟩⟩,
   ⟨.identifier, "lets", ⟨"f", 13, 17⟩⟩, ⟨.operator, ":=", ⟨"f", 18, 20⟩⟩,
   ⟨.number, "1.5", ⟨"f", 21, 24⟩⟩, ⟨.operator, ".", ⟨"f", 24, 25⟩⟩,
   ⟨.identifier, "x", ⟨"f", 25, 26⟩⟩, ⟨.operator, "<=", ⟨"f", 27, 29⟩⟩,
   ⟨.string, "→", ⟨"f", 30, 35⟩⟩, ⟨.endOfLine, "\n", ⟨"f", 35, 36⟩⟩, finish ⟨"f", 36, 36⟩]

end CommentedLine

open CommentedLine in
theorem scan_accounts_commented_line :
    scan source "f" = .ok tokens ∧ Accounts source "f" tokens := by
  have scans : scan source "f" = .ok tokens := by decide +kernel
  exact ⟨scans, scan_accounts scans⟩


end SmallLang.Token
