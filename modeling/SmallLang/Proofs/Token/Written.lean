import Mathlib.Data.List.DropRight
import SmallLang.Proofs.Token.Tiled

/-!
# Scanning undoes writing

Tokens are written out in a row, each two with a space between them. What a scan can return is
described token by token, and such a list is scanned back from its own text.
-/

set_option autoImplicit false

namespace SmallLang

namespace Text

theorem trim_eq_rdropWhile (text : List Char) :
    trim text = (text.dropWhile isBlank).rdropWhile isBlank := rfl

theorem mem_of_mem_trim {text : List Char} {c : Char} (present : c ∈ trim text) : c ∈ text := by
  rw [trim_eq_rdropWhile] at present
  exact (List.dropWhile_sublist _).subset ((List.rdropWhile_prefix _ _).subset present)

theorem trim_trim (text : List Char) : trim (trim text) = trim text := by
  have starts : (trim text).dropWhile isBlank = trim text := by
    obtain ⟨back, same⟩ := List.rdropWhile_prefix isBlank (text.dropWhile isBlank)
    rw [← trim_eq_rdropWhile] at same
    have stops := List.head?_dropWhile_not isBlank text
    rw [← same] at stops
    cases trimmed : trim text with
    | nil => rfl
    | cons first rest =>
        rw [trimmed] at stops
        exact List.dropWhile_cons_of_neg (Bool.not_eq_true _ ▸ stops)
  rw [trim_eq_rdropWhile (trim text), starts, trim_eq_rdropWhile, List.rdropWhile_idempotent]

/-- A blank on either side makes no difference to what is left. -/
theorem trim_pad {before after : Char} (text : List Char) (blank : isBlank before = true)
    (blank' : isBlank after = true) : trim (before :: (text ++ [after])) = trim text := by
  rw [trim_eq_rdropWhile, trim_eq_rdropWhile, List.dropWhile_cons_of_pos blank,
    List.dropWhile_append]
  split
  · next none =>
      rw [List.isEmpty_iff.mp none, List.dropWhile_cons_of_pos blank']
      rfl
  · rw [List.rdropWhile_concat_pos _ _ _ blank']

end Text

namespace Literal

/-- A text as it stands between quotes: a backslash before each quote and each backslash. -/
def escaped : List Char → List Char
  | [] => []
  | c :: rest => if c = '\\' ∨ c = '"' then '\\' :: c :: escaped rest else c :: escaped rest

theorem body?_escaped (text later : List Char) :
    body? (escaped text ++ '"' :: later) = some (escaped text) := by
  induction text with
  | nil => rfl
  | cons c rest ih =>
      rw [escaped]
      split
      · next special =>
          have proper : c ≠ '\n' := by
            rintro rfl
            exact absurd special (by decide)
          simp only [List.cons_append, body?, if_neg proper, ih, Option.map_some]
      · next plain =>
          obtain ⟨notSlash, notQuote⟩ := not_or.mp plain
          rw [List.cons_append, body?, ih, Option.map_some]
          · exact fun quote => notQuote quote
          · exact fun _ _ slash => absurd slash notSlash

theorem text?_cons_of_ne {c : Char} (rest : List Char) (plain : c ≠ '\\') :
    text? (c :: rest) = (text? rest).map (c :: ·) := by
  rw [text?]
  all_goals simp [plain]

theorem text?_escape {c denoted : Char} (rest : List Char) (differs : c ≠ 'x')
    (escape : escape? c = some denoted) :
    text? ('\\' :: c :: rest) = (text? rest).map (denoted :: ·) := by
  rw [text?, escape]
  all_goals simp [differs]

theorem text?_escaped (text : List Char) : text? (escaped text) = some text := by
  induction text with
  | nil => rfl
  | cons c rest ih =>
      rw [escaped]
      split
      · next special =>
          obtain rfl | rfl := special
          · rw [text?_escape _ (by decide) rfl, ih, Option.map_some]
          · rw [text?_escape _ (by decide) rfl, ih, Option.map_some]
      · next plain => rw [text?_cons_of_ne _ (not_or.mp plain).1, ih, Option.map_some]

end Literal

namespace Lexeme

/-- The values that the scanner gives to tokens of a kind. -/
inductive IsLiteral : Token.Kind → String → Prop where
  | spelling {kind : Token.Kind} {text : List Char} :
      IsSpelling kind text → IsLiteral kind (String.ofList text)
  | string {value : String} : IsLiteral .string value
  | comment {text : List Char} :
      '\n' ∉ text → IsLiteral .comment (String.ofList (Text.trim text))

theorem IsLiteral.kind_ne {kind : Token.Kind} {value : String} (isLiteral : IsLiteral kind value) :
    kind ≠ .endOfLine ∧ kind ≠ .endOfInput := by
  cases isLiteral with
  | spelling spelling =>
      have spelled := spelling.isSpelled
      constructor
      · rintro rfl
        cases spelled
      · rintro rfl
        cases spelled
  | string => exact ⟨Token.Kind.noConfusion, Token.Kind.noConfusion⟩
  | comment _ => exact ⟨Token.Kind.noConfusion, Token.Kind.noConfusion⟩

section Literals

theorem subset_withoutSlashes (text : List Char) : withoutSlashes text ⊆ text := by
  fun_induction withoutSlashes text with
  | case1 rest ih => exact List.subset_cons_of_subset _ (List.subset_cons_of_subset _ ih)
  | case2 text => exact List.Subset.refl text

theorem isLiteral_comment {rest : List Char} {kind : Token.Kind} {value : String}
    (content : (comment rest).content = .token kind value) : IsLiteral kind value := by
  cases content
  refine .comment ?_
  intro newline
  have present := subset_withoutSlashes _ newline
  obtain newline | present := List.mem_cons.mp present
  · exact absurd newline (by decide)
  · exact absurd (List.mem_takeWhile_imp present) (by decide)

/-- A slash begins a comment if another one follows it, and else it is an operator. -/
theorem read_slash (rest : List Char) : read '/' rest =
    if rest.head? = some '/' then .ok (comment rest) else symbol '/' rest := by
  have notWord : isWordStart '/' = false := by decide
  have notSpace : isSpace '/' = false := by decide
  simp [read, notWord, notSpace]

theorem isLiteral_of_read {first : Char} {rest : List Char} {kind : Token.Kind} {value : String}
    {lexeme : Lexeme} (reads : read first rest = .ok lexeme)
    (content : lexeme.content = .token kind value) : IsLiteral kind value := by
  have takes := takes_of_read reads
  rw [content] at takes
  generalize taken : first :: rest.take lexeme.more = text at takes
  cases takes with
  | spelling spelling _ => exact .spelling spelling
  | string => exact .string
  | comment _ =>
      obtain rfl := (List.cons.inj taken).1
      rw [read_slash] at reads
      split at reads
      · cases reads
        exact isLiteral_comment content
      · unfold symbol at reads
        split at reads
        · next kind spelling finds =>
            cases reads
            obtain ⟨rfl, _⟩ := Content.token.inj content
            have spelling := IsSpelling.symbol (List.mem_of_find?_eq_some finds)
            cases spelling.isSpelled
        · cases reads

end Literals

section Reading

variable {first : Char} {later : List Char}

theorem read_word {part : List Char} (starts : isWordStart first = true)
    (parts : ∀ c ∈ part, isWordPart c = true) :
    read first (part ++ ' ' :: later) = .ok
      ⟨.token (if Keyword.isReserved (String.ofList (first :: part)) then .keyword else .identifier)
        (String.ofList (first :: part)), part.length⟩ := by
  have ends : isWordPart ' ' ≠ true := by decide
  simp only [read, starts, if_true, word, List.takeWhile_append_of_pos parts,
    List.takeWhile_cons_of_neg ends, List.append_nil]

theorem fraction_cons {digits : List Char} (isDigits : IsDigits digits) :
    fraction ('.' :: (digits ++ ' ' :: later)) = '.' :: digits := by
  have ends : ' '.isDigit ≠ true := by decide
  simp only [fraction, List.takeWhile_append_of_pos isDigits.2, List.takeWhile_cons_of_neg ends,
    List.append_nil]
  cases digits with
  | nil => exact absurd rfl isDigits.1
  | cons first rest => rfl

theorem read_number {part : List Char} (number : IsNumber (first :: part)) :
    read first (part ++ ' ' :: later) =
      .ok ⟨.token .number (String.ofList (first :: part)), part.length⟩ := by
  have digit := number.isDigit
  have notWord : isWordStart first = false := by
    rw [← Bool.not_eq_true]
    exact fun starts => absurd digit (Bool.not_eq_true _ ▸ isDigit_of_isWordStart starts)
  have ends : ' '.isDigit ≠ true := by decide
  suffices whole : (part ++ ' ' :: later).takeWhile Char.isDigit ++
      fraction ((part ++ ' ' :: later).dropWhile Char.isDigit) = part by
    simp only [read, notWord, Bool.false_eq_true, if_false, digit, if_true, Lexeme.number, whole]
  generalize spelled : first :: part = text at number
  cases number with
  | whole digits =>
      subst spelled
      have digits := (List.forall_mem_cons.mp digits.2).2
      rw [List.takeWhile_append_of_pos digits, List.dropWhile_append_of_pos digits,
        List.takeWhile_cons_of_neg ends, List.dropWhile_cons_of_neg ends, List.append_nil]
      exact List.append_nil part
  | @fraction digits more isDigits isMore =>
      cases digits with
      | nil => exact absurd rfl isDigits.1
      | cons c digits =>
          obtain ⟨rfl, rfl⟩ := List.cons.inj (spelled.trans (List.cons_append ..))
          have all := (List.forall_mem_cons.mp isDigits.2).2
          have point : '.'.isDigit ≠ true := by decide
          rw [List.append_assoc, List.takeWhile_append_of_pos all, List.dropWhile_append_of_pos all,
            List.cons_append, List.takeWhile_cons_of_neg point, List.dropWhile_cons_of_neg point,
            fraction_cons isMore, List.append_nil]

theorem prefix_of_prefix_append_cons {text front back : List Char} {c : Char}
    (begins : text <+: front ++ c :: back) (outside : c ∉ text) : text <+: front := by
  obtain ⟨rest, same⟩ := begins
  obtain ⟨more, rfl, _⟩ | ⟨more, rfl, same'⟩ := List.append_eq_append_iff.mp same
  · exact List.prefix_append _ _
  · cases more with
    | nil => exact ⟨[], by simp⟩
    | cons first more =>
        obtain ⟨rfl, _⟩ := List.cons.inj same'
        exact absurd (List.mem_append_right _ List.mem_cons_self) outside

/-- No entry of the table but the one that is written fits. -/
theorem find?_symbols {entry : Token.Kind × String} (later : List Char)
    (present : entry ∈ symbols) :
    symbols.find? (fun entry' => entry'.2.toList.isPrefixOf (entry.2.toList ++ ' ' :: later)) =
      some entry := by
  have noSpace : ∀ entry ∈ symbols, ' ' ∉ entry.2.toList := by decide
  obtain ⟨before, after, split⟩ := List.append_of_mem present
  refine List.find?_eq_some_iff_append.mpr ⟨?_, before, after, split, fun other earlier => ?_⟩
  · exact List.isPrefixOf_iff_prefix.mpr (List.prefix_append _ _)
  · have apart := (List.pairwise_append.mp (split ▸ pairwise_symbols)).2.2 other earlier entry
      List.mem_cons_self
    rw [Bool.not_eq_true', ← Bool.not_eq_true, List.isPrefixOf_iff_prefix]
    intro begins
    have spaceless := noSpace other (split ▸ List.mem_append_left _ earlier)
    exact apart (prefix_of_prefix_append_cons begins spaceless)

/-- No symbol begins as a blank, a string or a comment does. -/
theorem symbol_head : ∀ entry ∈ symbols, ∀ c ∈ entry.2.toList.head?, isWordStart c = false ∧
    c.isDigit = false ∧ isBreak c = false ∧ c ≠ '"' ∧ (c = '/' → entry.2 = "/") := by
  have all : ∀ entry ∈ symbols, (entry.2.toList.head?.all fun c => isWordStart c = false ∧
      c.isDigit = false ∧ isBreak c = false ∧ c ≠ '"' ∧ (c = '/' → entry.2 = "/")) = true := by
    decide +kernel
  intro entry present c head
  have holds := (Option.all_eq_true _ _).mp (all entry present) c head
  exact of_decide_eq_true holds

theorem read_symbol {kind : Token.Kind} {spelling : String} {part : List Char}
    (present : (kind, spelling) ∈ symbols) (spelled : spelling.toList = first :: part) :
    read first (part ++ ' ' :: later) = .ok ⟨.token kind spelling, part.length⟩ := by
  obtain ⟨notWord, notDigit, notBreak, notQuote, alone⟩ :=
    symbol_head _ present first (by rw [spelled]; rfl)
  have reads : symbol first (part ++ ' ' :: later) = .ok ⟨.token kind spelling, part.length⟩ := by
    have finds := find?_symbols later present
    simp only [spelled, List.cons_append] at finds
    rw [symbol, finds]
    simp [← String.length_toList, spelled]
  by_cases slash : first = '/'
  · subst slash
    obtain rfl := alone rfl
    obtain rfl : [] = part := (List.cons.inj spelled).2
    rw [read_slash, ← reads]
    rfl
  · have notSpace : isSpace first = false := (Bool.or_eq_false_iff.mp notBreak).1
    have notEnd : ¬ (first = '\n' ∨ (first = '\r' ∧ (part ++ ' ' :: later).head? = some '\n')) := by
      rintro (rfl | ⟨rfl, _⟩)
      · cases notBreak
      · cases notBreak
    simp only [read, notWord, notDigit, notEnd, notSpace, slash, notQuote, false_and, if_false,
      Bool.false_eq_true, reads]

theorem isBreak_eq_false_of_head {c : Char} (starts : isWordStart c = true ∨ c.isDigit = true) :
    isBreak c = false := by
  rw [← Bool.not_eq_true]
  intro isBreak
  have all : ([' ', '\t', '\r', '\n'].all fun c => !(isWordStart c || c.isDigit)) = true := by
    decide +kernel
  have none := List.all_eq_true.mp all c (mem_of_isBreak isBreak)
  rw [Bool.not_eq_true', Bool.or_eq_false_iff] at none
  simp [none] at starts

/-- A spelling is read up to the space behind it. -/
theorem read_spelling {kind : Token.Kind} {text : List Char} (spelling : IsSpelling kind text) :
    ∃ first rest, text = first :: rest ∧ isBreak first = false ∧
      ∀ later, read first (rest ++ ' ' :: later) =
        .ok ⟨.token kind (String.ofList text), rest.length⟩ := by
  cases spelling with
  | identifier word free =>
      obtain ⟨first, rest, rfl, starts, parts⟩ := word
      refine ⟨first, rest, rfl, isBreak_eq_false_of_head (.inl starts), fun later => ?_⟩
      rw [read_word starts parts, free]
      rfl
  | keyword word reserved =>
      obtain ⟨first, rest, rfl, starts, parts⟩ := word
      refine ⟨first, rest, rfl, isBreak_eq_false_of_head (.inl starts), fun later => ?_⟩
      rw [read_word starts parts, reserved]
      rfl
  | number number =>
      obtain ⟨first, rest, rfl⟩ :=
        List.exists_cons_of_ne_nil (IsSpelling.ne_nil (.number number))
      exact ⟨first, rest, rfl, isBreak_eq_false_of_head (.inr number.isDigit),
        fun _ => read_number number⟩
  | @symbol _ spelling present =>
      obtain ⟨first, rest, spelled, _⟩ := head_of_mem_symbols _ present
      obtain ⟨_, _, proper, _⟩ := symbol_head _ present first (by rw [spelled]; rfl)
      refine ⟨first, rest, spelled, proper, fun later => ?_⟩
      rw [read_symbol present spelled, String.ofList_toList]

/-- A comment is read up to the end of its line. -/
theorem read_comment {text : List Char} (line : '\n' ∉ text)
    (ends : ∀ c ∈ later.head?, c = '\n') :
    read '/' ('/' :: ' ' :: (Text.trim text ++ ' ' :: later)) =
      .ok ⟨.token .comment (String.ofList (Text.trim text)), (Text.trim text).length + 3⟩ := by
  have line' : ∀ c ∈ '/' :: ' ' :: (Text.trim text ++ [' ']), (c != '\n') = true := by
    intro c present
    rw [bne_iff_ne]
    rintro rfl
    simp only [List.mem_cons, List.mem_append, List.not_mem_nil, or_false] at present
    obtain newline | newline | newline | newline := present
    · cases newline
    · cases newline
    · exact line (Text.mem_of_mem_trim newline)
    · cases newline
  have part : ('/' :: ' ' :: (Text.trim text ++ ' ' :: later)).takeWhile (· != '\n') =
      '/' :: ' ' :: (Text.trim text ++ [' ']) := by
    have whole : '/' :: ' ' :: (Text.trim text ++ ' ' :: later) =
        '/' :: ' ' :: (Text.trim text ++ [' ']) ++ later := by simp
    rw [whole, List.takeWhile_append_of_pos line']
    cases later with
    | nil => simp
    | cons c later =>
        obtain rfl := ends c rfl
        simp
  have value : Text.trim (' ' :: (Text.trim text ++ [' '])) = Text.trim text := by
    rw [Text.trim_pad _ (by decide) (by decide), Text.trim_trim]
  rw [read_slash, if_pos (by rfl), comment, part]
  simp [withoutSlashes, value]

/-- A string is read up to its closing quote. -/
theorem read_string (text : List Char) :
    read '"' (Literal.escaped text ++ '"' :: later) =
      .ok ⟨.token .string (String.ofList text), (Literal.escaped text).length + 1⟩ := by
  have notWord : isWordStart '"' = false := by decide
  have notSpace : isSpace '"' = false := by decide
  simp [read, notWord, notSpace, Literal.body?_escaped, string, Literal.text?_escaped]

end Reading

end Lexeme

namespace Token

open Lexeme

/-- What a token says, wherever it stands. -/
def literal (token : Token) : Kind × String := (token.kind, token.value)

/-- A token as it is written in a source. -/
def text (token : Token) : List Char :=
  match token.kind with
  | .endOfInput => []
  | .endOfLine => ['\n']
  | .comment => '/' :: '/' :: ' ' :: token.value.toList
  | .string => '"' :: (Literal.escaped token.value.toList ++ ['"'])
  | .identifier | .keyword | .operator | .delimiter | .number => token.value.toList

/-- Tokens in a row, with a space between each two. -/
def row (tokens : List Token) : List Char := [' '].intercalate (tokens.map text)

/-- A source of the tokens. -/
def write (tokens : List Token) : String := String.ofList (row tokens)

/-- The lists of tokens that a scan can return, wherever their tokens stand. `open?` tells whether
a token other than a line end stands before them. -/
inductive Legible : Bool → List Token → Prop where
  | finish {open? : Bool} {span : Span} : Legible open? [finish span]
  | token {open? : Bool} {kind : Kind} {value : String} {span : Span} {later : List Token} :
      IsLiteral kind value →
      (kind = .comment → ∃ next ∈ later.head?, next.kind = .endOfLine ∨ next.kind = .endOfInput) →
      Legible true later → Legible open? (⟨kind, value, span⟩ :: later)
  | lineEnd {span : Span} {later : List Token} :
      Legible false later → Legible true (⟨.endOfLine, "\n", span⟩ :: later)

section Rows

variable {open? : Bool} {tokens : List Token} {later : List Char}

theorem Legible.ne_nil (legible : Legible open? tokens) : tokens ≠ [] := by
  cases legible with
  | finish => exact List.cons_ne_nil _ _
  | token _ _ _ => exact List.cons_ne_nil _ _
  | lineEnd _ => exact List.cons_ne_nil _ _

theorem row_cons (token : Token) (some : tokens ≠ []) :
    row (token :: tokens) = token.text ++ ' ' :: row tokens := by
  obtain ⟨next, rest, rfl⟩ := List.exists_cons_of_ne_nil some
  simp [row, List.intercalate]

theorem text_of_isSpelled {token : Token} (spelled : token.kind.isSpelled = true) :
    token.text = token.value.toList := by
  unfold text
  cases kind : token.kind <;> first | rfl | cases kind ▸ spelled

/-- A token is read from its own text, with or without the space behind it. -/
theorem exists_text {kind : Kind} {value : String} (isLiteral : IsLiteral kind value)
    (span : Span) : ∃ first rest, text ⟨kind, value, span⟩ = first :: rest ∧
      isBreak first = false ∧
      ∀ later, (kind = .comment → ∀ c ∈ later.head?, c = '\n') → ∃ more,
        read first (rest ++ ' ' :: later) = .ok ⟨.token kind value, more⟩ ∧
        ((rest ++ ' ' :: later).drop more = ' ' :: later ∨
          (rest ++ ' ' :: later).drop more = later) := by
  cases isLiteral with
  | spelling spelling =>
      obtain ⟨first, rest, rfl, proper, reads⟩ := read_spelling spelling
      have whole : text ⟨kind, String.ofList (first :: rest), span⟩ = first :: rest :=
        (text_of_isSpelled spelling.isSpelled).trans String.toList_ofList
      exact ⟨first, rest, whole, proper, fun later _ => ⟨_, reads later, .inl List.drop_left⟩⟩
  | string =>
      refine ⟨'"', _, rfl, by decide, fun later _ =>
        ⟨(Literal.escaped value.toList).length + 1, ?_, .inl ?_⟩⟩
      · rw [List.append_assoc, List.singleton_append, read_string, String.ofList_toList]
      · rw [← List.length_singleton, ← List.length_append, List.drop_left]
  | @comment body line =>
      refine ⟨'/', _, rfl, by decide, fun later ends =>
        ⟨(Text.trim body).length + 3, ?_, .inr ?_⟩⟩
      · rw [String.toList_ofList]
        exact read_comment line (ends rfl)
      · simp [String.toList_ofList, List.drop_append]

/-- A row begins with no blank, and with no line end where none would leave a token. -/
theorem Legible.head (legible : Legible open? tokens) : ∀ c ∈ (row tokens).head?,
    isSpace c = false ∧ (open? = false → isBreak c = false) := by
  cases legible with
  | finish =>
      intro c head
      cases head
  | @token _ kind value span later isLiteral _ legible =>
      obtain ⟨first, rest, same, proper, _⟩ := exists_text isLiteral span
      rw [row_cons _ legible.ne_nil, same]
      intro c head
      cases head
      exact ⟨(Bool.or_eq_false_iff.mp proper).1, fun _ => proper⟩
  | lineEnd legible =>
      rw [row_cons _ legible.ne_nil]
      intro c head
      cases head
      exact ⟨by decide, fun shut => by cases shut⟩

/-- What stands behind a comment in a row is the end of its line. -/
theorem row_head {next : Token} (head : next ∈ tokens.head?)
    (ends : next.kind = .endOfLine ∨ next.kind = .endOfInput) (legible : Legible open? tokens) :
    ∀ c ∈ (row tokens).head?, c = '\n' := by
  cases legible with
  | finish =>
      intro c head
      cases head
  | @token _ kind value _ _ isLiteral _ _ =>
      cases head
      exact absurd ends (not_or.mpr isLiteral.kind_ne)
  | lineEnd legible =>
      rw [row_cons _ legible.ne_nil]
      intro c head
      cases head
      rfl

end Rows

section Scanning

theorem legible_of_scanFrom {file : String} : ∀ {offset : Nat} {open? : Bool} (text : List Char)
    {tokens : List Token}, scanFrom file offset open? text = .ok tokens → Legible open? tokens
  | offset, open?, [], tokens, scans => by
      rw [scanFrom] at scans
      cases scans
      exact .finish
  | offset, open?, first :: rest, tokens, scans => by
      rw [scanFrom] at scans
      split at scans
      · cases scans
      · next lexeme reads =>
          have takes := takes_of_read reads
          simp only at scans
          split at scans
          · next kind value content =>
              obtain ⟨later, scans', rfl⟩ := exists_of_map_eq scans
              rw [content] at takes
              refine .token (isLiteral_of_read reads content) ?_ (legible_of_scanFrom _ scans')
              rintro rfl
              exact (tiles_of_scanFrom _ scans').head_of_newline takes.of_comment
          · split at scans
            · next marked =>
                obtain ⟨later, scans', rfl⟩ := exists_of_map_eq scans
                rw [marked]
                exact .lineEnd (legible_of_scanFrom _ scans')
            · next unmarked =>
                rw [Bool.not_eq_true] at unmarked
                rw [unmarked]
                exact legible_of_scanFrom _ scans
          · exact legible_of_scanFrom _ scans
termination_by _ _ text => text.length
decreasing_by all_goals simp only [List.length_cons, List.length_drop]; omega

/-- Scanning a text gives tokens, wherever they stand. -/
def Rescans (open? : Bool) (text : List Char) (tokens : List Token) : Prop :=
  ∀ file offset, ∃ again, scanFrom file offset open? text = .ok again ∧
    again.map literal = tokens.map literal

variable {open? : Bool} {tokens : List Token} {later : List Char}

theorem Rescans.token {first : Char} {rest : List Char} {kind : Kind} {value : String} {span : Span}
    {more : Nat} (reads : Lexeme.read first rest = .ok ⟨.token kind value, more⟩)
    (rescans : Rescans true (rest.drop more) tokens) :
    Rescans open? (first :: rest) (⟨kind, value, span⟩ :: tokens) := by
  intro file offset
  obtain ⟨again, scans, same⟩ := rescans file (offset + Text.byteLength (first :: rest.take more))
  rw [scanFrom, reads]
  simp only [scans]
  exact ⟨_, rfl, by rw [List.map_cons, List.map_cons, same]; rfl⟩

theorem Rescans.space (rescans : Rescans open? later tokens)
    (head : ∀ c ∈ later.head?, isSpace c = false) : Rescans open? (' ' :: later) tokens := by
  have none : later.takeWhile isSpace = [] := by
    cases later with
    | nil => rfl
    | cons c later => exact List.takeWhile_cons_of_neg (Bool.not_eq_true _ ▸ head c rfl)
  have reads : Lexeme.read ' ' later = .ok ⟨.blank, 0⟩ := by
    have notWord : isWordStart ' ' = false := by decide
    have isSpace : isSpace ' ' = true := by decide
    simp [Lexeme.read, notWord, isSpace, none]
  intro file offset
  obtain ⟨again, scans, same⟩ := rescans file (offset + Text.byteLength [' '])
  rw [scanFrom, reads]
  exact ⟨again, scans, same⟩

theorem Rescans.lineEnd {span : Span} (rescans : Rescans false later tokens)
    (head : ∀ c ∈ later.head?, isBreak c = false) :
    Rescans true ('\n' :: ' ' :: later) (⟨.endOfLine, "\n", span⟩ :: tokens) := by
  have one : (' ' :: later).takeWhile isBreak = [' '] := by
    rw [List.takeWhile_cons_of_pos (by decide)]
    cases later with
    | nil => rfl
    | cons c later => rw [List.takeWhile_cons_of_neg (Bool.not_eq_true _ ▸ head c rfl)]
  have reads : Lexeme.read '\n' (' ' :: later) = .ok ⟨.lineEnd, 1⟩ := by
    have notWord : isWordStart '\n' = false := by decide
    have notDigit : '\n'.isDigit = false := by decide
    simp [Lexeme.read, notWord, notDigit, one]
  intro file offset
  obtain ⟨again, scans, same⟩ :=
    rescans file (offset + Text.byteLength ('\n' :: (' ' :: later).take 1))
  rw [scanFrom, reads]
  simp only [if_true, List.drop_succ_cons, List.drop_zero, scans]
  exact ⟨_, rfl, by rw [List.map_cons, List.map_cons, same]; rfl⟩

/-- A row of what a scan can return is scanned as what it was made of. -/
theorem Legible.rescans (legible : Legible open? tokens) : Rescans open? (row tokens) tokens := by
  induction legible with
  | finish =>
      intro file offset
      exact ⟨_, scanFrom.eq_1 .., rfl⟩
  | @token _ kind value span later isLiteral line legible ih =>
      obtain ⟨first, rest, same, _, reads⟩ := exists_text isLiteral span
      obtain ⟨more, reads, rests⟩ := reads (row later) fun isComment => by
        obtain ⟨next, head, ends⟩ := line isComment
        exact row_head head ends legible
      rw [row_cons _ legible.ne_nil, same, List.cons_append]
      refine .token reads ?_
      obtain space | none := rests
      · rw [space]
        exact ih.space fun c head => (legible.head c head).1
      · rwa [none]
  | lineEnd legible ih =>
      rw [row_cons _ legible.ne_nil]
      exact ih.lineEnd fun c head => (legible.head c head).2 rfl

end Scanning

/-- Scanning undoes writing. A scan of what the tokens of a scan are written as gives their kinds
and values again, and a string of any text can be written. -/
theorem scan_write :
    (∀ source file tokens, scan source file = .ok tokens → ∀ file', ∃ again,
      scan (write tokens) file' = .ok again ∧ again.map literal = tokens.map literal) ∧
    ∀ value span finished file, ∃ again,
      scan (write [⟨.string, value, span⟩, finish finished]) file = .ok again ∧
      again.map literal = [(.string, value), (.endOfInput, "EOF")] := by
  refine ⟨fun source file tokens scans file' => ?_, fun value span finished file => ?_⟩
  · have rescans := (legible_of_scanFrom source.toList scans).rescans file' 0
    rwa [← String.toList_ofList (l := row tokens)] at rescans
  · have legible : Legible false [⟨.string, value, span⟩, finish finished] :=
      .token .string Kind.noConfusion .finish
    have rescans := legible.rescans file 0
    rwa [← String.toList_ofList (l := row _)] at rescans

namespace Quoted

/-- A comment that keeps a slash, one that ends with the input, and between them a string of a
backslash, a quote, a NUL and a line end. -/
def source : String := "/// a \t\r\n\nlet s:=\"\\\\\\\"\\x0é\n\"; // b"

/-- The tokens of the source. -/
def tokens : List Token :=
  [⟨.comment, "/ a", ⟨"f", 0, 8⟩⟩, ⟨.endOfLine, "\n", ⟨"f", 8, 10⟩⟩,
   ⟨.keyword, "let", ⟨"f", 10, 13⟩⟩, ⟨.identifier, "s", ⟨"f", 14, 15⟩⟩,
   ⟨.operator, ":=", ⟨"f", 15, 17⟩⟩,
   ⟨.string, "\\\"\x00é\n", ⟨"f", 17, 29⟩⟩, ⟨.delimiter, ";", ⟨"f", 29, 30⟩⟩,
   ⟨.comment, "b", ⟨"f", 31, 35⟩⟩, finish ⟨"f", 35, 35⟩]

end Quoted

open Quoted in
theorem scan_write_quoted :
    scan source "f" = .ok tokens ∧
    write tokens = "// / a \n let s := \"\\\\\\\"\x00é\n\" ; // b " ∧
    ∃ again, scan (write tokens) "g" = .ok again ∧ again.map literal = tokens.map literal := by
  have scans : scan source "f" = .ok tokens := by decide +kernel
  exact ⟨scans, by decide +kernel, scan_write.1 source "f" tokens scans "g"⟩

end Token

end SmallLang
