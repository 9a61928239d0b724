import Mathlib.Data.List.TakeWhile
import SmallLang.Token.Scan

/-!
# Spellings

Words, numbers and symbols are written as they are meant. What the scanner takes at the head of a
text is said here beside it: the longest spelling, a string, a comment, a line end or blanks.
-/

set_option autoImplicit false

namespace SmallLang

/-- Whether tokens of a kind have as their value the text that they are read from. -/
def Token.Kind.isSpelled : Token.Kind → Bool
  | .identifier | .keyword | .operator | .delimiter | .number => true
  | .endOfInput | .endOfLine | .string | .comment => false

namespace Lexeme

/-- A letter or an underscore, and then letters, underscores and digits. -/
def IsWord (text : List Char) : Prop :=
  ∃ first rest, text = first :: rest ∧ isWordStart first = true ∧ ∀ c ∈ rest, isWordPart c = true

/-- At least one digit, and nothing else. -/
def IsDigits (text : List Char) : Prop := text ≠ [] ∧ ∀ c ∈ text, c.isDigit = true

/-- Digits, which a point and further digits may follow. -/
inductive IsNumber : List Char → Prop where
  | whole {digits : List Char} : IsDigits digits → IsNumber digits
  | fraction {digits part : List Char} :
      IsDigits digits → IsDigits part → IsNumber (digits ++ '.' :: part)

/-- How a token of some kind may be spelled, if it is spelled as it is meant. -/
inductive IsSpelling : Token.Kind → List Char → Prop where
  | identifier {text : List Char} : IsWord text →
      Keyword.isReserved (String.ofList text) = false → IsSpelling .identifier text
  | keyword {text : List Char} : IsWord text →
      Keyword.isReserved (String.ofList text) = true → IsSpelling .keyword text
  | number {text : List Char} : IsNumber text → IsSpelling .number text
  | symbol {kind : Token.Kind} {spelling : String} :
      (kind, spelling) ∈ symbols → IsSpelling kind spelling.toList

/-- No spelling at the head of a text is longer. -/
def IsLongest (spelling text : List Char) : Prop :=
  ∀ kind other, IsSpelling kind other → other <+: text → other.length ≤ spelling.length

/-- What is taken at the head of a text, and what it leaves. -/
inductive Takes : Content → List Char → List Char → Prop where
  | spelling {kind : Token.Kind} {text later : List Char} : IsSpelling kind text →
      IsLongest text (text ++ later) → Takes (.token kind (String.ofList text)) text later
  | string {value : String} {body later : List Char} :
      Takes (.token .string value) ('"' :: body) later
  | comment {value : String} {body later : List Char} : (∀ c ∈ later.head?, c = '\n') →
      Takes (.token .comment value) ('/' :: body) later
  | lineEnd {first : Char} {more later : List Char} : (∀ c ∈ first :: more, isBreak c = true) →
      Takes .lineEnd (first :: more) later
  | blank {first : Char} {more later : List Char} : (∀ c ∈ first :: more, isSpace c = true) →
      Takes .blank (first :: more) later

section First

variable {c : Char} {text : List Char}

theorem isDigit_of_isWordStart (starts : isWordStart c = true) : c.isDigit = false := by
  rw [← Bool.not_eq_true]
  intro digit
  change ((decide ('A'.val ≤ c.val ∧ c.val ≤ 'Z'.val) ||
    (decide ('a'.val ≤ c.val) && decide (c.val ≤ 'z'.val))) || c == '_') = true at starts
  change (decide ('0'.val ≤ c.val) && decide (c.val ≤ '9'.val)) = true at digit
  simp only [Bool.or_eq_true, Bool.and_eq_true, decide_eq_true_eq, beq_iff_eq] at starts digit
  rcases starts with (starts | starts) | rfl
  · exact absurd (UInt32.le_trans starts.1 digit.2) (by decide)
  · exact absurd (UInt32.le_trans starts.1 digit.2) (by decide)
  · exact absurd digit.2 (by decide)

theorem IsDigits.isDigit (digits : IsDigits (c :: text)) : c.isDigit = true :=
  digits.2 c List.mem_cons_self

theorem IsNumber.isDigit (number : IsNumber (c :: text)) : c.isDigit = true := by
  generalize whole : c :: text = spelled at number
  cases number with
  | whole digits => exact (whole ▸ digits).isDigit
  | @fraction digits part isDigits _ =>
      cases digits with
      | nil => exact absurd rfl isDigits.1
      | cons first digits =>
          obtain ⟨rfl, _⟩ := List.cons.inj whole
          exact isDigits.isDigit

/-- No symbol begins as a word, a number or a line end does. -/
theorem head_of_mem_symbols : ∀ entry ∈ symbols, ∃ first rest, entry.2.toList = first :: rest ∧
    isWordStart first = false ∧ first.isDigit = false ∧ first ≠ '\n' := by
  intro entry present
  have all : ∀ entry ∈ symbols, (entry.2.toList.head?.any fun first =>
      isWordStart first = false ∧ first.isDigit = false ∧ first ≠ '\n') = true := by decide
  have head := all entry present
  cases spelled : entry.2.toList with
  | nil =>
      rw [spelled] at head
      cases head
  | cons first rest =>
      rw [spelled] at head
      exact ⟨first, rest, rfl, of_decide_eq_true head⟩

/-- What follows in the table is not longer where an entry fits. -/
theorem pairwise_symbols :
    symbols.Pairwise fun earlier later => ¬ earlier.2.toList <+: later.2.toList := by
  decide +kernel

/-- The first character tells what kind of spelling it is. -/
theorem IsSpelling.of_head {kind : Token.Kind} (spelling : IsSpelling kind (c :: text)) :
    (isWordStart c = true ∧ IsWord (c :: text)) ∨
      (c.isDigit = true ∧ IsNumber (c :: text)) ∨
      (isWordStart c = false ∧ c.isDigit = false ∧ c ≠ '\n' ∧
        ∃ symbol, (kind, symbol) ∈ symbols ∧ symbol.toList = c :: text) := by
  generalize whole : c :: text = spelled at spelling
  cases spelling with
  | identifier word _ =>
      obtain ⟨first, rest, same, starts, _⟩ := id word
      obtain ⟨rfl, rfl⟩ := List.cons.inj (whole.trans same)
      exact .inl ⟨starts, word⟩
  | keyword word _ =>
      obtain ⟨first, rest, same, starts, _⟩ := id word
      obtain ⟨rfl, rfl⟩ := List.cons.inj (whole.trans same)
      exact .inl ⟨starts, word⟩
  | number number => exact .inr (.inl ⟨(whole ▸ number : IsNumber (c :: text)).isDigit, number⟩)
  | symbol present =>
      obtain ⟨first, rest, same, notWord, notDigit, notBreak⟩ := head_of_mem_symbols _ present
      obtain ⟨rfl, rfl⟩ := List.cons.inj (whole.trans same)
      exact .inr (.inr ⟨notWord, notDigit, notBreak, _, present, rfl⟩)

theorem IsSpelling.ne_nil {kind : Token.Kind} (spelling : IsSpelling kind text) : text ≠ [] := by
  cases spelling with
  | identifier word _ =>
      obtain ⟨first, rest, rfl, _⟩ := word
      exact List.cons_ne_nil _ _
  | keyword word _ =>
      obtain ⟨first, rest, rfl, _⟩ := word
      exact List.cons_ne_nil _ _
  | number number =>
      cases number with
      | whole digits => exact digits.1
      | fraction digits _ => exact List.append_ne_nil_of_left_ne_nil digits.1 _
  | symbol present =>
      obtain ⟨first, rest, same, _⟩ := head_of_mem_symbols _ present
      exact same ▸ List.cons_ne_nil _ _

end First

section Longest

/-- A longest spelling need only be compared with those that begin as it does. -/
theorem isLongest_cons {first : Char} {text spelling : List Char}
    (longest : ∀ kind rest, IsSpelling kind (first :: rest) → first :: rest <+: first :: text →
      (first :: rest).length ≤ spelling.length) : IsLongest spelling (first :: text) := by
  intro kind other isSpelling begins
  cases other with
  | nil => exact absurd rfl isSpelling.ne_nil
  | cons c rest =>
      obtain ⟨rfl, _⟩ := List.cons_prefix_cons.mp begins
      exact longest kind rest isSpelling begins

theorem length_le_takeWhile {p : Char → Bool} {text part : List Char} (begins : part <+: text)
    (all : ∀ c ∈ part, p c = true) : part.length ≤ (text.takeWhile p).length := by
  obtain ⟨later, rfl⟩ := begins
  rw [List.takeWhile_append_of_pos all, List.length_append]
  exact Nat.le_add_right _ _

/-- Splitting off as many characters as a part has, when the text begins with it. -/
theorem takes_of_prefix {content : Content} {first : Char} {part rest : List Char}
    (begins : part <+: rest)
    (takes : ∀ later, rest = part ++ later → Takes content (first :: part) later) :
    Takes content (first :: rest.take part.length) (rest.drop part.length) := by
  obtain ⟨later, rfl⟩ := begins
  rw [List.take_left, List.drop_left]
  exact takes later rfl

theorem takes_of_takeWhile {content : Content} {first : Char} {rest : List Char} (p : Char → Bool)
    (takes : Takes content (first :: rest.takeWhile p) (rest.dropWhile p)) :
    Takes content (first :: rest.take (rest.takeWhile p).length)
      (rest.drop (rest.takeWhile p).length) := by
  refine takes_of_prefix (List.takeWhile_prefix p) ?_
  intro later same
  have whole := List.takeWhile_append_dropWhile (p := p) (l := rest)
  rwa [← List.append_cancel_left (whole.trans same)]

end Longest

section Words

variable {first : Char}

theorem isLongest_word (rest : List Char) (starts : isWordStart first = true) :
    IsLongest (first :: rest.takeWhile isWordPart) (first :: rest) := by
  refine isLongest_cons ?_
  intro kind other isSpelling begins
  obtain ⟨_, word⟩ | ⟨digit, _⟩ | ⟨notWord, _⟩ := isSpelling.of_head
  · obtain ⟨_, parts, same, _, all⟩ := word
    obtain ⟨rfl, rfl⟩ := List.cons.inj same
    have begins := (List.cons_prefix_cons.mp begins).2
    exact Nat.succ_le_succ (length_le_takeWhile begins all)
  · exact absurd (isDigit_of_isWordStart starts) (Bool.not_eq_false _ ▸ digit)
  · exact absurd starts (Bool.not_eq_true _ ▸ notWord)

theorem takes_word (rest : List Char) (starts : isWordStart first = true) :
    Takes (word first rest).content (first :: rest.take (word first rest).more)
      (rest.drop (word first rest).more) := by
  refine takes_of_takeWhile isWordPart ?_
  have isWord : IsWord (first :: rest.takeWhile isWordPart) :=
    ⟨first, _, rfl, starts, fun c present => List.mem_takeWhile_imp present⟩
  have longest := isLongest_word rest starts
  refine .spelling ?_ (by rwa [List.cons_append, List.takeWhile_append_dropWhile])
  split
  · next reserved => exact .keyword isWord reserved
  · next free => exact .identifier isWord (Bool.not_eq_true _ ▸ free)

end Words

section Numbers

theorem prefix_fraction (text : List Char) : fraction text <+: text := by
  unfold fraction
  split
  · next rest =>
      split
      · exact List.nil_prefix
      · next digits _ =>
          rw [List.prefix_cons_inj]
          exact List.takeWhile_prefix _
  · exact List.nil_prefix

/-- A fraction is not cut short. -/
theorem length_le_fraction {part : List Char} (later : List Char) (digits : IsDigits part) :
    part.length + 1 ≤ (fraction ('.' :: (part ++ later))).length := by
  have longer := length_le_takeWhile (List.prefix_append part later) digits.2
  simp only [fraction]
  split
  · next none =>
      rw [none, List.length_nil, Nat.le_zero, List.length_eq_zero_iff] at longer
      exact absurd longer digits.1
  · exact Nat.succ_le_succ longer

/-- The text of the number at the head of a text. -/
theorem isNumber_takeWhile {text : List Char} (isDigits : IsDigits (text.takeWhile Char.isDigit)) :
    IsNumber (text.takeWhile Char.isDigit ++ fraction (text.dropWhile Char.isDigit)) := by
  generalize text.dropWhile Char.isDigit = later
  unfold fraction
  split
  · split
    · rw [List.append_nil]
      exact .whole isDigits
    · next some =>
        refine .fraction isDigits ⟨some, ?_⟩
        exact fun c present => List.mem_takeWhile_imp present
  · rw [List.append_nil]
    exact .whole isDigits

/-- No number at the head of a text is longer. -/
theorem length_le_of_isNumber {text other : List Char} (number : IsNumber other)
    (begins : other <+: text) : other.length ≤
      (text.takeWhile Char.isDigit ++ fraction (text.dropWhile Char.isDigit)).length := by
  rw [List.length_append]
  cases number with
  | whole digits => exact Nat.le_add_right_of_le (length_le_takeWhile begins digits.2)
  | @fraction digits part isDigits isPart =>
      obtain ⟨later, rfl⟩ := begins
      rw [List.append_assoc, List.cons_append, List.takeWhile_append_of_pos isDigits.2,
        List.dropWhile_append_of_pos isDigits.2, List.length_append, List.length_append]
      have longer := length_le_fraction later isPart
      rw [List.takeWhile_cons_of_neg (by decide), List.dropWhile_cons_of_neg (by decide)]
      rw [List.length_cons, List.length_nil]
      omega

theorem takes_number {first : Char} (rest : List Char) (digit : first.isDigit = true) :
    Takes (number first rest).content (first :: rest.take (number first rest).more)
      (rest.drop (number first rest).more) := by
  have whole : (first :: rest).takeWhile Char.isDigit ++
      fraction ((first :: rest).dropWhile Char.isDigit) =
        first :: (rest.takeWhile Char.isDigit ++ fraction (rest.dropWhile Char.isDigit)) := by
    rw [List.takeWhile_cons_of_pos digit, List.dropWhile_cons_of_pos digit, List.cons_append]
  refine takes_of_prefix ?_ fun later same => ?_
  · have cut := List.takeWhile_append_dropWhile (p := Char.isDigit) (l := rest)
    have begins := (List.prefix_append_right_inj (rest.takeWhile Char.isDigit)).mpr
      (prefix_fraction (rest.dropWhile Char.isDigit))
    rwa [cut] at begins
  · refine .spelling (.number ?_) ?_
    · rw [← whole]
      refine isNumber_takeWhile ⟨?_, fun c present => List.mem_takeWhile_imp present⟩
      rw [List.takeWhile_cons_of_pos digit]
      exact List.cons_ne_nil _ _
    · rw [List.cons_append, ← same]
      refine isLongest_cons ?_
      intro kind other isSpelling begins
      obtain ⟨starts, _⟩ | ⟨_, isNumber⟩ | ⟨_, notDigit, _⟩ := isSpelling.of_head
      · exact absurd digit (Bool.not_eq_true _ ▸ isDigit_of_isWordStart starts)
      · exact whole ▸ length_le_of_isNumber isNumber begins
      · exact absurd digit (Bool.not_eq_true _ ▸ notDigit)

end Numbers

section Symbols

/-- The first entry of the table that fits is the longest one. -/
theorem length_le_of_find? {text : List Char} {found other : Token.Kind × String}
    (finds : symbols.find? (fun entry => entry.2.toList.isPrefixOf text) = some found)
    (present : other ∈ symbols) (begins : other.2.toList <+: text) :
    other.2.toList.length ≤ found.2.toList.length := by
  obtain ⟨fits, before, after, same, none⟩ := List.find?_eq_some_iff_append.mp finds
  have begins' : found.2.toList <+: text := List.isPrefixOf_iff_prefix.mp fits
  rw [same, List.mem_append, List.mem_cons] at present
  obtain earlier | rfl | later := present
  · have unfit := none other earlier
    rw [List.isPrefixOf_iff_prefix.mpr begins] at unfit
    cases unfit
  · exact Nat.le_refl _
  · have apart := same ▸ pairwise_symbols
    have differs := (List.pairwise_cons.mp (List.pairwise_append.mp apart).2.1).1 other later
    refine Nat.le_of_not_le ?_
    intro longer
    exact differs (List.prefix_of_prefix_length_le begins' begins longer)

theorem takes_symbol {first : Char} {rest : List Char} {lexeme : Lexeme}
    (reads : symbol first rest = .ok lexeme) :
    Takes lexeme.content (first :: rest.take lexeme.more) (rest.drop lexeme.more) := by
  unfold symbol at reads
  split at reads
  · next kind spelling finds =>
      cases reads
      have present := List.mem_of_find?_eq_some finds
      have fits : spelling.toList <+: first :: rest :=
        List.isPrefixOf_iff_prefix.mp (List.find?_some finds :)
      obtain ⟨c, part, same, notWord, notDigit, _⟩ := head_of_mem_symbols _ present
      obtain rfl : spelling = String.ofList (c :: part) := by
        rw [← String.toList_inj, String.toList_ofList, same]
      rw [String.toList_ofList] at fits
      obtain ⟨rfl, begins⟩ := List.cons_prefix_cons.mp fits
      have more : (String.ofList (c :: part)).length - 1 = part.length := by
        rw [String.length_ofList, List.length_cons, Nat.add_sub_cancel]
      rw [more]
      refine takes_of_prefix begins fun later split => .spelling ?_ ?_
      · have isSpelling : IsSpelling kind (String.ofList (c :: part)).toList := .symbol present
        rwa [String.toList_ofList] at isSpelling
      · rw [List.cons_append, ← split]
        refine isLongest_cons ?_
        intro kind' other isSpelling begins'
        obtain ⟨starts, _⟩ | ⟨digit, _⟩ | ⟨_, _, _, symbol', present', same'⟩ := isSpelling.of_head
        · exact absurd starts (Bool.not_eq_true _ ▸ notWord)
        · exact absurd digit (Bool.not_eq_true _ ▸ notDigit)
        · have longest := length_le_of_find? finds present' (same' ▸ begins')
          rwa [same', String.toList_ofList] at longest
  · cases reads

end Symbols

/-- A word is a keyword if it is reserved, and only then. -/
theorem IsSpelling.of_word {kind : Token.Kind} {value : String}
    (spelling : IsSpelling kind value.toList) (word : kind = .identifier ∨ kind = .keyword) :
    IsWord value.toList ∧ (kind = .keyword ↔ Keyword.isReserved value = true) := by
  generalize whole : value.toList = text at spelling
  cases spelling with
  | identifier isWord free =>
      rw [← whole, String.ofList_toList] at free
      exact ⟨isWord, fun same => Token.Kind.noConfusion same,
        fun reserved => by cases free ▸ reserved⟩
  | keyword isWord reserved =>
      rw [← whole, String.ofList_toList] at reserved
      exact ⟨isWord, fun _ => reserved, fun _ => rfl⟩
  | number _ => exact word.elim Token.Kind.noConfusion Token.Kind.noConfusion
  | symbol present =>
      have none : ∀ entry ∈ symbols, ¬ (entry.1 = .identifier ∨ entry.1 = .keyword) := by decide
      exact absurd word (none _ present)

theorem mem_of_isBreak {c : Char} (isBreak : isBreak c = true) : c ∈ [' ', '\t', '\r', '\n'] := by
  simpa [Lexeme.isBreak, isSpace, or_assoc] using isBreak

section Taken

variable {text later : List Char}

theorem Takes.isBreak (takes : Takes .lineEnd text later) : ∀ c ∈ text, isBreak c = true := by
  cases takes with
  | lineEnd breaks => exact breaks

theorem Takes.isSpace (takes : Takes .blank text later) : ∀ c ∈ text, isSpace c = true := by
  cases takes with
  | blank spaces => exact spaces

theorem IsSpelling.isSpelled {kind : Token.Kind} (spelling : IsSpelling kind text) :
    kind.isSpelled = true := by
  have all : ∀ entry ∈ symbols, entry.1.isSpelled = true := by decide
  cases spelling with
  | identifier _ _ => rfl
  | keyword _ _ => rfl
  | number _ => rfl
  | symbol present => exact all _ present

/-- What takes a token closes neither a line nor the input. -/
theorem Takes.kind_ne {kind : Token.Kind} {value : String}
    (takes : Takes (.token kind value) text later) :
    kind ≠ .endOfLine ∧ kind ≠ .endOfInput := by
  cases takes with
  | spelling spelling _ =>
      have spelled := spelling.isSpelled
      constructor
      · rintro rfl
        cases spelled
      · rintro rfl
        cases spelled
  | string => exact ⟨Token.Kind.noConfusion, Token.Kind.noConfusion⟩
  | comment _ => exact ⟨Token.Kind.noConfusion, Token.Kind.noConfusion⟩

/-- A comment ends with its line. -/
theorem Takes.of_comment {value : String} (takes : Takes (.token .comment value) text later) :
    ∀ c ∈ later.head?, c = '\n' := by
  generalize isComment : Token.Kind.comment = kind at takes
  generalize isToken : Content.token kind value = content at takes
  cases takes with
  | spelling spelling _ =>
      obtain ⟨rfl, _⟩ := Content.token.inj isToken
      cases isComment ▸ spelling.isSpelled
  | string =>
      obtain ⟨rfl, _⟩ := Content.token.inj isToken
      cases isComment
  | comment ends => exact ends
  | lineEnd _ => cases isToken
  | blank _ => cases isToken

/-- A token takes at least one character, and does not begin with a line end. -/
theorem Takes.exists_head {kind : Token.Kind} {value : String}
    (takes : Takes (.token kind value) text later) :
    ∃ first rest, text = first :: rest ∧ first ≠ '\n' := by
  cases takes with
  | spelling spelling _ =>
      obtain ⟨first, rest, rfl⟩ := List.exists_cons_of_ne_nil spelling.ne_nil
      refine ⟨first, rest, rfl, ?_⟩
      obtain ⟨starts, _⟩ | ⟨digit, _⟩ | ⟨_, _, differs, _⟩ := spelling.of_head
      · exact fun newline => absurd (newline ▸ starts) (by decide)
      · exact fun newline => absurd (newline ▸ digit) (by decide)
      · exact differs
  | string => exact ⟨_, _, rfl, by decide⟩
  | comment _ => exact ⟨_, _, rfl, by decide⟩

/-- A token that is spelled as it is meant takes its value, and could take no more. -/
theorem Takes.of_isSpelled {kind : Token.Kind} {value : String} (spelled : kind.isSpelled = true)
    (takes : Takes (.token kind value) text later) :
    text = value.toList ∧ IsSpelling kind text ∧ IsLongest text (text ++ later) := by
  cases takes with
  | spelling spelling longest => exact ⟨String.toList_ofList.symm, spelling, longest⟩
  | string => cases spelled
  | comment _ => cases spelled

end Taken

/-- What the scanner takes at the head of a text. -/
theorem takes_of_read {first : Char} {rest : List Char} {lexeme : Lexeme}
    (reads : read first rest = .ok lexeme) :
    Takes lexeme.content (first :: rest.take lexeme.more) (rest.drop lexeme.more) := by
  unfold read at reads
  split at reads
  · next starts =>
      cases reads
      exact takes_word rest starts
  split at reads
  · next digit =>
      cases reads
      exact takes_number rest digit
  split at reads
  · next breaks =>
      cases reads
      refine takes_of_takeWhile isBreak (.lineEnd ?_)
      refine List.forall_mem_cons.mpr ⟨?_, fun c present => List.mem_takeWhile_imp present⟩
      obtain rfl | ⟨rfl, _⟩ := breaks
      · decide
      · decide
  split at reads
  · next space =>
      cases reads
      refine takes_of_takeWhile isSpace (.blank ?_)
      exact List.forall_mem_cons.mpr ⟨space, fun c present => List.mem_takeWhile_imp present⟩
  split at reads
  · next slashes =>
      cases reads
      obtain ⟨rfl, _⟩ := slashes
      refine takes_of_takeWhile (· != '\n') (.comment fun c head => ?_)
      have stops := List.head?_dropWhile_not (· != '\n') rest
      rw [head] at stops
      exact of_not_not fun differs => absurd (bne_iff_ne.mpr differs) (Bool.not_eq_true _ ▸ stops)
  split at reads
  · next quote =>
      subst quote
      split at reads
      · unfold string at reads
        split at reads
        · cases reads
          exact .string
        · cases reads
      · cases reads
  · exact takes_symbol reads

end Lexeme

end SmallLang
