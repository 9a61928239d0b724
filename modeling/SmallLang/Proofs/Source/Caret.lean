import SmallLang.Error.Report
import SmallLang.Proofs.Source.Lines
import SmallLang.Proofs.Token.Written

/-!
# Carets

The excerpt of a report shows the character that an error stands at, and one caret in the row below.
The caret counts the bytes in front of the character and makes up for the spaces and tabs that the
line begins with. So it stands below the character if there are only ASCII characters in front, and
no other white space that is left out, and to the right of it otherwise.
-/

set_option autoImplicit false

namespace SmallLang

namespace Text

section Trim

variable {c : Char} (dark : isBlank c = false) (front back : List Char)
include dark

theorem dropWhile_append_dark :
    (front ++ c :: back).dropWhile isBlank = front.dropWhile isBlank ++ c :: back := by
  induction front with
  | nil => simp [dark]
  | cons first front ih =>
      by_cases blank : isBlank first = true
      · simp [blank, ih]
      · simp [blank]

theorem rdropWhile_append_dark :
    (front ++ c :: back).rdropWhile isBlank = front ++ c :: back.rdropWhile isBlank := by
  induction back using List.reverseRecOn with
  | nil => simp [List.rdropWhile_concat_neg, dark]
  | append_singleton back last ih =>
      rw [← List.cons_append, ← List.append_assoc]
      by_cases blank : isBlank last = true
      · rw [List.rdropWhile_concat_pos _ _ _ blank, List.rdropWhile_concat_pos _ _ _ blank, ih]
      · rw [List.rdropWhile_concat_neg _ _ _ blank, List.rdropWhile_concat_neg _ _ _ blank]
        simp

/-- Trimming leaves everything between two characters that are no blanks. -/
theorem trim_append_dark :
    trim (front ++ c :: back) = front.dropWhile isBlank ++ c :: back.rdropWhile isBlank := by
  rw [trim_eq_rdropWhile, dropWhile_append_dark dark, rdropWhile_append_dark dark]

end Trim

theorem length_le_byteLength (text : List Char) : text.length ≤ byteLength text := by
  induction text with
  | nil => exact Nat.le_refl 0
  | cons c rest ih =>
      have one := c.utf8Size_pos
      rw [List.length_cons, byteLength_cons]
      omega

theorem byteLength_le_length_iff {text : List Char} :
    byteLength text ≤ text.length ↔ ∀ c ∈ text, c.utf8Size = 1 := by
  induction text with
  | nil => simp
  | cons c rest ih =>
      have one := c.utf8Size_pos
      have all := length_le_byteLength rest
      rw [List.forall_mem_cons, ← ih, List.length_cons, byteLength_cons]
      omega

theorem newline_not_mem_toDigits (n : Nat) : '\n' ∉ Nat.toDigits 10 n := fun present =>
  absurd (Nat.isDigit_of_mem_toDigits (by decide) (by decide) present) (by decide)

end Text

namespace Source

/-- What stands in front of a place in its line, by all that stands in front of it. -/
def lineBefore (front : List Char) : List Char := front.rtakeWhile (· != '\n')

/-- Whether a caret makes up for a character at the beginning of its line. -/
def isIndent (c : Char) : Bool := c == ' ' || c == '\t'

/-- How far to the right of a character its caret stands, by what stands in front of the character
in its line: a column for each byte but the first of a character there, and one for each blank that
is left out of the excerpt although the caret does not make up for it. -/
def drift (before : List Char) : Nat :=
  (Text.byteLength before - before.length) +
    ((before.takeWhile Text.isBlank).length - (before.takeWhile isIndent).length)

section Lines

theorem lineBefore_of_not_mem {front : List Char} (whole : '\n' ∉ front) :
    lineBefore front = front := by
  refine List.rtakeWhile_eq_self_iff.mpr ?_
  intro c present
  rw [bne_iff_ne]
  rintro rfl
  exact whole present

theorem lineBefore_append (line front : List Char) :
    lineBefore (line ++ '\n' :: front) = lineBefore front := by
  unfold lineBefore List.rtakeWhile
  rw [List.reverse_append, List.reverse_cons, List.append_assoc, List.takeWhile_append]
  split
  · next all =>
      have whole := List.IsPrefix.eq_of_length (List.takeWhile_prefix _) all
      simp [whole]
  · rfl

theorem newline_not_mem_lineBefore (front : List Char) : '\n' ∉ lineBefore front := by
  intro present
  simpa using List.mem_rtakeWhile_imp present

variable {c : Char}

/-- The line of a character, among the lines of the text that it stands in. -/
theorem exists_lines_append (proper : c ≠ '\n') (front back : List Char) :
    ∃ before line ending after,
      lines (front ++ c :: back) = before ++ (lineBefore front ++ c :: (line ++ ending)) :: after ∧
      before.length = front.count '\n' ∧
      (before.map Text.byteLength).sum + Text.byteLength (lineBefore front) =
        Text.byteLength front ∧
      '\n' ∉ line ∧ (ending = [] ∨ ending = ['\n']) := by
  by_cases newline : '\n' ∈ front
  · obtain ⟨first, rest, splits, whole⟩ := List.eq_append_cons_of_mem newline
    have shorter : rest.length < front.length := by
      simp only [splits, List.length_append, List.length_cons]
      omega
    obtain ⟨before, line, ending, after, cuts, counts, adds, tail⟩ :=
      exists_lines_append proper rest back
    refine ⟨(first ++ ['\n']) :: before, line, ending, after, ?_, ?_, ?_, tail⟩
    · rw [splits, List.append_assoc, List.cons_append, lines_append whole, cuts, lineBefore_append]
      rfl
    · simp [splits, counts, List.count_eq_zero.mpr whole]
    · rw [splits, lineBefore_append, List.map_cons, List.sum_cons, Nat.add_assoc, adds]
      simp [Nat.add_assoc]
  · rw [lineBefore_of_not_mem newline]
    have start : '\n' ∉ front ++ [c] := by simp [newline, proper.symm]
    have counts : 0 = front.count '\n' := (List.count_eq_zero.mpr newline).symm
    by_cases newline' : '\n' ∈ back
    · obtain ⟨line, rest, splits, whole⟩ := List.eq_append_cons_of_mem newline'
      have whole' : '\n' ∉ front ++ c :: line := by simp [newline, proper.symm, whole]
      refine ⟨[], line, ['\n'], lines rest, ?_, counts, Nat.zero_add _, whole, .inr rfl⟩
      rw [splits, ← List.cons_append, ← List.append_assoc, lines_append whole']
      simp
    · have whole' : '\n' ∉ front ++ c :: back := by simp [newline, proper.symm, newline']
      refine ⟨[], back, [], [], ?_, counts, Nat.zero_add _, newline', .inl rfl⟩
      rw [lines_of_not_mem (by simp) whole']
      simp
termination_by front.length

/-- The place of a character: its line is one more than there are newlines in front of it. -/
theorem exists_place?_eq {content : String} {front back : List Char}
    (splits : content.toList = front ++ c :: back) (proper : c ≠ '\n') :
    ∃ line ending, place? content (Text.byteLength front) =
        some ⟨front.count '\n' + 1, lineBefore front ++ c :: (line ++ ending),
          Text.byteLength (lineBefore front)⟩ ∧
      '\n' ∉ line ∧ (ending = [] ∨ ending = ['\n']) := by
  obtain ⟨before, line, ending, after, cuts, counts, adds, tail⟩ :=
    exists_lines_append proper front back
  have one := c.utf8Size_pos
  refine ⟨line, ending, ?_, tail⟩
  rw [place?, splits, placeIn_eq_some_iff]
  refine ⟨before, after, cuts, ?_, ?_, adds⟩
  · rw [counts, Nat.add_comm]
  · simp only [Text.byteLength_append, Text.byteLength_cons]
    omega

end Lines

section Drift

variable {before : List Char}

theorem isBlank_of_isIndent {c : Char} (indents : isIndent c = true) : Text.isBlank c = true := by
  simp only [isIndent, Bool.or_eq_true, beq_iff_eq] at indents
  rcases indents with rfl | rfl <;> decide

theorem takeWhile_isIndent (text : List Char) :
    (text.takeWhile Text.isBlank).takeWhile isIndent = text.takeWhile isIndent := by
  rw [List.takeWhile_takeWhile]
  congr
  funext c
  simpa using isBlank_of_isIndent

theorem isPrefix_takeWhile_isIndent (text : List Char) :
    text.takeWhile isIndent <+: text.takeWhile Text.isBlank := by
  rw [← takeWhile_isIndent]
  exact List.takeWhile_prefix _

/-- A caret stands where it should if the characters in front of it take one byte each, and all
blanks that the line begins with are spaces and tabs. -/
theorem drift_eq_zero_iff : drift before = 0 ↔
    (∀ c ∈ before, c.utf8Size = 1) ∧ ∀ c ∈ before.takeWhile Text.isBlank, isIndent c = true := by
  have shorter := isPrefix_takeWhile_isIndent before
  rw [drift, Nat.add_eq_zero_iff, Nat.sub_eq_zero_iff_le, Nat.sub_eq_zero_iff_le,
    Text.byteLength_le_length_iff, ← List.takeWhile_eq_self_iff, takeWhile_isIndent]
  refine and_congr_right ?_
  intro _
  exact ⟨fun all => shorter.eq_of_length_le all, fun same => same ▸ Nat.le_refl _⟩

end Drift

/-- A report ends with a row that shows a character at a column, and one below it with a single
caret at another column. Columns count characters from 0. -/
structure Marks (report : String) (row below : List Char) (c : Char) (column caret : Nat) :
    Prop where
  ends : ∃ above, report.toList = above ++ '\n' :: row ++ '\n' :: below ++ ['\n']
  oneRow : '\n' ∉ row
  oneBelow : '\n' ∉ below
  shows : row[column]? = some c
  stands : ∀ index, below[index]? = some '^' ↔ index = caret

/-- The only caret of a row stands at its end. -/
theorem getElem?_caret_iff {row : List Char} (none : '^' ∉ row) (index : Nat) :
    (row ++ ['^'])[index]? = some '^' ↔ index = row.length := by
  rw [List.getElem?_append]
  split
  · next inside =>
      constructor
      · intro found
        exact absurd (List.mem_of_getElem? found) none
      · omega
  · next outside =>
      rw [List.getElem?_singleton]
      split
      · simp
        omega
      · simp
        omega

/-! ### Rows of an excerpt -/

/-- What stands in front of the text of a line in an excerpt: its number. -/
def label (number : Nat) : List Char := (toString number).toList ++ [' ', '|', ' ']

/-- What stands in front of the caret: blanks as wide as the number. -/
def margin (number : Nat) : List Char :=
  List.replicate ((toString number).length + 1) ' ' ++ ['|', ' ']

theorem length_margin (number : Nat) : (margin number).length = (label number).length := by
  simp only [margin, label, List.length_append, List.length_replicate, String.length_toList,
    List.length_cons, List.length_nil]

theorem toList_excerpt (place : Place) :
    let indent := (place.text.takeWhile isIndent).length
    ∃ above, place.excerpt.toList = above ++ '\n' ::
      (label place.number ++ Text.trim (place.text.drop indent)) ++ '\n' ::
      (margin place.number ++ List.replicate (place.column - indent) '-' ++ ['^']) ++ ['\n'] := by
  refine ⟨List.replicate ((toString place.number).length + 1) ' ' ++ ['|'], ?_⟩
  have same : (fun c => c == ' ' || c == '\t') = isIndent := rfl
  simp [Place.excerpt, Text.run, label, margin, same]

section Excerpt

variable {number : Nat} {before line ending : List Char} {c : Char}
  (dark : Text.isBlank c = false)
include dark

theorem takeWhile_isIndent_append (back : List Char) :
    (before ++ c :: back).takeWhile isIndent = before.takeWhile isIndent := by
  have stops : ¬ isIndent c = true := fun indents => by simp [isBlank_of_isIndent indents] at dark
  induction before with
  | nil => simp [stops]
  | cons first rest ih =>
      by_cases indents : isIndent first = true
      · simp [indents, ih]
      · simp [indents]

/-- The white space that a line begins with is left out of the excerpt, whatever it is. -/
theorem trim_drop_indent (back : List Char) :
    Text.trim ((before ++ c :: back).drop (before.takeWhile isIndent).length) =
      before.dropWhile Text.isBlank ++ c :: back.rdropWhile Text.isBlank := by
  have again (text : List Char) :
      (text.dropWhile isIndent).dropWhile Text.isBlank = text.dropWhile Text.isBlank := by
    induction text with
    | nil => rfl
    | cons first rest ih =>
        by_cases indents : isIndent first = true
        · simp [indents, isBlank_of_isIndent indents, ih]
        · simp [indents]
  have rest (text : List Char) :
      text.drop (text.takeWhile isIndent).length = text.dropWhile isIndent := by
    calc text.drop (text.takeWhile isIndent).length
        = (text.takeWhile isIndent ++ text.dropWhile isIndent).drop
            (text.takeWhile isIndent).length := by rw [List.takeWhile_append_dropWhile]
      _ = text.dropWhile isIndent := List.drop_left
  rw [← takeWhile_isIndent_append dark back, rest, Text.trim_eq_rdropWhile, again,
    ← Text.trim_eq_rdropWhile, Text.trim_append_dark dark]

/-- Where the caret of an excerpt stands, in terms of the character that it is meant for. -/
theorem Place.marks_excerpt (number : Nat) (whole : '\n' ∉ before) (whole' : '\n' ∉ line)
    (ended : ending = [] ∨ ending = ['\n']) (above : String) :
    ∃ row below column,
      Marks (above ++ Place.excerpt ⟨number, before ++ c :: (line ++ ending),
        Text.byteLength before⟩) row below c column (column + drift before) ∧
      row.take column = label number ++ before.dropWhile Text.isBlank := by
  let shown := label number ++ before.dropWhile Text.isBlank
  let dashes := Text.byteLength before - (before.takeWhile isIndent).length
  let below := margin number ++ List.replicate dashes '-'
  let row := shown ++ c :: (line ++ ending).rdropWhile Text.isBlank
  have reaches : shown.length + drift before = below.length := by
    have parts := congrArg List.length
      (List.takeWhile_append_dropWhile (p := Text.isBlank) (l := before))
    have fewer := (isPrefix_takeWhile_isIndent before).length_le
    have bytes := Text.length_le_byteLength before
    rw [List.length_append] at parts
    simp only [shown, below, dashes, drift, List.length_append, List.length_replicate,
      length_margin]
    omega
  refine ⟨row, below ++ ['^'], shown.length, ⟨?_, ?_, ?_, ?_, ?_⟩, ?_⟩
  · obtain ⟨top, ends⟩ := toList_excerpt
      ⟨number, before ++ c :: (line ++ ending), Text.byteLength before⟩
    refine ⟨above.toList ++ top, ?_⟩
    rw [String.toList_append, ends]
    simp only [takeWhile_isIndent_append dark, trim_drop_indent dark, row, shown, below, dashes,
      List.append_assoc]
  · have shows : '\n' ∉ before.dropWhile Text.isBlank :=
      fun present => whole ((List.dropWhile_sublist _).subset present)
    have proper : '\n' ≠ c := by
      rintro rfl
      exact absurd dark (by decide)
    have trimmed : '\n' ∉ (line ++ ending).rdropWhile Text.isBlank := by
      rcases ended with rfl | rfl
      · rw [List.append_nil]
        exact fun present => whole' ((List.rdropWhile_prefix _ _).subset present)
      · rw [List.rdropWhile_concat_pos _ _ _ (by decide)]
        exact fun present => whole' ((List.rdropWhile_prefix _ _).subset present)
    simp [row, shown, label, Text.newline_not_mem_toDigits, shows, proper, trimmed]
  · simp [below, margin]
  · simp [row]
  · rw [reaches]
    exact getElem?_caret_iff (by simp [below, margin])
  · exact List.take_left

end Excerpt

end Source

/-- The report of an error at a character that is no white space ends with an excerpt that shows the
character. The only caret below stands to the right of it by the drift of its line, and below it
exactly if all in front of it in the line takes one byte each, and the blanks that the line begins
with are spaces and tabs. -/
theorem Error.marks_report {error : Error} {source : String} {front back : List Char} {c : Char}
    (somewhere : error.position.isNull = false) (splits : source.toList = front ++ c :: back)
    (stands : error.position.offset = Text.byteLength front) (dark : Text.isBlank c = false) :
    ∃ row below column,
      Source.Marks (error.report source) row below c column
        (column + Source.drift (Source.lineBefore front)) ∧
      row.take column = Source.label (front.count '\n' + 1) ++
        (Source.lineBefore front).dropWhile Text.isBlank ∧
      (Source.drift (Source.lineBefore front) = 0 ↔
        (∀ d ∈ Source.lineBefore front, d.utf8Size = 1) ∧
        ∀ d ∈ (Source.lineBefore front).takeWhile Text.isBlank, d = ' ' ∨ d = '\t') := by
  have proper : c ≠ '\n' := by
    rintro rfl
    exact absurd dark (by decide)
  obtain ⟨line, ending, found, whole, ended⟩ := Source.exists_place?_eq splits proper
  obtain ⟨row, below, column, marks, shows⟩ := Source.Place.marks_excerpt dark
    (front.count '\n' + 1) (Source.newline_not_mem_lineBefore front) whole ended
    (error.headline ++ "-> " ++ error.position.file ++ "\n")
  have reports : error.report source =
      error.headline ++ "-> " ++ error.position.file ++ "\n" ++ Source.Place.excerpt
        ⟨front.count '\n' + 1, Source.lineBefore front ++ c :: (line ++ ending),
          Text.byteLength (Source.lineBefore front)⟩ := by
    rw [Error.report, somewhere, stands, found]
    rfl
  refine ⟨row, below, column, reports ▸ marks, shows, ?_⟩
  rw [Source.drift_eq_zero_iff]
  simp [Source.isIndent]

/-- A letter of two bytes in front of a character, and a carriage return at the beginning of its
line, put the caret one column too far to the right. -/
theorem Error.marks_report_beside :
    (∃ error row below column, Token.scan "\"é\" @" "main.lang" = .error error ∧
      error.report "\"é\" @" =
        "Error: UnrecognisedToken\n-> main.lang\n  |\n1 | \"é\" @\n  | -----^\n" ∧
      Source.Marks (error.report "\"é\" @") row below '@' column (column + 1)) ∧
    ∃ error row below column, Token.scan "x\n\r@" "main.lang" = .error error ∧
      error.report "x\n\r@" =
        "Error: UnrecognisedToken\n-> main.lang\n  |\n2 | @\n  | -^\n" ∧
      Source.Marks (error.report "x\n\r@") row below '@' column (column + 1) := by
  have letter : Source.drift (Source.lineBefore ['"', 'é', '"', ' ']) = 1 := by decide
  have blank : Source.drift (Source.lineBefore ['x', '\n', '\r']) = 1 := by decide
  obtain ⟨row, below, column, marks, _⟩ :=
    @marks_report ⟨.unrecognisedToken "@", ⟨"main.lang", 5⟩⟩ "\"é\" @" ['"', 'é', '"', ' '] [] '@'
      (by decide) (by decide) (by decide) (by decide)
  obtain ⟨row', below', column', marks', _⟩ :=
    @marks_report ⟨.unrecognisedToken "@", ⟨"main.lang", 3⟩⟩ "x\n\r@" ['x', '\n', '\r'] [] '@'
      (by decide) (by decide) (by decide) (by decide)
  rw [letter] at marks
  rw [blank] at marks'
  exact ⟨⟨_, row, below, column, by decide +kernel, by decide +kernel, marks⟩,
    _, row', below', column', by decide +kernel, by decide +kernel, marks'⟩

end SmallLang
