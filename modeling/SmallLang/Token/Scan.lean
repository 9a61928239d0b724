import SmallLang.Error
import SmallLang.Keyword
import SmallLang.Text.Blank
import SmallLang.Text.Measure
import SmallLang.Token
import SmallLang.Token.Literal

/-!
# Scanning

A source is read as a run of lexemes. Each begins with the character at hand and extends
over the longest stretch that its rule allows. Words, numbers, strings, comments and
symbols become tokens; blanks leave none, and a line end leaves one unless nothing or
another line end stands before it.
-/

set_option autoImplicit false

namespace SmallLang

namespace Lexeme

def isWordStart (c : Char) : Bool := c.isAlpha || c == '_'

def isWordPart (c : Char) : Bool := isWordStart c || c.isDigit

def isSpace (c : Char) : Bool := c == ' ' || c == '\t' || c == '\r'

/-- The blanks that a line end takes with it. -/
def isBreak (c : Char) : Bool := isSpace c || c == '\n'

/-- The spellings of operators and delimiters. A spelling stands before its own
beginnings, so that the first that fits is the longest. -/
def symbols : List (Token.Kind × String) :=
  (([":=", "->", "==", "!=", "<=", ">=", "&&", "||", "++", "--", "+", "-", "*", "/", "<", ">",
     "!", "=", "."].map fun symbol => (.operator, symbol)) ++
   (["(", ")", "\x7b", "\x7d", ",", ":", ";"].map fun symbol => (.delimiter, symbol)))

/-- What stands at the head of a text. -/
inductive Content where
  | token (kind : Token.Kind) (value : String)
  | lineEnd
  | blank
  deriving DecidableEq, Repr

end Lexeme

/-- A lexeme: what it is, and how many characters it takes after its first. -/
structure Lexeme where
  content : Lexeme.Content
  more : Nat
  deriving DecidableEq, Repr

namespace Lexeme

/-- A word is a keyword if it is reserved. -/
def word (first : Char) (rest : List Char) : Lexeme :=
  let part := rest.takeWhile isWordPart
  let text := String.ofList (first :: part)
  ⟨.token (if Keyword.isReserved text then .keyword else .identifier) text, part.length⟩

/-- The fraction that may follow the digits of a number: a point and at least one digit. -/
def fraction : List Char → List Char
  | '.' :: rest =>
      match rest.takeWhile Char.isDigit with
      | [] => []
      | digits => '.' :: digits
  | _ => []

/-- A number is a run of digits with at most one fraction. -/
def number (first : Char) (rest : List Char) : Lexeme :=
  let part := rest.takeWhile Char.isDigit ++ fraction (rest.dropWhile Char.isDigit)
  ⟨.token .number (String.ofList (first :: part)), part.length⟩

/-- The text of a comment without the slashes in front of it, which come in pairs. -/
def withoutSlashes : List Char → List Char
  | '/' :: '/' :: rest => withoutSlashes rest
  | text => text

/-- A comment runs to the end of its line. Its value is trimmed. -/
def comment (rest : List Char) : Lexeme :=
  let part := rest.takeWhile (· != '\n')
  ⟨.token .comment (String.ofList (Text.trim (withoutSlashes ('/' :: part)))), part.length⟩

/-- A string takes its body and the closing quote. An escape without a digit is reported in
place of the string. -/
def string (body : List Char) : Except String Lexeme :=
  match Literal.text? body with
  | some text => .ok ⟨.token .string (String.ofList text), body.length + 1⟩
  | none => .error "\\x"

/-- An operator or a delimiter, or the character that begins no lexeme. -/
def symbol (first : Char) (rest : List Char) : Except String Lexeme :=
  match symbols.find? fun entry => entry.2.toList.isPrefixOf (first :: rest) with
  | some (kind, spelling) => .ok ⟨.token kind spelling, spelling.length - 1⟩
  | none => .error (String.singleton first)

/-- The lexeme that begins with `first`, or the text that cannot be read. -/
def read (first : Char) (rest : List Char) : Except String Lexeme :=
  if isWordStart first then .ok (word first rest)
  else if first.isDigit then .ok (number first rest)
  else if first = '\n' ∨ (first = '\r' ∧ rest.head? = some '\n') then
    .ok ⟨.lineEnd, (rest.takeWhile isBreak).length⟩
  else if isSpace first then .ok ⟨.blank, (rest.takeWhile isSpace).length⟩
  else if first = '/' ∧ rest.head? = some '/' then .ok (comment rest)
  else if first = '"' then
    match Literal.body? rest with
    | some body => string body
    | none => .error "\""
  else symbol first rest

end Lexeme

namespace Token

/-- The tokens of a text that begins at byte `offset` of a file. `open?` tells whether a
token other than a line end stands before it. -/
def scanFrom (file : String) (offset : Nat) (open? : Bool) (text : List Char) :
    Except Error (List Token) :=
  match text with
  | [] => .ok [finish ⟨file, offset, offset⟩]
  | first :: rest =>
      match Lexeme.read first rest with
      | .error unread => .error ⟨.unrecognisedToken unread, ⟨file, offset⟩⟩
      | .ok lexeme =>
          let next := offset + Text.byteLength (first :: rest.take lexeme.more)
          let span : Span := ⟨file, offset, next⟩
          let later := rest.drop lexeme.more
          match lexeme.content with
          | .token kind value =>
              (scanFrom file next true later).map (⟨kind, value, span⟩ :: ·)
          | .lineEnd =>
              if open? then (scanFrom file next false later).map (⟨.endOfLine, "\n", span⟩ :: ·)
              else scanFrom file next false later
          | .blank => scanFrom file next open? later
termination_by text.length
decreasing_by all_goals simp only [List.length_cons, List.length_drop]; omega

/-- The file name of a source that was given none. -/
def unnamedFile : String := "shell"

/-- The tokens of a source, closed by the end of input. -/
def scan (source file : String) : Except Error (List Token) :=
  scanFrom file 0 false source.toList

end Token

end SmallLang
