import SmallLang.Source.Position

/-!
# Tokens

A token has a kind, a value and the span of bytes that it was read from. The value is what
the token denotes: a string without its quotes and escapes, a comment without its marks.
-/

set_option autoImplicit false

namespace SmallLang

inductive Token.Kind where
  | endOfInput
  | endOfLine
  | identifier
  | keyword
  | operator
  | delimiter
  | number
  | string
  | comment
  deriving DecidableEq, Repr

/-- A token. Its kind and its value are independent: tokens may come from elsewhere than
from a scan. -/
structure Token where
  kind : Token.Kind
  value : String
  span : Span
  deriving DecidableEq, Repr

namespace Token

/-- The token that closes a list of tokens. -/
def finish (span : Span) : Token := ⟨.endOfInput, "EOF", span⟩

def position (token : Token) : Position := token.span.startPosition

/-- How a token is named in errors. -/
def shown (token : Token) : String :=
  match token.kind with
  | .endOfInput => "end of input"
  | .endOfLine => "end of line"
  | _ => token.value

def is (token : Token) (kind : Kind) (value : String) : Bool :=
  token.kind == kind && token.value == value

def isOperator (token : Token) (symbol : String) : Bool := token.is .operator symbol

def isDelimiter (token : Token) (symbol : String) : Bool := token.is .delimiter symbol

def isKeyword (token : Token) (text : String) : Bool := token.is .keyword text

end Token

end SmallLang
