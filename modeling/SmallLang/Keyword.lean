/-!
# Keywords

The words that no declaration can take as its name.
-/

set_option autoImplicit false

namespace SmallLang

/-- The reserved words. -/
inductive Keyword where
  | function
  | ifThen
  | otherwise
  | whileLoop
  | returns
  | letBinding
  | constant
  | switch
  | default
  | use
  | as
  | pub
  | external
  | true
  | false
  | null
  deriving DecidableEq, Repr

namespace Keyword

def all : List Keyword :=
  [.function, .ifThen, .otherwise, .whileLoop, .returns, .letBinding, .constant, .switch,
   .default, .use, .as, .pub, .external, .true, .false, .null]

def text : Keyword → String
  | .function => "fn"
  | .ifThen => "if"
  | .otherwise => "else"
  | .whileLoop => "while"
  | .returns => "return"
  | .letBinding => "let"
  | .constant => "const"
  | .switch => "switch"
  | .default => "default"
  | .use => "use"
  | .as => "as"
  | .pub => "pub"
  | .external => "extern"
  | .true => "true"
  | .false => "false"
  | .null => "null"

def ofText? (text : String) : Option Keyword := all.find? fun keyword => keyword.text == text

def isReserved (text : String) : Bool := (ofText? text).isSome

theorem mem_all (keyword : Keyword) : keyword ∈ all := by
  cases keyword <;> decide

@[simp] theorem ofText?_text (keyword : Keyword) : ofText? keyword.text = some keyword := by
  cases keyword <;> decide

end Keyword

end SmallLang
