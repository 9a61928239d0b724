import SmallLang.Error
import SmallLang.Token
import SmallLang.Tree

/-!
# Parser states

A parser reads tokens from the front of a list and stops for good at the end of input. It
keeps its place, and the modifiers it has read, also after an error.
-/

set_option autoImplicit false

namespace SmallLang

namespace Parse

/-- A place in a list of tokens: those that are still to be read before the end of input,
the token that marks the end, and the modifiers that wait for their function. -/
structure State where
  rest : List Token
  stop : Token
  pending : List Modifier
  stop_kind : stop.kind = .endOfInput
  deriving DecidableEq, Repr

/-- Why a parser stops: the tokens are at fault, or the bound on its depth was reached. -/
inductive Halt where
  | error (error : Error)
  | exhausted
  deriving DecidableEq, Repr

namespace State

/-- The end of a list of tokens that does not mark it: where the last token ends. -/
def endOf (tokens : List Token) : Token :=
  match tokens.getLast? with
  | some last => Token.finish (.emptyAt last.span.stopPosition)
  | none => Token.finish (.emptyAt .null)

theorem endOf_kind (tokens : List Token) : (endOf tokens).kind = .endOfInput := by
  unfold endOf
  split <;> rfl

/-- The first end of input among tokens, or the one that closes them. -/
def stopOf (tokens : List Token) : Token :=
  (tokens.find? (·.kind == .endOfInput)).getD (endOf tokens)

theorem stopOf_kind (tokens : List Token) : (stopOf tokens).kind = .endOfInput := by
  unfold stopOf
  cases found : tokens.find? (·.kind == .endOfInput) with
  | none => exact endOf_kind tokens
  | some token => simpa using List.find?_some found

/-- The state before any token is read. What follows the first end of input is never
read. -/
def ofTokens (tokens : List Token) : State where
  rest := tokens.takeWhile (·.kind != .endOfInput)
  stop := stopOf tokens
  pending := []
  stop_kind := stopOf_kind tokens

def current (state : State) : Token := state.rest.headD state.stop

/-- The state after one more token. At the end of input nothing moves. -/
def advance (state : State) : State := { state with rest := state.rest.tail }

/-- The next token that is no line end. -/
def peekPastNewlines (state : State) : Token :=
  (state.rest.find? (·.kind != .endOfLine)).getD state.stop

def isSeparator (token : Token) : Bool := token.kind == .endOfLine || token.isDelimiter ";"

/-- Whether a token means nothing inside brackets. -/
def isTrivia (token : Token) : Bool := token.kind == .endOfLine || token.kind == .comment

/-- The state past all line ends and semicolons that come next. -/
def skipNewlines (state : State) : State :=
  { state with rest := state.rest.dropWhile isSeparator }

/-- The state past all line ends and comments that come next. -/
def skipTrivia (state : State) : State :=
  { state with rest := state.rest.dropWhile isTrivia }

def atEnd (state : State) : Bool := state.current.kind == .endOfInput

/-- The complaint that the next token is not what it should be. -/
def expectation (state : State) (expected : String) : Error :=
  let token := state.current
  match token.kind with
  | .endOfInput => ⟨.unexpectedEnd expected, token.position⟩
  | _ => ⟨.expectedToken expected token.shown, token.position⟩

end State

end Parse

/-- A parser: it ends with a value or a reason to stop, and with a state in either case. -/
abbrev Parse := EStateM Parse.Halt Parse.State

namespace Parse

variable {α : Type}

def current : Parse Token := fun state => .ok state.current state

def advance : Parse Token := fun state => .ok state.current state.advance

def consume : Parse Unit := fun state => .ok () state.advance

def skipNewlines : Parse Unit := fun state => .ok () state.skipNewlines

def skipTrivia : Parse Unit := fun state => .ok () state.skipTrivia

def fail (error : Error) : Parse α := fun state => .error (.error error) state

def expected (what : String) : Parse α :=
  fun state => .error (.error (state.expectation what)) state

/-- Stops because the parser would go deeper than it may. -/
def exhausted : Parse α := fun state => .error .exhausted state

def expect (kind : Token.Kind) (value : String) : Parse Token := do
  if (← current).is kind value then advance else expected ("`" ++ value ++ "`")

def identifier (what : String) : Parse String := do
  if (← current).kind == .identifier then return (← advance).value else expected what

/-- Reads the end of a statement. The end of input, a comment and a closing brace end one
too, and are left in place. -/
def statementEnd : Parse Unit := do
  let token ← current
  match token.kind with
  | .endOfLine => consume
  | .endOfInput | .comment => return
  | .delimiter =>
      if token.value = ";" then consume
      else if token.value = "\x7d" then return
      else expected "end of statement"
  | _ => expected "end of statement"

/-- A type name. The keyword `null` is one too. -/
def typeName : Parse TypeName := do
  let token ← current
  if token.kind == .identifier || token.isKeyword "null" then
    consume
    return ⟨token.value, token.position⟩
  else expected "type name"

/-- What must follow an item of a list: a comma, which is taken, or the closing
parenthesis, which is not. -/
def listSeparator : Parse Unit := do
  let next ← current
  if next.isDelimiter "," then consume
  else if next.isDelimiter ")" then return
  else expected "`,` or `)`"

/-- Items between parentheses, after the opening one. Commas stand between them, and line
ends and comments anywhere. -/
def listItems (item : Parse α) : Nat → Parse (List α)
  | 0 => exhausted
  | depth + 1 => do
      skipTrivia
      if (← current).isDelimiter ")" then return []
      else
        let first ← item
        skipTrivia
        listSeparator
        return first :: (← listItems item depth)

/-- Items between parentheses, and the closing one. Each item takes a token at least, so
that there cannot be more of them than tokens. -/
def list (item : Parse α) : Parse (List α) := do
  let items ← listItems item ((← get).rest.length + 1)
  let _ ← expect .delimiter ")"
  return items

/-- Items up to the closing brace, which is taken. `skip` runs before each. -/
def blockItems (skip : Parse Unit) (item : Parse α) : Nat → Parse (List α)
  | 0 => exhausted
  | depth + 1 => do
      skip
      if (← current).isDelimiter "\x7d" then
        consume
        return []
      else if (← get).atEnd then expected "`\x7d`"
      else
        let first ← item
        return first :: (← blockItems skip item depth)

def block (skip : Parse Unit) (item : Parse α) : Parse (List α) := do
  let _ ← expect .delimiter "\x7b"
  blockItems skip item ((← get).rest.length + 1)

end Parse

end SmallLang
