import SmallLang.Parse.Expr

/-!
# Statements

A statement is known by its first token. Statements end at a line end or a semicolon, and
blocks stand between braces.
-/

set_option autoImplicit false

namespace SmallLang.Parse

/-- The path of a used module, after its first segment, to a bounded length. -/
def segmentsWithin (path : String) : Nat → Parse String
  | 0 => exhausted
  | depth + 1 => do
      if (← current).isOperator "/" then
        consume
        let segment ← identifier "module path segment after `/`"
        segmentsWithin (path ++ "/" ++ segment) depth
      else return path

/-- `use path/to/it as name`, from the keyword on. -/
def useStatement : Parse Stmt := do
  let position := (← advance).position
  let first ← identifier "module path"
  let path ← segmentsWithin first ((← get).rest.length + 1)
  if (← current).isKeyword "as" then
    consume
    let name ← identifier "alias after `as`"
    return .use ⟨path, some name, position⟩
  else return .use ⟨path, none, position⟩

/-- What follows the name of a variable: a value, a type, or both. -/
def typeAndValue : Parse (Option TypeName × Option Expr) := do
  if (← current).isOperator ":=" then
    consume
    return (none, some (← expression .lowest))
  else if (← current).isDelimiter ":" then
    consume
    let type ← typeName
    if (← current).isOperator "=" then
      consume
      return (some type, some (← expression .lowest))
    else return (some type, none)
  else return (none, none)

/-- A variable or a constant, from the keyword on. A constant has a value. -/
def variableStatement : Parse Stmt := do
  let keyword ← advance
  let mutable := keyword.value == "let"
  let name ← identifier "identifier during variable declaration"
  let (type, value) ← typeAndValue
  if !mutable && value.isNone then expected "initializer in constant definition"
  else return .declare ⟨name, mutable, type, value, keyword.position, none⟩

/-- Whether a token ends a statement where a value could stand. -/
def endsValue (token : Token) : Bool :=
  match token.kind with
  | .endOfLine | .endOfInput | .comment => true
  | _ => token.isDelimiter "\x7d" || token.isDelimiter ";"

/-- A value to return, from the keyword on. A return that ends here has none. -/
def returnStatement : Parse Stmt := do
  consume
  if endsValue (← current) then return .returns none
  else return .returns (some (← expression .lowest))

def parameter : Parse Parameter := do
  let name ← identifier "parameter name"
  let _ ← expect .delimiter ":"
  return ⟨name, ← typeName⟩

/-- A function up to its body, from the keyword on. It takes the modifiers that wait. -/
def functionHeader : Parse FunctionHeader := do
  let modifiers := (← get).pending
  modify fun state => { state with pending := [] }
  let position := (← advance).position
  let name ← identifier "function name"
  let _ ← expect .delimiter "("
  let parameters ← list parameter
  if (← current).isOperator "->" then
    consume
    return ⟨name, parameters, some (← typeName), modifiers, position, none⟩
  else return ⟨name, parameters, none, modifiers, position, none⟩

/-- Lets a modifier wait for its function. The same one cannot wait twice. -/
def addModifier (modifier : Modifier) : Parse Unit := do
  let token ← advance
  if (← get).pending.contains modifier then
    fail ⟨.unexpectedToken token.value, token.position⟩
  else
    modify fun state => { state with pending := state.pending ++ [modifier] }
    let next ← current
    if next.isKeyword "fn" || next.isKeyword "pub" || next.isKeyword "extern" then return
    else expected "`fn` after modifier"

/-- Moves to the next arm of a switch. -/
def skipToArm : Parse Unit := do
  skipTrivia
  skipNewlines

/-- What an arm of a switch stands for, up to its body. -/
def pattern : Parse (Option Expr) := do
  if (← current).isKeyword "default" then
    consume
    let _ ← expect .operator "->"
    return none
  else
    let value ← expression .lowest
    let _ ← expect .operator "->"
    return some value

mutual

def statementWithin : Nat → Parse Stmt
  | 0 => exhausted
  | depth + 1 => do
      let token ← current
      match token.kind with
      | .keyword =>
          match Keyword.ofText? token.value with
          | some .function => do
              let header ← functionHeader
              if header.isExternal then
                if (← current).isDelimiter "\x7b" then expected "end of extern declaration"
                else return .function header none
              else return .function header (some (← blockWithin depth))
          | some .pub => do
              addModifier .pub
              statementWithin depth
          | some .external => do
              addModifier .external
              statementWithin depth
          | some .ifThen => do
              let (condition, body, alternate) ← branchWithin depth
              return .branch condition body alternate
          | some .whileLoop => do
              consume
              let condition ← expression .lowest
              return .loop condition (← blockWithin depth)
          | some .returns => returnStatement
          | some .letBinding | some .constant => variableStatement
          | some .switch => do
              consume
              let subject ← expression .lowest
              return .switch subject (← block skipToArm (armWithin depth))
          | some .use => useStatement
          | some .true | some .false | some .null => return .expr (← expression .lowest)
          | some .otherwise | some .default | some .as | none =>
              fail ⟨.unexpectedToken token.value, token.position⟩
      | .comment => do
          consume
          return .comment token.value
      | _ => return .expr (← expression .lowest)

def blockWithin : Nat → Parse (List Stmt)
  | 0 => exhausted
  | depth + 1 => block skipNewlines do
      let statement ← statementWithin depth
      statementEnd
      return statement

/-- A branch, from its keyword on. Line ends may stand before `else`. -/
def branchWithin : Nat → Parse (Expr × List Stmt × Alternate)
  | 0 => exhausted
  | depth + 1 => do
      consume
      let condition ← expression .lowest
      let body ← blockWithin depth
      if (← get).peekPastNewlines.isKeyword "else" then
        skipNewlines
        consume
        if (← current).isKeyword "if" then
          let (condition', body', alternate) ← branchWithin depth
          return (condition, body, .elseBranch condition' body' alternate)
        else return (condition, body, .otherwise (← blockWithin depth))
      else return (condition, body, .none)

def armWithin : Nat → Parse Arm
  | 0 => exhausted
  | depth + 1 => do
      match ← pattern with
      | some value => return .value value (← blockWithin depth)
      | none => return .otherwise (← blockWithin depth)

end

/-- How deep a parser may go from a state: no token is passed more than three times on the
way down. -/
def State.depth (state : State) : Nat := 3 * state.rest.length + 3

def statement : Parse Stmt := do statementWithin (← get).depth

def statements : Parse (List Stmt) := do blockWithin (← get).depth

/-- All statements up to the end of input, to a bounded number. -/
def programWithin : Nat → Parse Program
  | 0 => exhausted
  | depth + 1 => do
      skipNewlines
      if (← get).atEnd then return []
      else
        let first ← statement
        statementEnd
        return first :: (← programWithin depth)

def program : Parse Program := do programWithin ((← get).rest.length + 1)

end SmallLang.Parse
