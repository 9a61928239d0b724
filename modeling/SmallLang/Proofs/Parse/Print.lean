import SmallLang.Keyword
import SmallLang.Token
import SmallLang.Tree

/-!
# Printing

A program is written as tokens that stand in no source. Each statement ends with a line end, blocks
stand between braces, and parentheses stand around an operand only where it would fall apart without
them. What is printed says nothing about positions.
-/

set_option autoImplicit false

namespace SmallLang

namespace Token

/-- A token that stands in no source. -/
def written (kind : Kind) (value : String) : Token := ⟨kind, value, .emptyAt .null⟩

def lineEnd : Token := written .endOfLine "\n"

def word (name : String) : Token := written .identifier name

def operator (symbol : String) : Token := written .operator symbol

def delimiter (symbol : String) : Token := written .delimiter symbol

def keyword (keyword : Keyword) : Token := written .keyword keyword.text

/-- Items, with commas between them. -/
def separated : List (List Token) → List Token
  | [] => []
  | first :: rest => first ++ rest.flatMap fun item => delimiter "," :: item

/-- What stands between braces, from a line of its own on. -/
def braced (tokens : List Token) : List Token :=
  delimiter "\x7b" :: lineEnd :: (tokens ++ [delimiter "\x7d"])

/-- The tokens of an expression of some rank, in parentheses where a higher one is needed. -/
def grouped (least rank : Nat) (tokens : List Token) : List Token :=
  if rank < least then delimiter "(" :: (tokens ++ [delimiter ")"]) else tokens

end Token

namespace Expr

/-- How tightly the outermost operator of an expression binds. What is neither binary nor a prefix
expression holds together better than all of these. -/
def rank : Expr → Nat
  | .binary operator _ _ => operator.power.rank
  | .prefixed .. => Power.unary.rank
  | _ => Power.unary.rank + 1

mutual

/-- An expression as tokens. Binary operators group from the left, so that only a right operand is
in parentheses if its operator is of the same level. -/
def tokens : Expr → List Token
  | .identifier name _ => [.word name]
  | .number text => [.written .number text]
  | .string value => [.written .string value]
  | .boolean true => [.keyword .true]
  | .boolean false => [.keyword .false]
  | .null => [.keyword .null]
  | .member object property =>
      Token.grouped (Power.unary.rank + 1) object.rank object.tokens ++
        [.operator ".", .word property]
  | .call callee arguments =>
      Token.grouped (Power.unary.rank + 1) callee.rank callee.tokens ++
        .delimiter "(" :: (Token.separated (Expr.allTokens arguments) ++ [.delimiter ")"])
  | .postfixed operator operand =>
      Token.grouped (Power.unary.rank + 1) operand.rank operand.tokens ++
        [.operator operator.symbol]
  | .prefixed operator operand =>
      .operator operator.symbol :: Token.grouped Power.unary.rank operand.rank operand.tokens
  | .binary operator left right =>
      Token.grouped operator.power.rank left.rank left.tokens ++ .operator operator.symbol ::
        Token.grouped (operator.power.rank + 1) right.rank right.tokens

def allTokens : List Expr → List (List Token)
  | [] => []
  | first :: rest => first.tokens :: Expr.allTokens rest

end

end Expr

/-- A type name as a token. The keyword `null` is one too. -/
def TypeName.token (typeName : TypeName) : Token :=
  if typeName.name = Keyword.null.text then .keyword .null else .word typeName.name

def Use.tokens (used : Use) : List Token :=
  .keyword .use ::
    ((Text.parts '/' used.path).map Token.word).intersperse (.operator "/") ++
      match used.rename with
      | some name => [.keyword .as, .word name]
      | none => []

/-- What follows the name of a variable as tokens. -/
def Variable.typeAndValue : Option TypeName → Option Expr → List Token
  | some typeName, some value => .delimiter ":" :: typeName.token :: .operator "=" :: value.tokens
  | some typeName, none => [.delimiter ":", typeName.token]
  | none, some value => .operator ":=" :: value.tokens
  | none, none => []

def Variable.tokens (decl : Variable) : List Token :=
  .keyword (if decl.mutable then .letBinding else .constant) :: .word decl.name ::
    Variable.typeAndValue decl.typeName decl.value

def Parameter.tokens (param : Parameter) : List Token :=
  [.word param.name, .delimiter ":", param.typeName.token]

/-- The keyword of a modifier. -/
def Modifier.keyword : Modifier → Keyword
  | .pub => .pub
  | .external => .external

/-- A return type as tokens, if there is one. -/
def TypeName.returned : Option TypeName → List Token
  | some typeName => [.operator "->", typeName.token]
  | none => []

/-- What follows the keyword of a function as tokens, up to its body. -/
def FunctionHeader.signature (header : FunctionHeader) : List Token :=
  .word header.name :: .delimiter "(" ::
    (Token.separated (header.parameters.map Parameter.tokens) ++
      .delimiter ")" :: TypeName.returned header.returns)

def FunctionHeader.tokens (header : FunctionHeader) : List Token :=
  header.modifiers.map (fun modifier => Token.keyword modifier.keyword) ++
    .keyword .function :: header.signature

mutual

/-- A statement as tokens, up to its end. -/
def Stmt.tokens : Stmt → List Token
  | .expr e => e.tokens
  | .comment text => [.written .comment text]
  | .use used => used.tokens
  | .parameter param => param.tokens
  | .returns none => [.keyword .returns]
  | .returns (some value) => .keyword .returns :: value.tokens
  | .declare decl => decl.tokens
  | .function header none => header.tokens
  | .function header (some body) => header.tokens ++ Token.braced (Stmt.allTokens body)
  | .branch condition body alternate =>
      .keyword .ifThen :: (condition.tokens ++ Token.braced (Stmt.allTokens body) ++
        alternate.tokens)
  | .loop condition body =>
      .keyword .whileLoop :: (condition.tokens ++ Token.braced (Stmt.allTokens body))
  | .switch subject arms =>
      .keyword .switch :: (subject.tokens ++ Token.braced (Arm.allTokens arms))
  | .arm single => single.tokens
  | .merged body => Stmt.allTokens body

def Alternate.tokens : Alternate → List Token
  | .none => []
  | .elseBranch condition body alternate =>
      .keyword .otherwise :: .keyword .ifThen :: (condition.tokens ++
        Token.braced (Stmt.allTokens body) ++ alternate.tokens)
  | .otherwise body => .keyword .otherwise :: Token.braced (Stmt.allTokens body)

def Arm.tokens : Arm → List Token
  | .value pattern body =>
      pattern.tokens ++ .operator "->" :: Token.braced (Stmt.allTokens body)
  | .otherwise body => .keyword .default :: .operator "->" :: Token.braced (Stmt.allTokens body)

/-- Statements as tokens, each with a line end after it. -/
def Stmt.allTokens : List Stmt → List Token
  | [] => []
  | first :: rest => first.tokens ++ .lineEnd :: Stmt.allTokens rest

/-- Arms as tokens, each with a line end after it. -/
def Arm.allTokens : List Arm → List Token
  | [] => []
  | first :: rest => first.tokens ++ .lineEnd :: Arm.allTokens rest

end

/-- A program as tokens, with the end of input after them. -/
def Program.print (program : Program) : List Token :=
  Stmt.allTokens program ++ [.finish (.emptyAt .null)]

/-! ### Positions -/

mutual

/-- An expression that stands in no source. -/
def Expr.detached : Expr → Expr
  | .identifier name _ => .identifier name .null
  | .member object property => .member object.detached property
  | .call callee arguments => .call callee.detached (Expr.allDetached arguments)
  | .binary operator left right => .binary operator left.detached right.detached
  | .prefixed operator operand => .prefixed operator operand.detached
  | .postfixed operator operand => .postfixed operator operand.detached
  | .number text => .number text
  | .string value => .string value
  | .boolean value => .boolean value
  | .null => .null

def Expr.allDetached : List Expr → List Expr
  | [] => []
  | first :: rest => first.detached :: Expr.allDetached rest

end

def TypeName.detached (typeName : TypeName) : TypeName := { typeName with position := .null }

def Use.detached (used : Use) : Use := { used with position := .null }

def Parameter.detached (param : Parameter) : Parameter :=
  { param with typeName := param.typeName.detached }

def Variable.detached (decl : Variable) : Variable :=
  { decl with
    typeName := decl.typeName.map TypeName.detached
    value := decl.value.map Expr.detached
    position := .null }

def FunctionHeader.detached (header : FunctionHeader) : FunctionHeader :=
  { header with
    parameters := header.parameters.map Parameter.detached
    returns := header.returns.map TypeName.detached
    position := .null }

mutual

/-- A statement that stands in no source. -/
def Stmt.detached : Stmt → Stmt
  | .expr e => .expr e.detached
  | .comment text => .comment text
  | .use used => .use used.detached
  | .parameter param => .parameter param.detached
  | .returns value => .returns (value.map Expr.detached)
  | .declare decl => .declare decl.detached
  | .function header none => .function header.detached none
  | .function header (some body) => .function header.detached (some (Stmt.allDetached body))
  | .branch condition body alternate =>
      .branch condition.detached (Stmt.allDetached body) alternate.detached
  | .loop condition body => .loop condition.detached (Stmt.allDetached body)
  | .switch subject arms => .switch subject.detached (Arm.allDetached arms)
  | .arm single => .arm single.detached
  | .merged body => .merged (Stmt.allDetached body)

/-- What follows a branch, in no source. -/
def Alternate.detached : Alternate → Alternate
  | .none => .none
  | .elseBranch condition body alternate =>
      .elseBranch condition.detached (Stmt.allDetached body) alternate.detached
  | .otherwise body => .otherwise (Stmt.allDetached body)

def Arm.detached : Arm → Arm
  | .value pattern body => .value pattern.detached (Stmt.allDetached body)
  | .otherwise body => .otherwise (Stmt.allDetached body)

def Stmt.allDetached : List Stmt → List Stmt
  | [] => []
  | first :: rest => first.detached :: Stmt.allDetached rest

def Arm.allDetached : List Arm → List Arm
  | [] => []
  | first :: rest => first.detached :: Arm.allDetached rest

end

/-- A program that stands in no source. -/
def Program.detached (program : Program) : Program := Stmt.allDetached program

section Lists

theorem Expr.allTokens_eq_map (es : List Expr) : Expr.allTokens es = es.map Expr.tokens := by
  induction es with
  | nil => rfl
  | cons first rest ih => rw [Expr.allTokens, ih, List.map_cons]

theorem Expr.allDetached_eq_map (es : List Expr) : Expr.allDetached es = es.map Expr.detached := by
  induction es with
  | nil => rfl
  | cons first rest ih => rw [Expr.allDetached, ih, List.map_cons]

theorem Stmt.allTokens_eq_flatMap (body : List Stmt) :
    Stmt.allTokens body = body.flatMap fun s => s.tokens ++ [.lineEnd] := by
  induction body with
  | nil => rfl
  | cons first rest ih => rw [Stmt.allTokens, ih, List.flatMap_cons, List.append_assoc]; rfl

theorem Stmt.allDetached_eq_map (body : List Stmt) :
    Stmt.allDetached body = body.map Stmt.detached := by
  induction body with
  | nil => rfl
  | cons first rest ih => rw [Stmt.allDetached, ih, List.map_cons]

theorem Arm.allTokens_eq_flatMap (arms : List Arm) :
    Arm.allTokens arms = arms.flatMap fun arm => arm.tokens ++ [.lineEnd] := by
  induction arms with
  | nil => rfl
  | cons first rest ih => rw [Arm.allTokens, ih, List.flatMap_cons, List.append_assoc]; rfl

theorem Arm.allDetached_eq_map (arms : List Arm) :
    Arm.allDetached arms = arms.map Arm.detached := by
  induction arms with
  | nil => rfl
  | cons first rest ih => rw [Arm.allDetached, ih, List.map_cons]

end Lists

/-! ### The end of input

Nothing that is printed is the end of input, which stands after the whole program only. -/

namespace Token

/-- Whether a token stands before the end of input. -/
def isInner (token : Token) : Bool := token.kind != .endOfInput

@[simp] theorem isInner_lineEnd : lineEnd.isInner = true := rfl

@[simp] theorem isInner_word (name : String) : (word name).isInner = true := rfl

@[simp] theorem isInner_operator (symbol : String) : (operator symbol).isInner = true := rfl

@[simp] theorem isInner_delimiter (symbol : String) : (delimiter symbol).isInner = true := rfl

@[simp] theorem isInner_keyword (word : Keyword) : (keyword word).isInner = true := rfl

variable {tokens : List Token} {chunks : List (List Token)}

theorem all_grouped {least rank : Nat} (inner : tokens.all isInner) :
    (grouped least rank tokens).all isInner := by
  unfold grouped
  split
  · simpa using inner
  · exact inner

theorem all_braced (inner : tokens.all isInner) : (braced tokens).all isInner := by
  simpa [braced] using inner

theorem all_separated (inner : ∀ chunk ∈ chunks, chunk.all isInner) :
    (separated chunks).all isInner := by
  cases chunks with
  | nil => rfl
  | cons first rest =>
      obtain ⟨innerFirst, innerRest⟩ := List.forall_mem_cons.mp inner
      rw [separated, List.all_append, innerFirst, Bool.true_and, List.all_flatMap, List.all_eq_true]
      intro chunk present
      simpa using innerRest chunk present

end Token

mutual

theorem Expr.tokens_inner : ∀ e : Expr, e.tokens.all Token.isInner
  | .identifier .. | .number _ | .string _ | .boolean true | .boolean false | .null => rfl
  | .member object _ => by
      simp [Expr.tokens, Token.all_grouped object.tokens_inner, -List.all_eq_true]
  | .call callee arguments => by
      simp [Expr.tokens, Token.all_grouped callee.tokens_inner,
        Token.all_separated (Expr.allTokens_inner arguments), -List.all_eq_true]
  | .postfixed _ operand => by
      simp [Expr.tokens, Token.all_grouped operand.tokens_inner, -List.all_eq_true]
  | .prefixed _ operand => by
      simp [Expr.tokens, Token.all_grouped operand.tokens_inner, -List.all_eq_true]
  | .binary _ left right => by
      simp [Expr.tokens, Token.all_grouped left.tokens_inner,
        Token.all_grouped right.tokens_inner, -List.all_eq_true]

theorem Expr.allTokens_inner : ∀ es : List Expr,
    ∀ tokens ∈ Expr.allTokens es, tokens.all Token.isInner
  | [] => List.forall_mem_nil _
  | first :: rest => List.forall_mem_cons.mpr ⟨first.tokens_inner, Expr.allTokens_inner rest⟩

end

theorem TypeName.token_inner (typeName : TypeName) : typeName.token.isInner := by
  unfold TypeName.token
  split <;> rfl

theorem Use.tokens_inner (used : Use) : used.tokens.all Token.isInner := by
  have path (words : List String) :
      ((words.map Token.word).intersperse (.operator "/")).all Token.isInner := by
    induction words with
    | nil => rfl
    | cons first rest ih =>
        cases rest with
        | nil => rfl
        | cons second rest =>
            rw [List.map_cons, List.map_cons, List.intersperse_cons_cons, ← List.map_cons,
              List.all_cons, List.all_cons, ih]
            rfl
  cases renamed : used.rename <;> simp [Use.tokens, path, renamed, -List.all_eq_true]

theorem Variable.tokens_inner (decl : Variable) : decl.tokens.all Token.isInner := by
  have typeAndValue (type : Option TypeName) (value : Option Expr) :
      (typeAndValue type value).all Token.isInner := by
    cases type <;> cases value <;>
      simp [Variable.typeAndValue, TypeName.token_inner, Expr.tokens_inner, -List.all_eq_true]
  simp [Variable.tokens, typeAndValue, -List.all_eq_true]

theorem FunctionHeader.tokens_inner (header : FunctionHeader) :
    header.tokens.all Token.isInner := by
  have parameters :
    (Token.separated (header.parameters.map Parameter.tokens)).all Token.isInner := by
    refine Token.all_separated ?_
    intro chunk present
    obtain ⟨param, -, rfl⟩ := List.mem_map.mp present
    simp [Parameter.tokens, TypeName.token_inner]
  have returned : (TypeName.returned header.returns).all Token.isInner := by
    cases header.returns <;> simp [TypeName.returned, TypeName.token_inner]
  simp only [FunctionHeader.tokens, signature, List.all_append, List.all_cons, parameters, returned]
  simp

mutual

theorem Stmt.tokens_inner : ∀ s : Stmt, s.tokens.all Token.isInner
  | .expr e => e.tokens_inner
  | .comment _ | .returns none => rfl
  | .use used => used.tokens_inner
  | .parameter param => by simp [Stmt.tokens, Parameter.tokens, TypeName.token_inner]
  | .returns (some value) => by simp [Stmt.tokens, value.tokens_inner, -List.all_eq_true]
  | .declare decl => decl.tokens_inner
  | .function header none => header.tokens_inner
  | .function header (some body) => by
      simp [Stmt.tokens, header.tokens_inner, Token.all_braced (Stmt.allTokens_inner body),
        -List.all_eq_true]
  | .branch condition body alternate => by
      simp [Stmt.tokens, condition.tokens_inner, Token.all_braced (Stmt.allTokens_inner body),
        alternate.tokens_inner, -List.all_eq_true]
  | .loop condition body => by
      simp [Stmt.tokens, condition.tokens_inner, Token.all_braced (Stmt.allTokens_inner body),
        -List.all_eq_true]
  | .switch subject arms => by
      simp [Stmt.tokens, subject.tokens_inner, Token.all_braced (Arm.allTokens_inner arms),
        -List.all_eq_true]
  | .arm single => single.tokens_inner
  | .merged body => Stmt.allTokens_inner body

theorem Alternate.tokens_inner : ∀ alternate : Alternate, alternate.tokens.all Token.isInner
  | .none => rfl
  | .elseBranch condition body alternate => by
      simp [Alternate.tokens, condition.tokens_inner,
        Token.all_braced (Stmt.allTokens_inner body), alternate.tokens_inner, -List.all_eq_true]
  | .otherwise body => by
      simp [Alternate.tokens, Token.all_braced (Stmt.allTokens_inner body), -List.all_eq_true]

theorem Arm.tokens_inner : ∀ a : Arm, a.tokens.all Token.isInner
  | .value pattern body => by
      simp [Arm.tokens, pattern.tokens_inner, Token.all_braced (Stmt.allTokens_inner body),
        -List.all_eq_true]
  | .otherwise body => by
      simp [Arm.tokens, Token.all_braced (Stmt.allTokens_inner body), -List.all_eq_true]

theorem Stmt.allTokens_inner : ∀ body : List Stmt, (Stmt.allTokens body).all Token.isInner
  | [] => rfl
  | first :: rest => by
      simp [Stmt.allTokens, first.tokens_inner, Stmt.allTokens_inner rest, -List.all_eq_true]

theorem Arm.allTokens_inner : ∀ arms : List Arm, (Arm.allTokens arms).all Token.isInner
  | [] => rfl
  | first :: rest => by
      simp [Arm.allTokens, first.tokens_inner, Arm.allTokens_inner rest, -List.all_eq_true]

end

end SmallLang
