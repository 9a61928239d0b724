import SmallLang.Tree

/-!
# Outlines

An outline lists the nodes of a program in the order in which a reader meets them: each
node with its depth, its name and its position, before its children.
-/

set_option autoImplicit false

namespace SmallLang

/-- One node of an outline. -/
structure OutlineNode where
  depth : Nat
  name : String
  position : Option Position
  deriving DecidableEq, Repr

mutual

def Expr.outline (depth : Nat) (expression : Expr) : List OutlineNode :=
  ⟨depth, expression.nodeName, expression.position?⟩ ::
    match expression with
    | .member object _ => object.outline (depth + 1)
    | .call callee arguments => callee.outline (depth + 1) ++ Expr.outlines (depth + 1) arguments
    | .binary _ left right => left.outline (depth + 1) ++ right.outline (depth + 1)
    | .prefixed _ operand => operand.outline (depth + 1)
    | .postfixed _ operand => operand.outline (depth + 1)
    | .identifier .. | .number _ | .string _ | .boolean _ | .null => []

def Expr.outlines (depth : Nat) : List Expr → List OutlineNode
  | [] => []
  | expression :: rest => expression.outline depth ++ Expr.outlines depth rest

end

namespace Stmt

def nodeName : Stmt → String
  | .expr e => e.nodeName
  | .comment _ => "comment"
  | .use _ => "import"
  | .parameter _ => "function parameter"
  | .returns _ => "return"
  | .declare _ => "variable declaration"
  | .function .. => "function declaration"
  | .branch .. => "if"
  | .loop .. => "while"
  | .switch .. => "switch"
  | .arm _ => "case"
  | .merged _ => "program"

/-- The position of a statement: its own if it has one, else that of the expression it
begins with. -/
def position? : Stmt → Option Position
  | .expr e => e.position?
  | .use used => some used.position
  | .parameter param => some param.typeName.position
  | .returns value => value.bind Expr.position?
  | .declare decl => some decl.position
  | .function header _ => some header.position
  | .branch condition _ _ => condition.position?
  | .loop condition _ => condition.position?
  | .switch subject _ => subject.position?
  | .comment _ | .arm _ | .merged _ => none

def outlineNode (depth : Nat) (stmt : Stmt) : OutlineNode :=
  ⟨depth, stmt.nodeName, stmt.position?⟩

end Stmt

/-- The outline of an expression that may be missing. -/
def Expr.outlineOption (depth : Nat) : Option Expr → List OutlineNode
  | none => []
  | some e => e.outline depth

mutual

def Stmt.outline (depth : Nat) (stmt : Stmt) : List OutlineNode :=
  match stmt with
  | .expr e => e.outline depth
  | .comment _ | .use _ | .parameter _ => [stmt.outlineNode depth]
  | .returns value => stmt.outlineNode depth :: Expr.outlineOption (depth + 1) value
  | .declare decl => stmt.outlineNode depth :: Expr.outlineOption (depth + 1) decl.value
  | .function _ none => [stmt.outlineNode depth]
  | .function _ (some body) => stmt.outlineNode depth :: Stmt.outlines (depth + 1) body
  | .branch condition body alternate =>
      stmt.outlineNode depth ::
        (condition.outline (depth + 1) ++ Stmt.outlines (depth + 1) body ++
          alternate.outline (depth + 1))
  | .loop condition body =>
      stmt.outlineNode depth ::
        (condition.outline (depth + 1) ++ Stmt.outlines (depth + 1) body)
  | .switch subject arms =>
      stmt.outlineNode depth ::
        (subject.outline (depth + 1) ++ Arm.outlines (depth + 1) arms)
  | .arm single => stmt.outlineNode depth :: single.outline (depth + 1)
  | .merged body => stmt.outlineNode depth :: Stmt.outlines (depth + 1) body

/-- What follows a branch: a node of its own, or nothing. -/
def Alternate.outline (depth : Nat) : Alternate → List OutlineNode
  | .none => []
  | .elseBranch condition body alternate =>
      ⟨depth, "if", condition.position?⟩ ::
        (condition.outline (depth + 1) ++ Stmt.outlines (depth + 1) body ++
          alternate.outline (depth + 1))
  | .otherwise body => ⟨depth, "else", none⟩ :: Stmt.outlines (depth + 1) body

/-- The contents of an arm. An arm of a switch is no node: its contents belong to the
switch. -/
def Arm.outline (depth : Nat) : Arm → List OutlineNode
  | .value pattern body => pattern.outline depth ++ Stmt.outlines depth body
  | .otherwise body => Stmt.outlines depth body

def Stmt.outlines (depth : Nat) : List Stmt → List OutlineNode
  | [] => []
  | stmt :: rest => stmt.outline depth ++ Stmt.outlines depth rest

def Arm.outlines (depth : Nat) : List Arm → List OutlineNode
  | [] => []
  | arm :: rest => arm.outline depth ++ Arm.outlines depth rest

end

/-- The outline of a whole program, which is a node itself. -/
def Program.outline (program : Program) : List OutlineNode :=
  (Stmt.merged program).outline 0

end SmallLang
