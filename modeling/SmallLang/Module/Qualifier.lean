import SmallLang.Tree

/-!
# Qualified names

When a module is merged, the names that it declares at the top are put under its namespace,
and so is each use of such a name, unless a parameter or a declaration further in hides it.
-/

set_option autoImplicit false

namespace SmallLang

/-- A namespace, and the names of a module that it takes. -/
structure Qualifier where
  space : String
  exported : List String
  deriving DecidableEq, Repr

def Stmt.declared? : Stmt → Option String
  | .declare decl => some decl.name
  | .function header _ => some header.name
  | _ => none

namespace Qualifier

def ofModule (space : String) (module : Program) : Qualifier :=
  ⟨space, module.filterMap Stmt.declared?⟩

/-- The name that a declaration at the top of the module gets. -/
def declaration (qualifier : Qualifier) (name : String) : String :=
  Expr.qualifiedName qualifier.space name

/-- The name that a use gets where some names are hidden. -/
def use (qualifier : Qualifier) (hidden : List String) (name : String) : String :=
  if qualifier.exported.contains name && !hidden.contains name then qualifier.declaration name
  else name

end Qualifier

mutual

def Expr.qualify (qualifier : Qualifier) (hidden : List String) : Expr → Expr
  | .identifier name position => .identifier (qualifier.use hidden name) position
  | .member object property => .member (object.qualify qualifier hidden) property
  | .call callee arguments =>
      .call (callee.qualify qualifier hidden) (Expr.qualifyAll qualifier hidden arguments)
  | .binary operator left right =>
      .binary operator (left.qualify qualifier hidden) (right.qualify qualifier hidden)
  | .prefixed operator operand => .prefixed operator (operand.qualify qualifier hidden)
  | .postfixed operator operand => .postfixed operator (operand.qualify qualifier hidden)
  | expression => expression

def Expr.qualifyAll (qualifier : Qualifier) (hidden : List String) : List Expr → List Expr
  | [] => []
  | first :: rest => first.qualify qualifier hidden :: Expr.qualifyAll qualifier hidden rest

end

mutual

/-- The statement with qualified names. A function hides its own name in its body. Modules
that are merged already have their own namespaces. -/
def Stmt.qualify (qualifier : Qualifier) (hidden : List String) : Stmt → Stmt
  | .expr e => .expr (e.qualify qualifier hidden)
  | .returns value => .returns (value.map (·.qualify qualifier hidden))
  | .declare decl =>
      .declare { decl with value := decl.value.map (·.qualify qualifier hidden) }
  | .function header (some body) =>
      let hidden := header.parameters.map (·.name) ++ header.name :: hidden
      .function header (some (Stmt.qualifyAll qualifier hidden body))
  | .branch condition body alternate =>
      .branch (condition.qualify qualifier hidden) (Stmt.qualifyAll qualifier hidden body)
        (alternate.qualify qualifier hidden)
  | .loop condition body =>
      .loop (condition.qualify qualifier hidden) (Stmt.qualifyAll qualifier hidden body)
  | .switch subject arms =>
      .switch (subject.qualify qualifier hidden) (Arm.qualifyAll qualifier hidden arms)
  | .arm single => .arm (single.qualify qualifier hidden)
  | stmt => stmt

def Alternate.qualify (qualifier : Qualifier) (hidden : List String) : Alternate → Alternate
  | .none => .none
  | .elseBranch condition body alternate =>
      .elseBranch (condition.qualify qualifier hidden) (Stmt.qualifyAll qualifier hidden body)
        (alternate.qualify qualifier hidden)
  | .otherwise body => .otherwise (Stmt.qualifyAll qualifier hidden body)

def Arm.qualify (qualifier : Qualifier) (hidden : List String) : Arm → Arm
  | .value pattern body =>
      .value (pattern.qualify qualifier hidden) (Stmt.qualifyAll qualifier hidden body)
  | .otherwise body => .otherwise (Stmt.qualifyAll qualifier hidden body)

/-- The statements of a block with their names qualified. Each hides the name that it declares from
those after it. -/
def Stmt.qualifyAll (qualifier : Qualifier) (hidden : List String) : List Stmt → List Stmt
  | [] => []
  | first :: rest =>
      first.qualify qualifier hidden ::
        Stmt.qualifyAll qualifier (first.declared?.toList ++ hidden) rest

def Arm.qualifyAll (qualifier : Qualifier) (hidden : List String) : List Arm → List Arm
  | [] => []
  | first :: rest => first.qualify qualifier hidden :: Arm.qualifyAll qualifier hidden rest

end

/-- A statement at the top of a module. What it declares is qualified and hides nothing. -/
def Stmt.qualifyTop (qualifier : Qualifier) : Stmt → Stmt
  | .declare decl =>
      .declare { decl with
        name := qualifier.declaration decl.name
        value := decl.value.map (·.qualify qualifier []) }
  | .function header body =>
      let parameters := header.parameters.map (·.name)
      .function { header with name := qualifier.declaration header.name }
        (body.map (Stmt.qualifyAll qualifier parameters))
  | stmt => stmt.qualify qualifier []

def Program.qualified (module : Program) (space : String) : Program :=
  module.map (Stmt.qualifyTop (.ofModule space module))

end SmallLang
