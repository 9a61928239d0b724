import SmallLang.Tree

/-!
# Access to modules

In a program that uses modules, a member of a module's name is a name of the module. It
becomes an identifier, under the namespace that the module was merged with.
-/

set_option autoImplicit false

namespace SmallLang

/-- For each name that a program gives a module, the namespace of the module. The latest
entry for a name counts, and stands first. -/
abbrev Aliases := List (String × String)

mutual

/-- The expression with each access to a module replaced. -/
def Expr.access (aliases : Aliases) : Expr → Expr
  | .member (.identifier name position) property =>
      match aliases.lookup name with
      | some space => .identifier (Expr.qualifiedName space property) position
      | none => .member (.identifier name position) property
  | .member object property => .member (object.access aliases) property
  | .call callee arguments => .call (callee.access aliases) (Expr.accessAll aliases arguments)
  | .binary operator left right =>
      .binary operator (left.access aliases) (right.access aliases)
  | .prefixed operator operand => .prefixed operator (operand.access aliases)
  | .postfixed operator operand => .postfixed operator (operand.access aliases)
  | expression => expression

def Expr.accessAll (aliases : Aliases) : List Expr → List Expr
  | [] => []
  | first :: rest => first.access aliases :: Expr.accessAll aliases rest

end

mutual

/-- The statement with each access to a module replaced. Modules that are merged already
have their own. -/
def Stmt.access (aliases : Aliases) : Stmt → Stmt
  | .expr e => .expr (e.access aliases)
  | .returns value => .returns (value.map (·.access aliases))
  | .declare decl => .declare { decl with value := decl.value.map (·.access aliases) }
  | .function header (some body) => .function header (some (Stmt.accessAll aliases body))
  | .branch condition body alternate =>
      .branch (condition.access aliases) (Stmt.accessAll aliases body) (alternate.access aliases)
  | .loop condition body => .loop (condition.access aliases) (Stmt.accessAll aliases body)
  | .switch subject arms => .switch (subject.access aliases) (Arm.accessAll aliases arms)
  | .arm single => .arm (single.access aliases)
  | stmt => stmt

def Alternate.access (aliases : Aliases) : Alternate → Alternate
  | .none => .none
  | .elseBranch condition body alternate =>
      .elseBranch (condition.access aliases) (Stmt.accessAll aliases body)
        (alternate.access aliases)
  | .otherwise body => .otherwise (Stmt.accessAll aliases body)

def Arm.access (aliases : Aliases) : Arm → Arm
  | .value pattern body => .value (pattern.access aliases) (Stmt.accessAll aliases body)
  | .otherwise body => .otherwise (Stmt.accessAll aliases body)

def Stmt.accessAll (aliases : Aliases) : List Stmt → List Stmt
  | [] => []
  | first :: rest => first.access aliases :: Stmt.accessAll aliases rest

def Arm.accessAll (aliases : Aliases) : List Arm → List Arm
  | [] => []
  | first :: rest => first.access aliases :: Arm.accessAll aliases rest

end

end SmallLang
