import SmallLang.Module.Qualifier
import SmallLang.Proofs.Tree.Alike

/-!
# The declarations in a tree

Every variable and every function that is declared somewhere in a program, at whatever depth.
-/

set_option autoImplicit false

namespace SmallLang

mutual

/-- The declarations in a statement, each before those inside it. -/
def Stmt.declarations : Stmt → List Stmt
  | .declare decl => [.declare decl]
  | .function header none => [.function header none]
  | .function header (some body) => .function header (some body) :: Stmt.allDeclarations body
  | .branch _ body alternate => Stmt.allDeclarations body ++ alternate.declarations
  | .loop _ body => Stmt.allDeclarations body
  | .switch _ arms => Arm.allDeclarations arms
  | .arm single => single.declarations
  | .merged body => Stmt.allDeclarations body
  | .expr _ | .comment _ | .use _ | .parameter _ | .returns _ => []

def Alternate.declarations : Alternate → List Stmt
  | .none => []
  | .elseBranch _ body alternate => Stmt.allDeclarations body ++ alternate.declarations
  | .otherwise body => Stmt.allDeclarations body

def Arm.declarations : Arm → List Stmt
  | .value _ body => Stmt.allDeclarations body
  | .otherwise body => Stmt.allDeclarations body

/-- The declarations in statements, one after the other. -/
def Stmt.allDeclarations : List Stmt → List Stmt
  | [] => []
  | first :: rest => first.declarations ++ Stmt.allDeclarations rest

/-- The declarations in arms, one after the other. -/
def Arm.allDeclarations : List Arm → List Stmt
  | [] => []
  | first :: rest => first.declarations ++ Arm.allDeclarations rest

end

theorem Stmt.allBare_eq_map (body : List Stmt) : Stmt.allBare body = body.map Stmt.bare := by
  induction body with
  | nil => rfl
  | cons first rest ih => rw [Stmt.allBare, List.map_cons, ih]

theorem Stmt.declared?_bare (s : Stmt) : s.bare.declared? = s.declared? := by
  cases s with
  | function header body => cases body <;> rfl
  | _ => rfl

/-- Notes do not change what is declared. -/
theorem Stmt.Alike.declared?_eq {related : Option Term → Option Term → Prop} {s s' : Stmt}
    (alike : s.Alike related s') : s'.declared? = s.declared? := by
  rw [← s.declared?_bare, ← s'.declared?_bare, alike.bare_eq]

end SmallLang
