import SmallLang.Tree

/-!
# Programs without comments

Comments are taken out of a program at every depth.
-/

set_option autoImplicit false

namespace SmallLang

/-- Whether a statement is a comment. -/
def Stmt.isComment : Stmt → Bool
  | .comment _ => true
  | _ => false

mutual

/-- A statement with no comments in it. -/
def Stmt.uncommented : Stmt → Stmt
  | .function header (some body) => .function header (some (Stmt.allUncommented body))
  | .branch condition body alternate =>
      .branch condition (Stmt.allUncommented body) alternate.uncommented
  | .loop condition body => .loop condition (Stmt.allUncommented body)
  | .switch subject arms => .switch subject (Arm.allUncommented arms)
  | .arm single => .arm single.uncommented
  | .merged body => .merged (Stmt.allUncommented body)
  | stmt => stmt

def Alternate.uncommented : Alternate → Alternate
  | .none => .none
  | .elseBranch condition body alternate =>
      .elseBranch condition (Stmt.allUncommented body) alternate.uncommented
  | .otherwise body => .otherwise (Stmt.allUncommented body)

def Arm.uncommented : Arm → Arm
  | .value pattern body => .value pattern (Stmt.allUncommented body)
  | .otherwise body => .otherwise (Stmt.allUncommented body)

/-- Statements side by side, with no comments among them or in them. -/
def Stmt.allUncommented : List Stmt → List Stmt
  | [] => []
  | first :: rest =>
      if first.isComment then Stmt.allUncommented rest
      else first.uncommented :: Stmt.allUncommented rest

/-- The arms of a switch, with no comments in them. -/
def Arm.allUncommented : List Arm → List Arm
  | [] => []
  | first :: rest => first.uncommented :: Arm.allUncommented rest

end

/-- A program with no comments in it. -/
def Program.uncommented (program : Program) : Program := Stmt.allUncommented program

theorem Arm.allUncommented_eq_map (arms : List Arm) :
    Arm.allUncommented arms = arms.map Arm.uncommented := by
  induction arms with
  | nil => rfl
  | cons first rest ih => simp [Arm.allUncommented, ih]

end SmallLang
