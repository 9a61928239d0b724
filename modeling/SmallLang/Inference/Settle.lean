import SmallLang.Inference.Engine

/-!
# Settling declarations

After the sweep, the term in each declaration gives way to the type that is known of it.
-/

set_option autoImplicit false

namespace SmallLang

/-- What a table knows of a term that some declaration has. It has to be a type. -/
def Table.settle (table : Table) (term : Term) (name : String) (position : Position) :
    Except Error Term :=
  match table.resolve term with
  | .concrete type => .ok (.concrete type)
  | .pending _ => .error ⟨.unresolvedType name, position⟩

def Table.settle? (table : Table) (term : Option Term) (name : String) (position : Position) :
    Except Error (Option Term) :=
  match term with
  | none => return none
  | some term => return some (← table.settle term name position)

mutual

def Stmt.settle (table : Table) : Stmt → Except Error Stmt
  | .declare decl => do
      let resolved ← table.settle? decl.resolved decl.name decl.position
      return .declare { decl with resolved }
  | .function header none => do
      let resolved ← table.settle? header.resolved header.name header.position
      return .function { header with resolved } none
  | .function header (some body) => do
      let resolved ← table.settle? header.resolved header.name header.position
      return .function { header with resolved } (some (← Stmt.settleAll table body))
  | .branch condition body alternate => do
      let body ← Stmt.settleAll table body
      return .branch condition body (← alternate.settle table)
  | .loop condition body => return .loop condition (← Stmt.settleAll table body)
  | .switch subject arms => return .switch subject (← Arm.settleAll table arms)
  | .arm single => return .arm (← single.settle table)
  | .merged body => return .merged (← Stmt.settleAll table body)
  | stmt => return stmt

def Alternate.settle (table : Table) : Alternate → Except Error Alternate
  | .none => return .none
  | .elseBranch condition body alternate => do
      let body ← Stmt.settleAll table body
      return .elseBranch condition body (← alternate.settle table)
  | .otherwise body => return .otherwise (← Stmt.settleAll table body)

def Arm.settle (table : Table) : Arm → Except Error Arm
  | .value pattern body => return .value pattern (← Stmt.settleAll table body)
  | .otherwise body => return .otherwise (← Stmt.settleAll table body)

/-- Settles statements, up to the first that cannot be settled. -/
def Stmt.settleAll (table : Table) : List Stmt → Except Error (List Stmt)
  | [] => return []
  | first :: rest => do
      let first ← first.settle table
      return first :: (← Stmt.settleAll table rest)

def Arm.settleAll (table : Table) : List Arm → Except Error (List Arm)
  | [] => return []
  | first :: rest => do
      let first ← first.settle table
      return first :: (← Arm.settleAll table rest)

end

end SmallLang
