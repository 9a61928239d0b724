import SmallLang.Proofs.Tree.Alike

/-!
# Positions in trees

Whether everything in a tree that has a position stands at a place of some kind. Notes have no
positions.
-/

set_option autoImplicit false

namespace SmallLang

variable (place : Position → Prop)

mutual

/-- Every name in an expression stands at a place. -/
def Expr.Placed : Expr → Prop
  | .identifier _ position => place position
  | .member object _ => object.Placed
  | .call callee arguments => callee.Placed ∧ Expr.AllPlaced arguments
  | .binary _ left right => left.Placed ∧ right.Placed
  | .prefixed _ operand => operand.Placed
  | .postfixed _ operand => operand.Placed
  | .number _ | .string _ | .boolean _ | .null => True

def Expr.AllPlaced : List Expr → Prop
  | [] => True
  | first :: rest => first.Placed ∧ Expr.AllPlaced rest

end

/-- A parameter is named where its type stands. -/
def Parameter.Placed (param : Parameter) : Prop := place param.typeName.position

/-- A function and the types in its header stand at places. -/
structure FunctionHeader.Placed (header : FunctionHeader) : Prop where
  position : place header.position
  parameters : ∀ param ∈ header.parameters, param.Placed place
  returns : ∀ typeName ∈ header.returns, place typeName.position

/-- A variable, its type and what is in its value stand at places. -/
structure Variable.Placed (decl : Variable) : Prop where
  position : place decl.position
  typeName : ∀ typeName ∈ decl.typeName, place typeName.position
  value : ∀ value ∈ decl.value, value.Placed place

mutual

/-- Everything in a statement stands at places. -/
def Stmt.Placed : Stmt → Prop
  | .expr e => e.Placed place
  | .comment _ => True
  | .use used => place used.position
  | .parameter param => param.Placed place
  | .returns value => ∀ e ∈ value, e.Placed place
  | .declare decl => decl.Placed place
  | .function header none => header.Placed place
  | .function header (some body) => header.Placed place ∧ Stmt.AllPlaced body
  | .branch condition body alternate =>
      condition.Placed place ∧ Stmt.AllPlaced body ∧ alternate.Placed
  | .loop condition body => condition.Placed place ∧ Stmt.AllPlaced body
  | .switch subject arms => subject.Placed place ∧ Arm.AllPlaced arms
  | .arm single => single.Placed
  | .merged body => Stmt.AllPlaced body

def Alternate.Placed : Alternate → Prop
  | .none => True
  | .elseBranch condition body alternate =>
      condition.Placed place ∧ Stmt.AllPlaced body ∧ alternate.Placed
  | .otherwise body => Stmt.AllPlaced body

def Arm.Placed : Arm → Prop
  | .value pattern body => pattern.Placed place ∧ Stmt.AllPlaced body
  | .otherwise body => Stmt.AllPlaced body

def Stmt.AllPlaced : List Stmt → Prop
  | [] => True
  | first :: rest => first.Placed ∧ Stmt.AllPlaced rest

def Arm.AllPlaced : List Arm → Prop
  | [] => True
  | first :: rest => first.Placed ∧ Arm.AllPlaced rest

end

variable {place}

theorem Expr.allPlaced_iff {expressions : List Expr} :
    Expr.AllPlaced place expressions ↔ ∀ e ∈ expressions, e.Placed place := by
  induction expressions with
  | nil => simp [Expr.AllPlaced]
  | cons first rest ih => simp [Expr.AllPlaced, ih]

theorem Stmt.allPlaced_iff {body : List Stmt} :
    Stmt.AllPlaced place body ↔ ∀ s ∈ body, s.Placed place := by
  induction body with
  | nil => simp [Stmt.AllPlaced]
  | cons first rest ih => simp [Stmt.AllPlaced, ih]

theorem Arm.allPlaced_iff {arms : List Arm} :
    Arm.AllPlaced place arms ↔ ∀ arm ∈ arms, arm.Placed place := by
  induction arms with
  | nil => simp [Arm.AllPlaced]
  | cons first rest ih => simp [Arm.AllPlaced, ih]

mutual

/-- The position of an expression is that of a name in it. -/
theorem Expr.Placed.position : ∀ {e : Expr}, e.Placed place → ∀ position ∈ e.position?,
    place position
  | .identifier _ _, placed, position, found => by
      cases found
      exact placed
  | .member object _, placed, position, found => Expr.Placed.position (e := object) placed _ found
  | .call _ _, placed, position, found => by
      rcases Option.or_eq_some_iff.mp found with found | ⟨_, found⟩
      · exact placed.1.position position found
      · exact Expr.AllPlaced.position placed.2 position found
  | .binary _ _ _, placed, position, found => by
      rcases Option.or_eq_some_iff.mp found with found | ⟨_, found⟩
      · exact placed.1.position position found
      · exact placed.2.position position found
  | .prefixed _ operand, placed, position, found =>
      Expr.Placed.position (e := operand) placed _ found
  | .postfixed _ operand, placed, position, found =>
      Expr.Placed.position (e := operand) placed _ found

theorem Expr.AllPlaced.position : ∀ {expressions : List Expr},
    Expr.AllPlaced place expressions → ∀ position ∈ Expr.firstPosition? expressions,
      place position
  | first :: rest, placed, position, found => by
      rcases Option.or_eq_some_iff.mp found with found | ⟨_, found⟩
      · exact placed.1.position position found
      · exact Expr.AllPlaced.position placed.2 position found

end

/-! ### No place in particular -/

mutual

/-- Every expression stands somewhere. -/
theorem Expr.somewhere : ∀ e : Expr, e.Placed fun _ => True
  | .identifier .. | .number _ | .string _ | .boolean _ | .null => trivial
  | .member object _ => Expr.somewhere object
  | .call callee arguments => ⟨Expr.somewhere callee, Expr.allSomewhere arguments⟩
  | .binary _ left right => ⟨Expr.somewhere left, Expr.somewhere right⟩
  | .prefixed _ operand => Expr.somewhere operand
  | .postfixed _ operand => Expr.somewhere operand

theorem Expr.allSomewhere : ∀ expressions : List Expr, Expr.AllPlaced (fun _ => True) expressions
  | [] => trivial
  | first :: rest => ⟨Expr.somewhere first, Expr.allSomewhere rest⟩

end

theorem Parameter.somewhere (param : Parameter) : param.Placed fun _ => True := trivial

theorem FunctionHeader.somewhere (header : FunctionHeader) : header.Placed fun _ => True :=
  ⟨trivial, fun param _ => param.somewhere, fun _ _ => trivial⟩

theorem Variable.somewhere (decl : Variable) : decl.Placed fun _ => True :=
  ⟨trivial, fun _ _ => trivial, fun value _ => value.somewhere⟩

mutual

theorem Stmt.somewhere : ∀ s : Stmt, s.Placed fun _ => True
  | .expr e => e.somewhere
  | .comment _ | .use _ => trivial
  | .parameter param => param.somewhere
  | .returns _ => fun e _ => e.somewhere
  | .declare decl => decl.somewhere
  | .function header none => header.somewhere
  | .function header (some body) => ⟨header.somewhere, Stmt.allSomewhere body⟩
  | .branch condition body alternate =>
      ⟨condition.somewhere, Stmt.allSomewhere body, Alternate.somewhere alternate⟩
  | .loop condition body => ⟨condition.somewhere, Stmt.allSomewhere body⟩
  | .switch subject arms => ⟨subject.somewhere, Arm.allSomewhere arms⟩
  | .arm single => Arm.somewhere single
  | .merged body => Stmt.allSomewhere body

theorem Alternate.somewhere : ∀ alternate : Alternate, alternate.Placed fun _ => True
  | .none => trivial
  | .elseBranch condition body alternate =>
      ⟨condition.somewhere, Stmt.allSomewhere body, Alternate.somewhere alternate⟩
  | .otherwise body => Stmt.allSomewhere body

theorem Arm.somewhere : ∀ arm : Arm, arm.Placed fun _ => True
  | .value pattern body => ⟨pattern.somewhere, Stmt.allSomewhere body⟩
  | .otherwise body => Stmt.allSomewhere body

theorem Stmt.allSomewhere : ∀ body : List Stmt, Stmt.AllPlaced (fun _ => True) body
  | [] => trivial
  | first :: rest => ⟨Stmt.somewhere first, Stmt.allSomewhere rest⟩

theorem Arm.allSomewhere : ∀ arms : List Arm, Arm.AllPlaced (fun _ => True) arms
  | [] => trivial
  | first :: rest => ⟨Arm.somewhere first, Arm.allSomewhere rest⟩

end

section Notes

variable {related : Option Term → Option Term → Prop}

mutual

theorem Stmt.Alike.placed : ∀ {s s' : Stmt}, s.Alike related s' → s.Placed place → s'.Placed place
  | _, _, .expr _, placed | _, _, .comment _, placed | _, _, .use _, placed
  | _, _, .parameter _, placed | _, _, .returns _, placed => placed
  | _, _, .declare _, placed => ⟨placed.position, placed.typeName, placed.value⟩
  | _, _, .prototype _, placed => ⟨placed.position, placed.parameters, placed.returns⟩
  | _, _, .function _ body, placed =>
      ⟨⟨placed.1.position, placed.1.parameters, placed.1.returns⟩, body.placed placed.2⟩
  | _, _, .branch body alternate, placed =>
      ⟨placed.1, body.placed placed.2.1, alternate.placed placed.2.2⟩
  | _, _, .loop body, placed => ⟨placed.1, body.placed placed.2⟩
  | _, _, .switch arms, placed => ⟨placed.1, arms.placed placed.2⟩
  | _, _, .arm single, placed => single.placed placed
  | _, _, .merged body, placed => body.placed placed

theorem Alternate.Alike.placed : ∀ {alternate alternate' : Alternate},
    alternate.Alike related alternate' → alternate.Placed place → alternate'.Placed place
  | _, _, .none, placed => placed
  | _, _, .elseBranch body alternate, placed =>
      ⟨placed.1, body.placed placed.2.1, alternate.placed placed.2.2⟩
  | _, _, .otherwise body, placed => body.placed placed

theorem Arm.Alike.placed : ∀ {arm arm' : Arm}, arm.Alike related arm' → arm.Placed place →
    arm'.Placed place
  | _, _, .value body, placed => ⟨placed.1, body.placed placed.2⟩
  | _, _, .otherwise body, placed => body.placed placed

/-- Notes may change without anything being moved. -/
theorem Stmt.AllAlike.placed : ∀ {body body' : List Stmt}, Stmt.AllAlike related body body' →
    Stmt.AllPlaced place body → Stmt.AllPlaced place body'
  | _, _, .nil, placed => placed
  | _, _, .cons first rest, placed => ⟨first.placed placed.1, rest.placed placed.2⟩

theorem Arm.AllAlike.placed : ∀ {arms arms' : List Arm}, Arm.AllAlike related arms arms' →
    Arm.AllPlaced place arms → Arm.AllPlaced place arms'
  | _, _, .nil, placed => placed
  | _, _, .cons first rest, placed => ⟨first.placed placed.1, rest.placed placed.2⟩

end

end Notes

end SmallLang
