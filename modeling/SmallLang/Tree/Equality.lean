import SmallLang.Tree

/-!
# Equality of trees

Whether two expressions or two programs are the same is decidable: the tests below walk
both trees together, and each holds exactly when the trees are equal.
-/

set_option autoImplicit false

namespace SmallLang

mutual

/-- Whether two expressions are equal. -/
def Expr.same : Expr → Expr → Bool
  | .identifier name position, .identifier name' position' =>
      name == name' && position == position'
  | .member object property, .member object' property' =>
      object.same object' && property == property'
  | .call callee arguments, .call callee' arguments' =>
      callee.same callee' && Expr.sameList arguments arguments'
  | .binary operator left right, .binary operator' left' right' =>
      operator == operator' && left.same left' && right.same right'
  | .prefixed operator operand, .prefixed operator' operand' =>
      operator == operator' && operand.same operand'
  | .postfixed operator operand, .postfixed operator' operand' =>
      operator == operator' && operand.same operand'
  | .number text, .number text' => text == text'
  | .string value, .string value' => value == value'
  | .boolean value, .boolean value' => value == value'
  | .null, .null => true
  | _, _ => false

def Expr.sameList : List Expr → List Expr → Bool
  | [], [] => true
  | first :: rest, first' :: rest' => first.same first' && Expr.sameList rest rest'
  | _, _ => false

end

mutual

theorem Expr.same_iff : ∀ {first second : Expr}, first.same second = true ↔ first = second
  | .identifier .., second => by cases second <;> simp [Expr.same]
  | .member .., second => by cases second <;> simp [Expr.same, Expr.same_iff]
  | .call .., second => by cases second <;> simp [Expr.same, Expr.same_iff, Expr.sameList_iff]
  | .binary .., second => by
      cases second <;> simp [Expr.same, Expr.same_iff, and_assoc]
  | .prefixed .., second => by cases second <;> simp [Expr.same, Expr.same_iff]
  | .postfixed .., second => by cases second <;> simp [Expr.same, Expr.same_iff]
  | .number _, second => by cases second <;> simp [Expr.same]
  | .string _, second => by cases second <;> simp [Expr.same]
  | .boolean _, second => by cases second <;> simp [Expr.same]
  | .null, second => by cases second <;> simp [Expr.same]

theorem Expr.sameList_iff :
    ∀ {first second : List Expr}, Expr.sameList first second = true ↔ first = second
  | [], second => by cases second <;> simp [Expr.sameList]
  | _ :: _, second => by
      cases second <;> simp [Expr.sameList, Expr.same_iff, Expr.sameList_iff]

end

instance : DecidableEq Expr := fun _ _ => decidable_of_iff _ Expr.same_iff

deriving instance DecidableEq for Variable

mutual

def Stmt.same : Stmt → Stmt → Bool
  | .expr expression, .expr expression' => expression == expression'
  | .comment text, .comment text' => text == text'
  | .use used, .use used' => used == used'
  | .parameter param, .parameter param' => param == param'
  | .returns value, .returns value' => value == value'
  | .declare decl, .declare decl' => decl == decl'
  | .function header none, .function header' none => header == header'
  | .function header (some body), .function header' (some body') =>
      header == header' && Stmt.sameList body body'
  | .branch condition body alternate, .branch condition' body' alternate' =>
      condition == condition' && Stmt.sameList body body' && alternate.same alternate'
  | .loop condition body, .loop condition' body' =>
      condition == condition' && Stmt.sameList body body'
  | .switch subject arms, .switch subject' arms' =>
      subject == subject' && Arm.sameList arms arms'
  | .arm single, .arm single' => single.same single'
  | .merged body, .merged body' => Stmt.sameList body body'
  | _, _ => false

def Alternate.same : Alternate → Alternate → Bool
  | .none, .none => true
  | .elseBranch condition body alternate, .elseBranch condition' body' alternate' =>
      condition == condition' && Stmt.sameList body body' && alternate.same alternate'
  | .otherwise body, .otherwise body' => Stmt.sameList body body'
  | _, _ => false

def Arm.same : Arm → Arm → Bool
  | .value pattern body, .value pattern' body' =>
      pattern == pattern' && Stmt.sameList body body'
  | .otherwise body, .otherwise body' => Stmt.sameList body body'
  | _, _ => false

def Stmt.sameList : List Stmt → List Stmt → Bool
  | [], [] => true
  | first :: rest, first' :: rest' => first.same first' && Stmt.sameList rest rest'
  | _, _ => false

def Arm.sameList : List Arm → List Arm → Bool
  | [], [] => true
  | first :: rest, first' :: rest' => first.same first' && Arm.sameList rest rest'
  | _, _ => false

end

mutual

theorem Stmt.same_iff : ∀ (first second : Stmt), first.same second = true ↔ first = second
  | .expr _, second => by cases second <;> simp [Stmt.same]
  | .comment _, second => by cases second <;> simp [Stmt.same]
  | .use _, second => by cases second <;> simp [Stmt.same]
  | .parameter _, second => by cases second <;> simp [Stmt.same]
  | .returns _, second => by cases second <;> simp [Stmt.same]
  | .declare _, second => by cases second <;> simp [Stmt.same]
  | .function _ none, second => by
      cases second with
      | function _ body => cases body <;> simp [Stmt.same]
      | _ => simp [Stmt.same]
  | .function _ (some _), second => by
      cases second with
      | function _ body => cases body <;> simp [Stmt.same, Stmt.sameList_iff]
      | _ => simp [Stmt.same]
  | .branch .., second => by
      cases second <;> simp [Stmt.same, Stmt.sameList_iff, Alternate.same_iff, and_assoc]
  | .loop .., second => by cases second <;> simp [Stmt.same, Stmt.sameList_iff]
  | .switch .., second => by cases second <;> simp [Stmt.same, Arm.sameList_iff]
  | .arm _, second => by cases second <;> simp [Stmt.same, Arm.same_iff]
  | .merged _, second => by cases second <;> simp [Stmt.same, Stmt.sameList_iff]
termination_by structural first => first

theorem Alternate.same_iff :
    ∀ (first second : Alternate), first.same second = true ↔ first = second
  | .none, second => by cases second <;> simp [Alternate.same]
  | .elseBranch .., second => by
      cases second <;> simp [Alternate.same, Stmt.sameList_iff, Alternate.same_iff, and_assoc]
  | .otherwise _, second => by cases second <;> simp [Alternate.same, Stmt.sameList_iff]
termination_by structural first => first

theorem Arm.same_iff : ∀ (first second : Arm), first.same second = true ↔ first = second
  | .value .., second => by cases second <;> simp [Arm.same, Stmt.sameList_iff]
  | .otherwise _, second => by cases second <;> simp [Arm.same, Stmt.sameList_iff]
termination_by structural first => first

theorem Stmt.sameList_iff :
    ∀ (first second : List Stmt), Stmt.sameList first second = true ↔ first = second
  | [], second => by cases second <;> simp [Stmt.sameList]
  | _ :: _, second => by
      cases second <;> simp [Stmt.sameList, Stmt.same_iff, Stmt.sameList_iff]
termination_by structural first => first

theorem Arm.sameList_iff :
    ∀ (first second : List Arm), Arm.sameList first second = true ↔ first = second
  | [], second => by cases second <;> simp [Arm.sameList]
  | _ :: _, second => by
      cases second <;> simp [Arm.sameList, Arm.same_iff, Arm.sameList_iff]
termination_by structural first => first

end

instance : DecidableEq Stmt := fun _ _ => decidable_of_iff _ (Stmt.same_iff _ _)

end SmallLang
