import SmallLang.Proofs.Parse.Built

/-!
# Programs that can be spelled

What the parser builds can be written down again: its numbers are numbers, a constant has a value,
no modifier stands before a function twice, and a function has a body unless it is defined
elsewhere.
-/

set_option autoImplicit false

namespace SmallLang

mutual

/-- An expression as tokens spell it: each number in it is one. -/
def Expr.Spelled : Expr → Prop
  | .number text => Number.isValid text = true
  | .member object _ => object.Spelled
  | .call callee arguments => callee.Spelled ∧ Expr.AllSpelled arguments
  | .binary _ left right => left.Spelled ∧ right.Spelled
  | .prefixed _ operand => operand.Spelled
  | .postfixed _ operand => operand.Spelled
  | .identifier .. | .string _ | .boolean _ | .null => True

def Expr.AllSpelled : List Expr → Prop
  | [] => True
  | first :: rest => first.Spelled ∧ Expr.AllSpelled rest

end

/-- A variable as tokens spell it. -/
structure Variable.Spelled (decl : Variable) : Prop where
  value : ∀ value ∈ decl.value, value.Spelled
  constant : decl.mutable = false → decl.value.isSome
  unresolved : decl.resolved = none

/-- A function header as tokens spell it. -/
structure FunctionHeader.Spelled (header : FunctionHeader) : Prop where
  modifiers : header.modifiers.Nodup
  unresolved : header.resolved = none

mutual

/-- A statement as tokens spell it. -/
def Stmt.Spelled : Stmt → Prop
  | .expr e => e.Spelled
  | .comment _ | .use _ => True
  | .parameter _ | .arm _ | .merged _ => False
  | .returns value => ∀ e ∈ value, e.Spelled
  | .declare decl => decl.Spelled
  | .function header none => header.Spelled ∧ header.isExternal = true
  | .function header (some body) =>
      header.Spelled ∧ header.isExternal = false ∧ Stmt.AllSpelled body
  | .branch condition body alternate =>
      condition.Spelled ∧ Stmt.AllSpelled body ∧ alternate.Spelled
  | .loop condition body => condition.Spelled ∧ Stmt.AllSpelled body
  | .switch subject arms => subject.Spelled ∧ Arm.AllSpelled arms

def Alternate.Spelled : Alternate → Prop
  | .none => True
  | .elseBranch condition body alternate =>
      condition.Spelled ∧ Stmt.AllSpelled body ∧ alternate.Spelled
  | .otherwise body => Stmt.AllSpelled body

def Arm.Spelled : Arm → Prop
  | .value pattern body => pattern.Spelled ∧ Stmt.AllSpelled body
  | .otherwise body => Stmt.AllSpelled body

def Stmt.AllSpelled : List Stmt → Prop
  | [] => True
  | first :: rest => first.Spelled ∧ Stmt.AllSpelled rest

def Arm.AllSpelled : List Arm → Prop
  | [] => True
  | first :: rest => first.Spelled ∧ Arm.AllSpelled rest

end

theorem Expr.allSpelled_iff {es : List Expr} : Expr.AllSpelled es ↔ ∀ e ∈ es, e.Spelled := by
  induction es with
  | nil => simp [Expr.AllSpelled]
  | cons first rest ih => simp [Expr.AllSpelled, ih]

theorem Stmt.allSpelled_iff {body : List Stmt} : Stmt.AllSpelled body ↔ ∀ s ∈ body, s.Spelled := by
  induction body with
  | nil => simp [Stmt.AllSpelled]
  | cons first rest ih => simp [Stmt.AllSpelled, ih]

theorem Arm.allSpelled_iff {arms : List Arm} : Arm.AllSpelled arms ↔ ∀ arm ∈ arms, arm.Spelled := by
  induction arms with
  | nil => simp [Arm.AllSpelled]
  | cons first rest ih => simp [Arm.AllSpelled, ih]

/-- The parser builds what can be spelled from whatever tokens there are. -/
theorem Parse.forms_spelled : Parse.Forms (fun _ => True) (fun _ => True) Expr.Spelled
    Stmt.Spelled Alternate.Spelled Arm.Spelled where
  number valid := valid
  string _ := trivial
  boolean _ := trivial
  null := trivial
  identifier _ _ := trivial
  member object _ := object
  call callee arguments := ⟨callee, Expr.allSpelled_iff.mpr arguments⟩
  binary left right := ⟨left, right⟩
  prefixed operand := operand
  postfixed operand := operand
  expr value := value
  comment _ := trivial
  use _ := trivial
  returns value := value
  declare formed := ⟨formed.value, formed.constant, formed.unresolved⟩
  prototype formed external := ⟨⟨formed.modifiers, formed.unresolved⟩, external⟩
  function formed internal body :=
    ⟨⟨formed.modifiers, formed.unresolved⟩, internal, Stmt.allSpelled_iff.mpr body⟩
  branch condition body next := ⟨condition, Stmt.allSpelled_iff.mpr body, next⟩
  loop condition body := ⟨condition, Stmt.allSpelled_iff.mpr body⟩
  switch subject arms := ⟨subject, Arm.allSpelled_iff.mpr arms⟩
  done := trivial
  elseBranch condition body next := ⟨condition, Stmt.allSpelled_iff.mpr body, next⟩
  otherwise := Stmt.allSpelled_iff.mpr
  value pattern body := ⟨pattern, Stmt.allSpelled_iff.mpr body⟩
  default := Stmt.allSpelled_iff.mpr

/-- A program that was parsed can be spelled. -/
theorem Program.allSpelled_of_parse {tokens : List Token} {program : Program}
    (parsed : Program.parse tokens = .ok program) : Stmt.AllSpelled program :=
  Stmt.allSpelled_iff.mpr
    (Parse.forms_spelled.of_parse (fun _ _ => ⟨fun _ => trivial, trivial⟩) trivial parsed)

end SmallLang
