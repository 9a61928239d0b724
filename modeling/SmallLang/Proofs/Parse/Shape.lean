import SmallLang.Proofs.Parse.Built
import SmallLang.Proofs.Tree.Alike

/-!
# The shape of parsed programs

The parser builds only some of all trees: nothing has a type yet, parameters and arms stand
where they belong, no module is merged, and the functions without a body are those that are
defined elsewhere.
-/

set_option autoImplicit false

namespace SmallLang

mutual

/-- A statement as the parser builds it. -/
def Stmt.Parsed : Stmt → Prop
  | .expr _ | .comment _ | .use _ | .returns _ => True
  | .parameter _ | .arm _ | .merged _ => False
  | .declare decl => decl.resolved = none
  | .function header none => header.resolved = none ∧ header.isExternal = true
  | .function header (some body) =>
      header.resolved = none ∧ header.isExternal = false ∧ Stmt.AllParsed body
  | .branch _ body alternate => Stmt.AllParsed body ∧ alternate.Parsed
  | .loop _ body => Stmt.AllParsed body
  | .switch _ arms => Arm.AllParsed arms

def Alternate.Parsed : Alternate → Prop
  | .none => True
  | .elseBranch _ body alternate => Stmt.AllParsed body ∧ alternate.Parsed
  | .otherwise body => Stmt.AllParsed body

def Arm.Parsed : Arm → Prop
  | .value _ body => Stmt.AllParsed body
  | .otherwise body => Stmt.AllParsed body

def Stmt.AllParsed : List Stmt → Prop
  | [] => True
  | first :: rest => first.Parsed ∧ Stmt.AllParsed rest

def Arm.AllParsed : List Arm → Prop
  | [] => True
  | first :: rest => first.Parsed ∧ Arm.AllParsed rest

end

theorem Stmt.allParsed_iff {body : List Stmt} : Stmt.AllParsed body ↔ ∀ s ∈ body, s.Parsed := by
  induction body with
  | nil => simp [Stmt.AllParsed]
  | cons first rest ih => simp [Stmt.AllParsed, ih]

theorem Arm.allParsed_iff {arms : List Arm} : Arm.AllParsed arms ↔ ∀ arm ∈ arms, arm.Parsed := by
  induction arms with
  | nil => simp [Arm.AllParsed]
  | cons first rest ih => simp [Arm.AllParsed, ih]

/-- The parser builds parsed programs from whatever tokens there are. -/
theorem Parse.forms_parsed : Parse.Forms (fun _ => True) (fun _ => True) (fun _ => True)
    Stmt.Parsed Alternate.Parsed Arm.Parsed where
  toExprForms := .anything _ _
  expr _ := trivial
  comment _ := trivial
  use _ := trivial
  returns _ := trivial
  declare formed := formed.unresolved
  prototype formed external := ⟨formed.unresolved, external⟩
  function formed internal body := ⟨formed.unresolved, internal, Stmt.allParsed_iff.mpr body⟩
  branch _ body next := ⟨Stmt.allParsed_iff.mpr body, next⟩
  loop _ body := Stmt.allParsed_iff.mpr body
  switch _ arms := Arm.allParsed_iff.mpr arms
  done := trivial
  elseBranch _ body next := ⟨Stmt.allParsed_iff.mpr body, next⟩
  otherwise := Stmt.allParsed_iff.mpr
  value _ body := Stmt.allParsed_iff.mpr body
  default := Stmt.allParsed_iff.mpr

/-- Every program that tokens spell has the shape of parsed programs. -/
theorem Program.allParsed_of_parse {tokens : List Token} {program : Program}
    (parsed : Program.parse tokens = .ok program) : Stmt.AllParsed program :=
  Stmt.allParsed_iff.mpr
    (Parse.forms_parsed.of_parse (fun _ _ => ⟨fun _ => trivial, trivial⟩) trivial parsed)

end SmallLang
