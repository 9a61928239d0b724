import SmallLang.Proofs.Module.Words

/-!
# Declared names without dots

Whatever a file declares, at its top or inside of blocks, has a name without a dot. So nothing that
is declared inside a module can be taken for a name under a namespace.
-/

set_option autoImplicit false

namespace SmallLang

mutual

/-- A statement that declares no name with a dot, neither in its block nor inside of it. Parameters
and arms stand where they belong, and nothing is merged. -/
def Stmt.Worded : Stmt → Prop
  | .expr _ | .comment _ | .use _ | .returns _ => True
  | .parameter _ | .arm _ | .merged _ => False
  | .declare decl => SmallLang.Undotted decl.name
  | .function header none => SmallLang.Undotted header.name
  | .function header (some body) =>
      SmallLang.Undotted header.name ∧
        (∀ param ∈ header.parameters, SmallLang.Undotted param.name) ∧ Stmt.AllWorded body
  | .branch _ body alternate => Stmt.AllWorded body ∧ alternate.Worded
  | .loop _ body => Stmt.AllWorded body
  | .switch _ arms => Arm.AllWorded arms

def Alternate.Worded : Alternate → Prop
  | .none => True
  | .elseBranch _ body alternate => Stmt.AllWorded body ∧ alternate.Worded
  | .otherwise body => Stmt.AllWorded body

def Arm.Worded : Arm → Prop
  | .value _ body => Stmt.AllWorded body
  | .otherwise body => Stmt.AllWorded body

def Stmt.AllWorded : List Stmt → Prop
  | [] => True
  | first :: rest => first.Worded ∧ Stmt.AllWorded rest

def Arm.AllWorded : List Arm → Prop
  | [] => True
  | first :: rest => first.Worded ∧ Arm.AllWorded rest

end

theorem Stmt.allWorded_iff {body : List Stmt} : Stmt.AllWorded body ↔ ∀ s ∈ body, s.Worded := by
  induction body with
  | nil => simp [Stmt.AllWorded]
  | cons first rest ih => simp [Stmt.AllWorded, ih]

theorem Arm.allWorded_iff {arms : List Arm} : Arm.AllWorded arms ↔ ∀ arm ∈ arms, arm.Worded := by
  induction arms with
  | nil => simp [Arm.AllWorded]
  | cons first rest ih => simp [Arm.AllWorded, ih]

/-- From identifiers without dots the parser builds statements that declare no name with a dot. -/
theorem Parse.forms_worded : Parse.Forms SmallLang.Undotted (fun _ => True) (fun _ => True)
    Stmt.Worded Alternate.Worded Arm.Worded where
  toExprForms := .anything _ _
  expr _ := trivial
  comment _ := trivial
  use _ := trivial
  returns _ := trivial
  declare formed := formed.name
  prototype formed _ := formed.name
  function formed _ body :=
    ⟨formed.name, fun param present => (formed.parameters param present).name,
      Stmt.allWorded_iff.mpr body⟩
  branch _ body next := ⟨Stmt.allWorded_iff.mpr body, next⟩
  loop _ body := Stmt.allWorded_iff.mpr body
  switch _ arms := Arm.allWorded_iff.mpr arms
  done := trivial
  elseBranch _ body next := ⟨Stmt.allWorded_iff.mpr body, next⟩
  otherwise := Stmt.allWorded_iff.mpr
  value _ body := Stmt.allWorded_iff.mpr body
  default := Stmt.allWorded_iff.mpr

/-- No name that a file declares has a dot, at whatever depth. -/
theorem Program.allWorded_of_read {source file : String} {program : Program}
    (reads : Program.read source file = .ok program) : Stmt.AllWorded program := by
  obtain ⟨tokens, scans, parsed⟩ := exists_tokens_of_read reads
  exact Stmt.allWorded_iff.mpr
    (Parse.forms_worded.of_parse (Token.given_of_scan scans) trivial parsed)

end SmallLang
