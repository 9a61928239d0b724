import SmallLang.Proofs.Parse.Built
import SmallLang.Proofs.Position.Tree

/-!
# Positions that a parser gives out

A parser takes every position from a token. So everything in a program stands where a token does,
and so does an error.
-/

set_option autoImplicit false

namespace SmallLang

variable {place : Position → Prop}

theorem FunctionHeader.Formed.placed {word : String → Prop} {header : FunctionHeader}
    (formed : header.Formed word place) : header.Placed place where
  position := formed.position
  parameters param present := (formed.parameters param present).position
  returns := formed.returns

theorem Variable.Formed.placed {word : String → Prop} {decl : Variable}
    (formed : decl.Formed word place (Expr.Placed place)) : decl.Placed place where
  position := formed.position
  typeName := formed.typeName
  value := formed.value

/-- From tokens at places the parser builds what stands at places. -/
theorem Parse.forms_placed : Parse.Forms (fun _ => True) place (Expr.Placed place)
    (Stmt.Placed place) (Alternate.Placed place) (Arm.Placed place) where
  number _ := trivial
  string _ := trivial
  boolean _ := trivial
  null := trivial
  identifier _ stands := stands
  member object _ := object
  call callee arguments := ⟨callee, Expr.allPlaced_iff.mpr arguments⟩
  binary left right := ⟨left, right⟩
  prefixed operand := operand
  postfixed operand := operand
  expr value := value
  comment _ := trivial
  use formed := formed.position
  returns value := value
  declare formed := formed.placed
  prototype formed _ := formed.placed
  function formed _ body := ⟨formed.placed, Stmt.allPlaced_iff.mpr body⟩
  branch condition body next := ⟨condition, Stmt.allPlaced_iff.mpr body, next⟩
  loop condition body := ⟨condition, Stmt.allPlaced_iff.mpr body⟩
  switch subject arms := ⟨subject, Arm.allPlaced_iff.mpr arms⟩
  done := trivial
  elseBranch condition body next := ⟨condition, Stmt.allPlaced_iff.mpr body, next⟩
  otherwise := Stmt.allPlaced_iff.mpr
  value pattern body := ⟨pattern, Stmt.allPlaced_iff.mpr body⟩
  default := Stmt.allPlaced_iff.mpr

namespace Program

variable {tokens : List Token}

/-- What tokens spell stands where they do. -/
theorem placed_of_parse {program : Program} (stand : ∀ token ∈ tokens, place token.position)
    (stop : place (Parse.State.stopOf tokens).position)
    (parsed : Program.parse tokens = .ok program) : Stmt.AllPlaced place program :=
  Stmt.allPlaced_iff.mpr (Parse.forms_placed.of_parse
    (fun token present => ⟨fun _ => trivial, stand token present⟩) stop parsed)

/-- Where tokens spell no program, one of them is to blame. -/
theorem place_of_parse {error : Error} (stand : ∀ token ∈ tokens, place token.position)
    (stop : place (Parse.State.stopOf tokens).position)
    (failed : Program.parse tokens = .error error) : place error.position := by
  have given : ∀ token ∈ tokens, token.Given (fun _ => True) place :=
    fun token present => ⟨fun _ => trivial, stand token present⟩
  obtain ⟨after, result⟩ := parse_eq_error_iff.mp failed
  have made := Parse.forms_placed.makes_program _ (Parse.given_ofTokens given stop)
  rw [result] at made
  exact made

end Program

end SmallLang
