import SmallLang.Proofs.Comment.Statements
import SmallLang.Proofs.LineEnd.Merged

/-!
# Statements and line ends in a row

Every part of the parser does the same if no line end follows another one. Between statements this
holds for the end of one and the gap before the next one taken together.
-/

set_option autoImplicit false

namespace SmallLang.Parse

/-! ### Expressions -/

/-- What tells tokens that mean something from blanks finds nothing in a line end. -/
theorem kind_ne_endOfLine_of_some {α : Type} {read : Token → Option α}
    (blanks : ∀ {token : Token}, token.kind.isBlank = true → read token = none) {token : Token}
    {value : α} (found : read token = some value) : token.kind ≠ .endOfLine := by
  intro lineEnd
  rw [blanks (by rw [lineEnd]; rfl)] at found
  cases found

section Using

variable {within other : Power → Parse Expr} (same : ∀ power, Merges (within power) (other power))
include same

theorem merges_operandUsing : Merges (operandUsing within) (operandUsing other) := by
  refine fun state => .current_bind ?_
  split
  · exact .fail
  · split
    · next found =>
        exact .consume_bind (kind_ne_endOfLine_of_some atom?_of_isBlank found) (.pure _)
    · split
      · next found =>
          refine .consume_bind (by simp [Token.kind_of_is found]) ?_
          refine Merges.skipTrivia.bind (fun _ => (same _).bind fun _ => ?_) _
          exact Merges.skipTrivia.bind fun _ => (Merges.expect (by decide)).bind fun _ => .pure _
      · split
        · next found =>
            exact .consume_bind (kind_ne_endOfLine_of_some prefixOperator?_of_isBlank found)
              ((same _).bind (fun _ => .pure _) _)
        · exact .expected

theorem merges_operatorsUsing (takes : Takes (other .lowest))
    {operators operators' : Expr → Parse Expr} (power : Power)
    (others : ∀ left, Merges (operators left) (operators' left)) (left : Expr) :
    Merges (operatorsUsing within operators power left)
      (operatorsUsing other operators' power left) := by
  refine fun state => .current_bind ?_
  split
  · next found =>
      exact .consume_bind (kind_ne_endOfLine_of_some postfixOperator?_of_isBlank found)
        (others _ _)
  · split
    · next found =>
        exact .consume_bind (by simp [Token.kind_of_is found])
          ((Merges.identifier _).bind (fun _ => others _) _)
    · split
      · next found =>
          exact .consume_bind (by simp [Token.kind_of_is found])
            (((same _).list takes).bind (fun _ => others _) _)
      · split
        · next found =>
            refine .consume_bind
              (kind_ne_endOfLine_of_some (fun blank => operatorAbove?_of_isBlank blank _) found) ?_
            exact Merges.skipTrivia.bind (fun _ => (same _).bind fun _ => others _) _
        · exact .pure _

end Using

theorem merges_expressionWithin (depth : Nat) :
    (∀ power, Merges (expressionWithin depth power) (expression power)) ∧
      Merges (operandWithin depth) operand ∧
      ∀ power left, Merges (operatorsWithin depth power left) (operators power left) := by
  induction depth with
  | zero => exact ⟨fun _ => .exhausted, .exhausted, fun _ _ => .exhausted⟩
  | succ depth ih =>
      obtain ⟨expressions, operands, others⟩ := ih
      refine ⟨fun power => ?_, ?_, fun power left => ?_⟩
      · rw [expression_eq]
        exact operands.bind fun left => others power left
      · rw [operand_eq]
        exact merges_operandUsing expressions
      · rw [operators_eq]
        exact merges_operatorsUsing expressions (takes_expression _) power (others power) left

theorem merges_expression (power : Power) : Merges (expression power) (expression power) :=
  fun state => .from_later state rfl rfl
    ((merges_expressionWithin (2 * state.rest.length + 2)).1 power state)

/-! ### Statements without a block -/

theorem merges_segmentsWithin (depth : Nat) (path : String) :
    Merges (segmentsWithin path depth) (segments path) := by
  induction depth generalizing path with
  | zero => exact .exhausted
  | succ depth ih =>
      rw [segments_eq]
      exact .take (by decide) ((Merges.identifier _).bind fun _ => ih _) (.pure _)

theorem merges_typeAndValue : Merges typeAndValue typeAndValue := by
  have values := merges_expression .lowest
  refine .take (by decide) (values.bind fun _ => .pure _) ?_
  refine .take (by decide) (Merges.typeName.bind fun _ => ?_) (.pure _)
  exact .take (by decide) (values.bind fun _ => .pure _) (.pure _)

theorem merges_parameter : Merges parameter parameter :=
  (Merges.identifier _).bind fun _ => (Merges.expect (by decide)).bind fun _ =>
    Merges.typeName.bind fun _ => .pure _

theorem merges_pattern : Merges pattern pattern := by
  have arrow : Merges (expect .operator "->") (expect .operator "->") := .expect (by decide)
  refine .take (by decide) (arrow.bind fun _ => .pure _) ?_
  exact (merges_expression _).bind fun _ => arrow.bind fun _ => .pure _

section Keyword

variable {state : State} (keyword : state.current.kind = .keyword)
include keyword

theorem mergesAt_useStatement : MergesAt useStatement useStatement state := by
  refine .advance_bind (by simp [keyword]) ?_
  refine (Merges.identifier _).bind (fun first named => .get_bind ?_) _
  have path : MergesAt (segmentsWithin first (named.rest.length + 1))
      (segmentsWithin first (named.merged.rest.length + 1)) named :=
    .from_later named rfl rfl (merges_segmentsWithin (named.rest.length + 1) first named)
  refine path.bind ?_
  intro path last _
  exact Merges.take (by decide) ((Merges.identifier _).bind fun _ => .pure _) (.pure _) last

theorem mergesAt_variableStatement : MergesAt variableStatement variableStatement state := by
  refine .advance_bind (by simp [keyword]) ?_
  refine (Merges.identifier _).bind (fun name => merges_typeAndValue.bind fun (type, value) => ?_) _
  dsimp only
  split
  · exact .expected
  · exact .pure _

theorem mergesAt_returnStatement : MergesAt returnStatement returnStatement state := by
  refine .consume_bind (by simp [keyword]) (.current_bind ?_)
  split
  · exact .pure _
  · exact (merges_expression _).bind (fun _ => .pure _) _

theorem mergesAt_functionHeader : MergesAt functionHeader functionHeader state := by
  have parameters : Merges (list parameter) (list parameter) :=
    merges_parameter.list fun _ => ends_parameter
  have other : (State.current { state with pending := [] }).kind ≠ .endOfLine := by
    change state.current.kind ≠ .endOfLine
    simp [keyword]
  refine .get_bind (.modify_bind rfl (.advance_bind other ?_))
  refine (Merges.identifier _).bind (fun name => (Merges.expect (by decide)).bind fun _ =>
    parameters.bind fun _ => ?_) _
  exact .take (by decide) (Merges.typeName.bind fun _ => .pure _) (.pure _)

theorem mergesAt_addModifier (modifier : Modifier) :
    MergesAt (addModifier modifier) (addModifier modifier) state := by
  refine .advance_bind (by simp [keyword]) (.get_bind ?_)
  change MergesAt (if state.advance.pending.contains modifier then _ else _)
    (if state.advance.pending.contains modifier then _ else _) _
  split
  · exact .fail
  · refine .modify_bind rfl (.current_bind ?_)
    split
    · exact .pure _
    · exact .expected

end Keyword

end SmallLang.Parse
