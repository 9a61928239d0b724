import SmallLang.Proofs.Comment.Mirrors
import SmallLang.Proofs.Comment.Tree

/-!
# Expressions and headers without the comments

Within an expression, and within what stands in front of a block, comments are passed over exactly
where line ends are. Everywhere else a comment ends what stands before it, like the end of its line.
-/

set_option autoImplicit false

namespace SmallLang.Parse

/-! ### Blanks -/

section Blank

variable {token : Token} (blank : token.kind.isBlank = true)
include blank

theorem atom?_of_isBlank : atom? token = none := by
  unfold atom?
  cases kind : token.kind <;> first | rfl | (rw [kind] at blank; cases blank)

theorem prefixOperator?_of_isBlank : prefixOperator? token = none := by
  simp [prefixOperator?, Token.isOperator_of_isBlank blank]

theorem postfixOperator?_of_isBlank : postfixOperator? token = none := by
  simp [postfixOperator?, Token.isOperator_of_isBlank blank]

theorem operatorAbove?_of_isBlank (power : Power) : operatorAbove? power token = none := by
  unfold operatorAbove?
  cases kind : token.kind <;> first | rfl | (rw [kind] at blank; cases blank)

theorem endsValue_of_isBlank : endsValue token = true := by
  unfold endsValue
  cases kind : token.kind <;> first | rfl | (rw [kind] at blank; cases blank)

end Blank

section Kinds

variable {token : Token}

theorem kind_ne_of_atom? {atom : Expr} (found : atom? token = some atom) :
    token.kind ≠ .delimiter := by
  intro kind
  simp [atom?, kind] at found

theorem kind_ne_of_prefixOperator? {operator : PrefixOperator}
    (found : prefixOperator? token = some operator) : token.kind ≠ .delimiter := by
  intro kind
  simp [prefixOperator?, Token.isOperator, Token.is, kind] at found

theorem kind_ne_of_postfixOperator? {operator : PostfixOperator}
    (found : postfixOperator? token = some operator) : token.kind ≠ .delimiter := by
  intro kind
  simp [postfixOperator?, Token.isOperator, Token.is, kind] at found

theorem kind_ne_of_operatorAbove? {power : Power} {operator : BinaryOperator}
    (found : operatorAbove? power token = some operator) : token.kind ≠ .delimiter := by
  intro kind
  simp [operatorAbove?, kind] at found

end Kinds

/-! ### Expressions -/

theorem takes_expression (power : Power) : Takes (expression power) :=
  fun state => ends_expression power state

section Using

variable {within other : Power → Parse Expr}
  (expressions : ∀ power, Mirrors Flat (within power) (other power) id)

include expressions

theorem mirrors_operandUsing : Mirrors Flat (operandUsing within) (operandUsing other) id := by
  intro state commented
  have later := commented.suffix state.advance_suffix
  refine .current_bind commented (fun solid => ?_) fun token token' blank blank' => ?_
  · split
    · exact .fail
    · split
      · next found =>
          exact .consume_bind shape_flat solid
            (Token.isBrace_eq_false_of_kind (kind_ne_of_atom? found)) (.pure shape_flat rfl)
      · split
        · next found =>
            have inner : Mirrors Flat (do
                  let inner ← within .lowest
                  skipTrivia
                  let _ ← expect .delimiter ")"
                  return inner)
                (do
                  let inner ← other .lowest
                  skipTrivia
                  let _ ← expect .delimiter ")"
                  return inner) id :=
              (expressions _).after shape_flat fun _ => .skipTrivia_bind shape_flat <|
                (Mirrors.expect rfl (by decide) (by decide)).after shape_flat fun _ =>
                  .pure shape_flat rfl
            exact .consume_bind shape_flat solid
              (Token.isBrace_eq_false_of_is found (by decide) (by decide))
              ((Mirrors.skipTrivia_bind shape_flat inner).here later)
        · split
          · next found =>
              refine .consume_bind shape_flat solid
                (Token.isBrace_eq_false_of_kind (kind_ne_of_prefixOperator? found)) ?_
              refine Mirrors.here ?_ later
              exact (expressions _).after shape_flat fun _ => .pure shape_flat rfl
          · exact .expected
  · have number {token : Token} (blank : token.kind.isBlank = true) :
        (token.kind == .number) = false := Token.kind_beq_of_isBlank blank rfl
    simp only [number blank, number blank', Bool.false_and, atom?_of_isBlank blank,
      atom?_of_isBlank blank',
      Token.isDelimiter_of_isBlank blank, Token.isDelimiter_of_isBlank blank',
      prefixOperator?_of_isBlank blank, prefixOperator?_of_isBlank blank']
    exact .expected

theorem mirrors_operatorsUsing (takes : Takes (other .lowest))
    {operators operators' : Expr → Parse Expr} (power : Power)
    (others : ∀ left, Mirrors Flat (operators left) (operators' left) id) (left : Expr) :
    Mirrors Flat (operatorsUsing within operators power left)
      (operatorsUsing other operators' power left) id := by
  intro state commented
  have later := commented.suffix state.advance_suffix
  refine .current_bind commented (fun solid => ?_) fun token token' blank blank' => ?_
  · split
    · next found =>
        exact .consume_bind shape_flat solid
          (Token.isBrace_eq_false_of_kind (kind_ne_of_postfixOperator? found))
          ((others _).here later)
    · split
      · next found =>
          refine .consume_bind shape_flat solid
            (Token.isBrace_eq_false_of_is found (by decide) (by decide)) ?_
          exact ((Mirrors.identifier _).after shape_flat fun _ => others _).here later
      · split
        · next found =>
            refine .consume_bind shape_flat solid
              (Token.isBrace_eq_false_of_is found (by decide) (by decide)) ?_
            have calls (arguments : List Expr) :
                Mirrors Flat (operators (.call left arguments))
                  (operators' (.call left (arguments.map id))) id := by
              rw [List.map_id]
              exact others _
            exact (((expressions _).list takes).bind shape_flat calls).here later
        · split
          · next found =>
              refine .consume_bind shape_flat solid
                (Token.isBrace_eq_false_of_kind (kind_ne_of_operatorAbove? found)) ?_
              exact (Mirrors.skipTrivia_bind shape_flat
                ((expressions _).after shape_flat fun _ => others _)).here later
          · exact .pure shape_flat rfl
  · simp only [postfixOperator?_of_isBlank blank, postfixOperator?_of_isBlank blank',
      Token.isOperator_of_isBlank blank, Token.isOperator_of_isBlank blank',
      Token.isDelimiter_of_isBlank blank, Token.isDelimiter_of_isBlank blank',
      operatorAbove?_of_isBlank blank, operatorAbove?_of_isBlank blank']
    exact .pure shape_flat rfl

end Using

theorem mirrors_expressionWithin (depth : Nat) :
    (∀ power, Mirrors Flat (expressionWithin depth power) (expression power) id) ∧
      Mirrors Flat (operandWithin depth) operand id ∧
      ∀ power left, Mirrors Flat (operatorsWithin depth power left) (operators power left) id := by
  induction depth with
  | zero => exact ⟨fun _ => .exhausted, .exhausted, fun _ _ => .exhausted⟩
  | succ depth ih =>
      obtain ⟨expressions, operands, others⟩ := ih
      refine ⟨fun power => ?_, ?_, fun power left => ?_⟩
      · rw [expression_eq]
        exact operands.after shape_flat fun left => others power left
      · rw [operand_eq]
        exact mirrors_operandUsing expressions
      · rw [operators_eq]
        exact mirrors_operatorsUsing expressions (takes_expression _) power (others power) left

theorem mirrors_expression (power : Power) :
    Mirrors Flat (expression power) (expression power) id := fun state commented =>
  ((mirrors_expressionWithin (2 * state.rest.length + 2)).1 power state commented).congr rfl rfl

/-! ### Statements without a block -/

theorem mirrors_segmentsWithin (depth : Nat) (path : String) :
    Mirrors Flat (segmentsWithin path depth) (segments path) id := by
  induction depth generalizing path with
  | zero => exact .exhausted
  | succ depth ih =>
      rw [segments_eq]
      exact .take shape_flat rfl (by decide) (by decide)
        ((Mirrors.identifier _).after shape_flat fun _ => ih _) (.pure shape_flat rfl)

/-- Where a statement begins with a keyword, the keyword is passed over. -/
theorem State.proper_of_keyword {state : State} (keyword : state.current.kind = .keyword) :
    state.current.kind.isBlank = false ∧ state.current.isBrace = false :=
  ⟨by rw [keyword]; rfl, Token.isBrace_eq_false_of_kind (by rw [keyword]; decide)⟩

section Keyword

variable {state : State} (commented : Token.Commented state.rest)
  (keyword : state.current.kind = .keyword)

include commented keyword

theorem mirrors_useStatement :
    MirrorsAt Flat Never useStatement useStatement Stmt.uncommented state := by
  obtain ⟨solid, flat⟩ := State.proper_of_keyword keyword
  refine .advance_bind shape_flat solid flat (Mirrors.here ?_
    (commented.suffix state.advance_suffix))
  refine (Mirrors.identifier _).after shape_flat fun first named commented => .get_bind ?_
  have path := (mirrors_segmentsWithin (named.rest.length + 1) first named commented).congr rfl rfl
  refine path.after shape_flat commented fun path last _ commented => Mirrors.here ?_ commented
  exact .take shape_flat rfl (by decide) (by decide)
    ((Mirrors.identifier _).after shape_flat fun _ => .pure shape_flat rfl) (.pure shape_flat rfl)

omit commented keyword in
theorem mirrors_typeAndValue : Mirrors Flat typeAndValue typeAndValue id := by
  have values := mirrors_expression .lowest
  refine .take shape_flat rfl (by decide) (by decide)
    (values.after shape_flat fun _ => .pure shape_flat rfl) ?_
  refine .take shape_flat rfl (by decide) (by decide) ?_ (.pure shape_flat rfl)
  refine Mirrors.typeName.after shape_flat ?_
  intro _
  exact .take shape_flat rfl (by decide) (by decide)
    (values.after shape_flat fun _ => .pure shape_flat rfl) (.pure shape_flat rfl)

theorem mirrors_variableStatement :
    MirrorsAt Flat Never variableStatement variableStatement Stmt.uncommented state := by
  obtain ⟨solid, flat⟩ := State.proper_of_keyword keyword
  refine .advance_bind shape_flat solid flat (Mirrors.here ?_
    (commented.suffix state.advance_suffix))
  refine (Mirrors.identifier _).after shape_flat ?_
  intro name
  refine mirrors_typeAndValue.after shape_flat fun (type, value) => ?_
  dsimp only
  split
  · exact .expected _
  · exact .pure shape_flat rfl

theorem mirrors_returnStatement :
    MirrorsAt Flat Never returnStatement returnStatement Stmt.uncommented state := by
  obtain ⟨solid, flat⟩ := State.proper_of_keyword keyword
  have later := commented.suffix state.advance_suffix
  refine .consume_bind shape_flat solid flat (.current_bind later (fun _ => ?_)
    fun token token' blank blank' => ?_)
  · split
    · exact .pure shape_flat rfl
    · refine Mirrors.here ?_ later
      exact (mirrors_expression _).after shape_flat fun _ => .pure shape_flat rfl
  · rw [endsValue_of_isBlank blank, endsValue_of_isBlank blank']
    exact .pure shape_flat rfl

omit commented keyword in
theorem mirrors_parameter : Mirrors Flat parameter parameter id := by
  refine (Mirrors.identifier _).after shape_flat ?_
  intro _
  refine (Mirrors.expect rfl (by decide) (by decide)).after shape_flat ?_
  intro _
  exact Mirrors.typeName.after shape_flat fun _ => .pure shape_flat rfl

theorem mirrors_functionHeader : MirrorsAt Flat Never functionHeader functionHeader id state := by
  obtain ⟨solid, flat⟩ := State.proper_of_keyword keyword
  have parameters : Mirrors Flat (list parameter) (list parameter) id := by
    have found := mirrors_parameter.list fun _ => ends_parameter
    rwa [List.map_id_fun] at found
  refine .get_bind (.modify_bind rfl rfl ?_)
  refine .advance_bind shape_flat solid flat (Mirrors.here ?_
    (commented.suffix state.advance_suffix))
  refine (Mirrors.identifier _).after shape_flat ?_
  intro name
  refine (Mirrors.expect rfl (by decide) (by decide)).after shape_flat ?_
  intro _
  refine parameters.after shape_flat ?_
  intro _
  exact .take shape_flat rfl (by decide) (by decide)
    (Mirrors.typeName.after shape_flat fun _ => .pure shape_flat rfl) (.pure shape_flat rfl)

theorem mirrors_addModifier (modifier : Modifier) :
    MirrorsAt Flat Never (addModifier modifier) (addModifier modifier) id state := by
  obtain ⟨solid, flat⟩ := State.proper_of_keyword keyword
  have later := commented.suffix state.advance_suffix
  refine .advance_bind shape_flat solid flat (.get_bind ?_)
  change MirrorsAt _ _ (if state.advance.pending.contains modifier then _ else _)
    (if state.advance.pending.contains modifier then _ else _) _ _
  split
  · exact .fail
  · refine .modify_bind rfl rfl (.current_bind later (fun _ => ?_)
      fun token token' blank blank' => ?_)
    · split
      · exact .pure shape_flat rfl
      · exact .expected
    · simp only [Token.isKeyword_of_isBlank blank, Token.isKeyword_of_isBlank blank']
      exact .expected

omit commented keyword in
theorem mirrors_pattern : Mirrors Flat pattern pattern id := by
  have arrow : Mirrors Flat (expect .operator "->") (expect .operator "->") id :=
    .expect rfl (by decide) (by decide)
  refine .take shape_flat rfl (by decide) (by decide)
    (arrow.after shape_flat fun _ => .pure shape_flat rfl) ?_
  refine (mirrors_expression _).after shape_flat ?_
  intro _
  refine arrow.after shape_flat ?_
  intro _
  exact .pure shape_flat rfl

end Keyword

end SmallLang.Parse
