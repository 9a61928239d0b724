import Mathlib.Data.List.Basic
import SmallLang.Module.Resolver
import SmallLang.Proofs.Parse.Print

/-!
# Positions do not count

A parser copies the positions of tokens and never looks at them. Tokens that differ at most in where
they stand therefore spell the same program, up to the positions in it.
-/

set_option autoImplicit false

namespace SmallLang

/-- A token as it would be written in no source. -/
def Token.detached (token : Token) : Token := .written token.kind token.value

namespace Parse

variable {α β : Type}

def State.detached (state : State) : State where
  rest := state.rest.map Token.detached
  stop := state.stop.detached
  pending := state.pending
  stop_kind := state.stop_kind

def Halt.detached : Halt → Halt
  | .error reported => .error (.detached reported.cause)
  | .exhausted => .exhausted

namespace State

theorem current_detached (state : State) : state.detached.current = state.current.detached := by
  cases tokens : state.rest <;> simp [current, detached, tokens]

theorem advance_detached (state : State) : state.detached.advance = state.advance.detached := by
  simp [advance, detached, List.map_tail]

theorem length_detached (state : State) : state.detached.rest.length = state.rest.length :=
  List.length_map ..

theorem skipNewlines_detached (state : State) :
    state.detached.skipNewlines = state.skipNewlines.detached := by
  simp only [skipNewlines, detached, List.dropWhile_map]
  rfl

theorem skipTrivia_detached (state : State) :
    state.detached.skipTrivia = state.skipTrivia.detached := by
  simp only [skipTrivia, detached, List.dropWhile_map]
  rfl

theorem peekPastNewlines_detached (state : State) :
    state.detached.peekPastNewlines = state.peekPastNewlines.detached := by
  have same : ((fun token : Token => token.kind != .endOfLine) ∘ Token.detached) =
      fun token => token.kind != .endOfLine := rfl
  simp only [peekPastNewlines, detached, List.find?_map, same]
  cases state.rest.find? fun token => token.kind != .endOfLine <;> rfl

theorem stopOf_detached (tokens : List Token) :
    stopOf (tokens.map Token.detached) = (stopOf tokens).detached := by
  have same : ((fun token : Token => token.kind == .endOfInput) ∘ Token.detached) =
      fun token => token.kind == .endOfInput := rfl
  have ends : endOf (tokens.map Token.detached) = (endOf tokens).detached := by
    simp only [endOf, List.getLast?_map]
    cases tokens.getLast? <;> rfl
  simp only [stopOf, List.find?_map, same, ends]
  cases tokens.find? fun token => token.kind == .endOfInput <;> rfl

theorem ofTokens_detached (tokens : List Token) :
    ofTokens (tokens.map Token.detached) = (ofTokens tokens).detached := by
  have same : ((fun token : Token => token.kind != .endOfInput) ∘ Token.detached) =
      fun token => token.kind != .endOfInput := rfl
  simp only [ofTokens, detached, List.takeWhile_map, same, stopOf_detached]

end State

/-- Without the positions in the tokens, a parser does the same as another one with them, and builds
the same up to the positions in that. -/
def Detaches (parser parser' : Parse α) (detach : α → α) : Prop :=
  ∀ state, parser' state.detached =
    match parser state with
    | .ok value after => .ok (detach value) after.detached
    | .error halt after => .error halt.detached after.detached

namespace Detaches

variable {detach : α → α}

theorem pure (value : α) {value' : α} (same : detach value = value') :
    Detaches (Pure.pure value) (Pure.pure value') detach := by
  intro state
  subst same
  rfl

theorem fail {error error' : Error} (same : error'.cause = error.cause)
    (nowhere : error'.position = .null) :
    Detaches (Parse.fail error) (Parse.fail error') detach := by
  intro state
  cases error'
  subst same nowhere
  rfl

theorem exhausted : Detaches Parse.exhausted Parse.exhausted detach := fun _ => rfl

theorem expected (what : String) : Detaches (Parse.expected what) (Parse.expected what) detach := by
  intro state
  have same : state.detached.expectation what = .detached (state.expectation what).cause := by
    unfold State.expectation
    rw [State.current_detached]
    cases state.current with
    | mk kind value span => cases kind <;> rfl
  simp only [Parse.expected, same, Halt.detached]

theorem bind {first first' : Parse α} {next next' : α → Parse β} {detach' : β → β}
    (begins : Detaches first first' detach)
    (goesOn : ∀ value, Detaches (next value) (next' (detach value)) detach') :
    Detaches (first >>= next) (first' >>= next') detach' := by
  intro state
  change EStateM.bind first' next' state.detached =
    match EStateM.bind first next state with
    | .ok value after => .ok (detach' value) after.detached
    | .error halt after => .error halt.detached after.detached
  simp only [EStateM.bind, begins state]
  cases first state with
  | ok value after => exact goesOn value after
  | error halt after => rfl

theorem ite {condition condition' : Prop} [Decidable condition] [Decidable condition']
    {yes yes' no no' : Parse α} (same : condition ↔ condition') (first : Detaches yes yes' detach)
    (second : Detaches no no' detach) :
    Detaches (if condition then yes else no) (if condition' then yes' else no') detach := by
  by_cases holds : condition
  · rwa [if_pos holds, if_pos (same.mp holds)]
  · rwa [if_neg holds, if_neg fun other => holds (same.mpr other)]

theorem get : Detaches MonadState.get MonadState.get State.detached := fun _ => rfl

theorem current : Detaches Parse.current Parse.current Token.detached := by
  intro state
  simp only [Parse.current, State.current_detached]

theorem advance : Detaches Parse.advance Parse.advance Token.detached := by
  intro state
  simp only [Parse.advance, State.current_detached, State.advance_detached]

theorem consume : Detaches Parse.consume Parse.consume id := by
  intro state
  simp only [Parse.consume, State.advance_detached, id]

theorem skipNewlines : Detaches Parse.skipNewlines Parse.skipNewlines id := by
  intro state
  simp only [Parse.skipNewlines, State.skipNewlines_detached, id]

theorem skipTrivia : Detaches Parse.skipTrivia Parse.skipTrivia id := by
  intro state
  simp only [Parse.skipTrivia, State.skipTrivia_detached, id]

theorem modify {change : State → State}
    (same : ∀ state, change state.detached = (change state).detached) :
    Detaches (modify change) (modify change) id := by
  intro state
  change EStateM.Result.ok PUnit.unit (change state.detached) = .ok _ _
  rw [same]

theorem expect (kind : Token.Kind) (value : String) :
    Detaches (Parse.expect kind value) (Parse.expect kind value) Token.detached :=
  current.bind fun _ => ite .rfl advance (expected _)

theorem identifier (what : String) :
    Detaches (Parse.identifier what) (Parse.identifier what) id :=
  current.bind fun _ => ite .rfl (advance.bind fun _ => .pure _ rfl) (expected _)

theorem typeName : Detaches Parse.typeName Parse.typeName TypeName.detached :=
  current.bind fun _ => ite .rfl (consume.bind fun _ => .pure _ rfl) (expected _)

theorem statementEnd : Detaches Parse.statementEnd Parse.statementEnd id := by
  refine current.bind ?_
  intro token
  obtain ⟨kind, value, span⟩ := token
  cases kind with
  | endOfLine => exact consume
  | endOfInput | comment => exact .pure _ rfl
  | delimiter => exact ite .rfl consume (ite .rfl (.pure _ rfl) (expected _))
  | _ => exact expected _

theorem listSeparator : Detaches Parse.listSeparator Parse.listSeparator id :=
  current.bind fun _ => ite .rfl consume (ite .rfl (.pure _ rfl) (expected _))

theorem listItems {item : Parse α} (items : Detaches item item detach) (depth : Nat) :
    Detaches (Parse.listItems item depth) (Parse.listItems item depth) (List.map detach) := by
  induction depth with
  | zero => exact exhausted
  | succ depth ih =>
      refine skipTrivia.bind fun _ => current.bind fun _ => ite .rfl (.pure _ rfl) ?_
      refine items.bind fun _ => skipTrivia.bind fun _ => listSeparator.bind ?_
      intro _
      exact ih.bind fun _ => .pure _ rfl

theorem list {item : Parse α} (items : Detaches item item detach) :
    Detaches (Parse.list item) (Parse.list item) (List.map detach) := by
  refine get.bind ?_
  intro state
  rw [State.length_detached]
  exact (items.listItems _).bind fun _ => (expect _ _).bind fun _ => .pure _ rfl

theorem blockItems {skip : Parse Unit} {item : Parse α} (skips : Detaches skip skip id)
    (items : Detaches item item detach) (depth : Nat) :
    Detaches (Parse.blockItems skip item depth) (Parse.blockItems skip item depth)
      (List.map detach) := by
  induction depth with
  | zero => exact exhausted
  | succ depth ih =>
      refine skips.bind fun _ => current.bind fun _ =>
        ite .rfl (consume.bind fun _ => .pure _ rfl) ?_
      refine get.bind fun state => ite ?_ (expected _)
        (items.bind fun _ => ih.bind fun _ => .pure _ rfl)
      rw [State.atEnd, State.atEnd, State.current_detached]
      rfl

theorem block {skip : Parse Unit} {item : Parse α} (items : Detaches item item detach)
    (skips : Detaches skip skip id) :
    Detaches (Parse.block skip item) (Parse.block skip item) (List.map detach) := by
  refine (expect _ _).bind fun _ => get.bind ?_
  intro state
  rw [State.length_detached]
  exact blockItems skips items _

end Detaches

/-! ### Expressions -/

theorem atom?_detached (token : Token) :
    atom? token.detached = (atom? token).map Expr.detached := by
  obtain ⟨kind, value, span⟩ := token
  cases kind with
  | keyword =>
      cases spelled : Keyword.ofText? value with
      | none => simp [atom?, Token.detached, Token.written, spelled]
      | some word =>
          cases word <;> simp [atom?, Token.detached, Token.written, spelled, Expr.detached]
  | _ => rfl

theorem detaches_expressionWithin (depth : Nat) :
    (∀ power, Detaches (expressionWithin depth power) (expressionWithin depth power)
      Expr.detached) ∧
    Detaches (operandWithin depth) (operandWithin depth) Expr.detached ∧
    ∀ power left, Detaches (operatorsWithin depth power left)
      (operatorsWithin depth power left.detached) Expr.detached := by
  induction depth with
  | zero => exact ⟨fun _ => .exhausted, .exhausted, fun _ _ => .exhausted⟩
  | succ depth ih =>
      obtain ⟨expressions, operands, others⟩ := ih
      refine ⟨fun power => ?_, ?_, fun power left => ?_⟩
      · exact operands.bind fun left => others power left
      · unfold operandWithin
        refine .bind .current fun token => .ite .rfl (.fail rfl rfl) ?_
        rw [atom?_detached]
        cases atom? token with
        | some atom => exact .bind .consume fun _ => .pure _ rfl
        | none =>
            refine .ite .rfl ?_ ?_
            · refine .bind .consume fun _ => .bind .skipTrivia ?_
              intro _
              refine (expressions _).bind ?_
              intro _
              refine .bind .skipTrivia ?_
              intro _
              refine .bind (.expect _ _) ?_
              intro _
              exact .pure _ rfl
            · have same : prefixOperator? token.detached = prefixOperator? token := rfl
              rw [same]
              cases prefixOperator? token with
              | some operator =>
                  exact .bind .consume fun _ => (expressions _).bind fun _ => .pure _ rfl
              | none => exact .expected _
      · unfold operatorsWithin
        refine .bind .current ?_
        intro token
        have same : postfixOperator? token.detached = postfixOperator? token := rfl
        rw [same]
        cases postfixOperator? token with
        | some operator => exact .bind .consume fun _ => others power (.postfixed operator left)
        | none =>
            refine .ite .rfl ?_ (.ite .rfl ?_ ?_)
            · refine .bind .consume ?_
              intro _
              refine .bind (.identifier _) ?_
              intro property
              exact others power (.member left property)
            · refine .bind .consume fun _ => (expressions _).list.bind ?_
              intro arguments
              have call := others power (.call left arguments)
              rwa [Expr.detached, Expr.allDetached_eq_map] at call
            · have same : operatorAbove? power token.detached = operatorAbove? power token := rfl
              rw [same]
              cases operatorAbove? power token with
              | some operator =>
                  refine .bind .consume ?_
                  intro _
                  refine .bind .skipTrivia ?_
                  intro _
                  refine (expressions _).bind ?_
                  intro right
                  exact others power (.binary operator left right)
              | none => exact .pure _ rfl

theorem detaches_expression (power : Power) :
    Detaches (expression power) (expression power) Expr.detached := by
  refine .bind .get ?_
  intro state
  rw [State.length_detached]
  exact (detaches_expressionWithin _).1 power

/-! ### Statements -/

theorem detaches_segmentsWithin (depth : Nat) (path : String) :
    Detaches (segmentsWithin path depth) (segmentsWithin path depth) id := by
  induction depth generalizing path with
  | zero => exact .exhausted
  | succ depth ih =>
      refine .bind .current ?_
      intro _
      exact .ite .rfl (.bind .consume fun _ => .bind (.identifier _) fun _ => ih _) (.pure _ rfl)

theorem detaches_useStatement : Detaches useStatement useStatement Stmt.detached := by
  refine .bind .advance fun _ => .bind (.identifier _) fun _ => .bind .get ?_
  intro state
  rw [State.length_detached]
  refine (detaches_segmentsWithin _ _).bind fun _ => .bind .current fun _ => .ite .rfl ?_ ?_
  · exact .bind .consume fun _ => .bind (.identifier _) fun _ => .pure _ rfl
  · exact .pure _ rfl

theorem detaches_typeAndValue : Detaches typeAndValue typeAndValue
    fun (type, value) => (type.map TypeName.detached, value.map Expr.detached) := by
  have values := detaches_expression .lowest
  refine .bind .current fun _ => .ite .rfl ?_ (.bind .current fun _ => .ite .rfl ?_ (.pure _ rfl))
  · exact .bind .consume fun _ => values.bind fun _ => .pure _ rfl
  · refine .bind .consume fun _ => .bind .typeName fun _ => .bind .current ?_
    intro _
    exact .ite .rfl (.bind .consume fun _ => values.bind fun _ => .pure _ rfl) (.pure _ rfl)

theorem detaches_variableStatement :
    Detaches variableStatement variableStatement Stmt.detached := by
  refine .bind .advance fun keyword => .bind (.identifier _) fun name =>
    detaches_typeAndValue.bind fun (type, value) => .ite ?_ (.expected _) (.pure _ rfl)
  cases value <;> rfl

theorem detaches_returnStatement : Detaches returnStatement returnStatement Stmt.detached :=
  .bind .consume fun _ => .bind .current fun _ => .ite .rfl (.pure _ rfl)
    ((detaches_expression _).bind fun _ => .pure _ rfl)

theorem detaches_parameter : Detaches parameter parameter Parameter.detached :=
  .bind (.identifier _) fun _ => .bind (.expect _ _) fun _ => .bind .typeName fun _ => .pure _ rfl

theorem detaches_functionHeader :
    Detaches functionHeader functionHeader FunctionHeader.detached := by
  refine .bind .get fun _ => .bind (.modify fun _ => rfl) fun _ => .bind .advance ?_
  intro _
  refine .bind (.identifier _) fun _ => .bind (.expect _ _) ?_
  intro _
  refine detaches_parameter.list.bind fun _ => .bind .current fun _ => .ite .rfl ?_ (.pure _ rfl)
  exact .bind .consume fun _ => .bind .typeName fun _ => .pure _ rfl

theorem detaches_addModifier (modifier : Modifier) :
    Detaches (addModifier modifier) (addModifier modifier) id := by
  refine .bind .advance fun _ => .bind .get fun _ => .ite .rfl (.fail rfl rfl) ?_
  refine .bind (.modify fun _ => rfl) ?_
  intro _
  refine .bind .current ?_
  intro _
  exact .ite .rfl (.pure _ rfl) (.expected _)

theorem detaches_pattern : Detaches pattern pattern (Option.map Expr.detached) := by
  refine .bind .current fun _ => .ite .rfl ?_ ((detaches_expression _).bind fun _ => ?_)
  · exact .bind .consume fun _ => .bind (.expect _ _) fun _ => .pure _ rfl
  · exact .bind (.expect _ _) fun _ => .pure _ rfl

theorem detaches_statementWithin (depth : Nat) :
    Detaches (statementWithin depth) (statementWithin depth) Stmt.detached ∧
    Detaches (blockWithin depth) (blockWithin depth) Stmt.allDetached ∧
    Detaches (branchWithin depth) (branchWithin depth) (fun (condition, body, alternate) =>
      (condition.detached, Stmt.allDetached body, alternate.detached)) ∧
    Detaches (armWithin depth) (armWithin depth) Arm.detached := by
  induction depth with
  | zero => exact ⟨.exhausted, .exhausted, .exhausted, .exhausted⟩
  | succ depth ih =>
      obtain ⟨statements, bodies, branches, arms⟩ := ih
      have expressions := detaches_expression .lowest
      have skips : Detaches skipToArm skipToArm id := .bind .skipTrivia fun _ => .skipNewlines
      refine ⟨?_, ?_, ?_, ?_⟩
      · refine .bind .current ?_
        intro token
        obtain ⟨kind, value, span⟩ := token
        cases kind with
        | comment => exact .bind .consume fun _ => .pure _ rfl
        | keyword =>
            dsimp only [Token.detached, Token.written]
            generalize Keyword.ofText? value = found
            cases found with
            | none => exact .fail rfl rfl
            | some keyword =>
                cases keyword with
                | function =>
                    refine detaches_functionHeader.bind fun header => .ite .rfl ?_ ?_
                    · exact .bind .current fun _ => .ite .rfl (.expected _) (.pure _ rfl)
                    · exact bodies.bind fun _ => .pure _ rfl
                | pub | external => exact (detaches_addModifier _).bind fun _ => statements
                | ifThen => exact branches.bind fun _ => .pure _ rfl
                | whileLoop =>
                    refine .bind .consume ?_
                    intro _
                    refine expressions.bind ?_
                    intro _
                    refine bodies.bind ?_
                    intro _
                    exact .pure _ rfl
                | returns => exact detaches_returnStatement
                | letBinding | constant => exact detaches_variableStatement
                | switch =>
                    refine .bind .consume fun _ => expressions.bind ?_
                    intro subject
                    refine (arms.block skips).bind fun cases => .pure _ ?_
                    rw [Stmt.detached, Arm.allDetached_eq_map]
                | use => exact detaches_useStatement
                | true | false | null => exact expressions.bind fun _ => .pure _ rfl
                | otherwise | default | as => exact .fail rfl rfl
        | _ => exact expressions.bind fun _ => .pure _ rfl
      · have items : Detaches (do
            let first ← statementWithin depth
            statementEnd
            return first) (do
            let first ← statementWithin depth
            statementEnd
            return first) Stmt.detached :=
          statements.bind fun _ => .bind .statementEnd fun _ => .pure _ rfl
        have body := items.block .skipNewlines
        rwa [← funext Stmt.allDetached_eq_map] at body
      · refine .bind .consume fun _ => expressions.bind fun condition => bodies.bind ?_
        intro body
        refine .bind .get ?_
        intro state
        rw [State.peekPastNewlines_detached]
        refine .ite .rfl ?_ (.pure _ rfl)
        refine .bind .skipNewlines fun _ => .bind .consume fun _ => .bind .current ?_
        intro _
        exact .ite .rfl (branches.bind fun _ => .pure _ rfl) (bodies.bind fun _ => .pure _ rfl)
      · refine detaches_pattern.bind ?_
        intro found
        cases found with
        | none => exact bodies.bind fun _ => .pure _ rfl
        | some value => exact bodies.bind fun _ => .pure _ rfl

theorem detaches_programWithin (depth : Nat) :
    Detaches (programWithin depth) (programWithin depth) Program.detached := by
  induction depth with
  | zero => exact .exhausted
  | succ depth ih =>
      have statements : Detaches statement statement Stmt.detached := by
        refine .bind .get ?_
        intro state
        rw [State.depth, State.depth, State.length_detached]
        exact (detaches_statementWithin _).1
      refine .bind .skipNewlines fun _ => .bind .get fun state => .ite ?_ (.pure _ rfl) ?_
      · rw [State.atEnd, State.atEnd, State.current_detached]
        rfl
      · exact statements.bind fun _ => .bind .statementEnd fun _ => ih.bind fun _ => .pure _ rfl

end Parse

open Parse

theorem Program.toOption_parse (tokens : List Token) :
    (Program.parse tokens).toOption =
      match Parse.program (.ofTokens tokens) with
      | .ok program _ => some program
      | .error _ _ => none := by
  cases result : Parse.program (.ofTokens tokens) with
  | ok program after => rw [parse_eq_ok_iff.mpr ⟨after, result⟩]; rfl
  | error halt after =>
      cases parsed : Program.parse tokens with
      | error error => rfl
      | ok program =>
          obtain ⟨_, result'⟩ := parse_eq_ok_iff.mp parsed
          rw [result] at result'
          cases result'

theorem Program.parse_detached (tokens : List Token) :
    (Program.parse (tokens.map Token.detached)).toOption =
      (Program.parse tokens).toOption.map Program.detached := by
  have detaches : Detaches Parse.program Parse.program Program.detached := by
    refine .bind .get ?_
    intro state
    rw [State.length_detached]
    exact detaches_programWithin _
  rw [toOption_parse, toOption_parse, State.ofTokens_detached, detaches]
  cases Parse.program (.ofTokens tokens) <;> rfl

namespace Token

private theorem detached_cons {token token' : Token} {scanned scanned' : Except Error (List Token)}
    (same : token'.detached = token.detached)
    (later : scanned'.toOption.map (List.map detached) =
      scanned.toOption.map (List.map detached)) :
    (scanned'.map (token' :: ·)).toOption.map (List.map detached) =
      (scanned.map (token :: ·)).toOption.map (List.map detached) := by
  cases scanned <;> cases scanned' <;> simp_all [Except.map, Except.toOption]

/-- The name of a file counts for the positions of its tokens only. -/
theorem scanFrom_detached (file file' : String) (offset : Nat) (open? : Bool) (text : List Char) :
    (scanFrom file' offset open? text).toOption.map (List.map detached) =
      (scanFrom file offset open? text).toOption.map (List.map detached) := by
  fun_induction scanFrom file offset open? text with
  | case1 offset open? =>
      rw [scanFrom]
      rfl
  | case2 offset open? first rest unread fails =>
      rw [scanFrom, fails]
      rfl
  | case3 offset open? first rest lexeme read next span later kind value content ih =>
      rw [scanFrom, read]
      simp only [content]
      exact detached_cons rfl ih
  | case4 offset first rest lexeme read next span later content ih =>
      rw [scanFrom, read]
      simp only [content]
      exact detached_cons rfl ih
  | case5 offset open? first rest lexeme read next later content closed ih =>
      rw [scanFrom, read]
      simp only [content]
      rwa [if_neg closed]
  | case6 offset open? first rest lexeme read next later content ih =>
      rw [scanFrom, read]
      simp only [content]
      exact ih

end Token

/-- Under any name, a file spells the same program up to the positions in it. -/
theorem Program.read_detached (source file file' : String) :
    (Program.read source file').toOption.map Program.detached =
      (Program.read source file).toOption.map Program.detached := by
  have parts (file : String) : (Program.read source file).toOption.map Program.detached =
      ((Token.scan source file).toOption.map (List.map Token.detached)).bind fun tokens =>
        (Program.parse tokens).toOption := by
    unfold Program.read
    cases Token.scan source file with
    | error error => rfl
    | ok tokens => exact (parse_detached tokens).symm
  rw [parts, parts]
  exact congrArg (Option.bind · _) (Token.scanFrom_detached file file' 0 false source.toList)

end SmallLang
