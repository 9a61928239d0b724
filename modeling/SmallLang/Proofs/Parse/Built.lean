import SmallLang.Parse.Program

/-!
# What the parser builds

The parser takes every name from an identifier and every position from a token, and no modifier
waits twice for its function. A property of trees that survives each step in which the parser puts
one together therefore holds of whole programs. The parser is walked through once for all such
properties.
-/

set_option autoImplicit false

namespace SmallLang

section Given

variable (word : String → Prop) (place : Position → Prop)

/-- A token that stands at a place, and is a word if it is an identifier. -/
structure Token.Given (token : Token) : Prop where
  spelled : token.kind = .identifier → word token.value
  stands : place token.position

/-- What a parser is given: tokens at places, the identifiers among them words, and modifiers of
which none waits twice. -/
structure Parse.State.Given (state : State) : Prop where
  rest : ∀ token ∈ state.rest, token.Given word place
  stop : place state.stop.position
  pending : state.pending.Nodup

/-- A result with a value of some property, with what is given to the next parser, or with a place
to blame. -/
def Parse.EndsIn {α : Type} (property : α → Prop) : EStateM.Result Halt State α → Prop
  | .ok value after => property value ∧ after.Given word place
  | .error (.error error) _ => place error.position
  | .error .exhausted _ => True

/-- From what it is given a parser makes something that has a property, or it blames a place. -/
def Parse.Makes {α : Type} (parser : Parse α) (property : α → Prop) : Prop :=
  ∀ state, State.Given word place state → EndsIn word place property (parser state)

end Given

/-! ### Trees by their parts -/

section Parts

variable (word : String → Prop) (place : Position → Prop)

/-- The path of a module: words with slashes between them. -/
inductive Use.IsPath : String → Prop
  | first {name : String} : word name → IsPath name
  | step {path segment : String} : IsPath path → word segment → IsPath (path ++ "/" ++ segment)

/-- The use of a module as it is read. -/
structure Use.Formed (used : Use) : Prop where
  path : Use.IsPath word used.path
  rename : ∀ name ∈ used.rename, word name
  position : place used.position

/-- A parameter as it is read. -/
structure Parameter.Formed (param : Parameter) : Prop where
  name : word param.name
  position : place param.typeName.position

/-- A function header as it is read. -/
structure FunctionHeader.Formed (header : FunctionHeader) : Prop where
  name : word header.name
  parameters : ∀ param ∈ header.parameters, param.Formed word place
  returns : ∀ typeName ∈ header.returns, place typeName.position
  modifiers : header.modifiers.Nodup
  position : place header.position
  unresolved : header.resolved = none

/-- A variable as it is read, with a good value. -/
structure Variable.Formed (good : Expr → Prop) (decl : Variable) : Prop where
  name : word decl.name
  typeName : ∀ typeName ∈ decl.typeName, place typeName.position
  value : ∀ value ∈ decl.value, good value
  constant : decl.mutable = false → decl.value.isSome
  position : place decl.position
  unresolved : decl.resolved = none

/-- A property of expressions that survives each step of the parser. -/
structure Parse.ExprForms (good : Expr → Prop) : Prop where
  number : ∀ {text}, Number.isValid text = true → good (.number text)
  string : ∀ value, good (.string value)
  boolean : ∀ value, good (.boolean value)
  null : good .null
  identifier : ∀ {name position}, word name → place position → good (.identifier name position)
  member : ∀ {object property}, good object → word property → good (.member object property)
  call : ∀ {callee arguments}, good callee → (∀ e ∈ arguments, good e) →
    good (.call callee arguments)
  binary : ∀ {operator left right}, good left → good right → good (.binary operator left right)
  prefixed : ∀ {operator operand}, good operand → good (.prefixed operator operand)
  postfixed : ∀ {operator operand}, good operand → good (.postfixed operator operand)

/-- Properties of statements, of what follows a branch and of arms that survive each step of the
parser, beside one of expressions. -/
structure Parse.Forms (good : Expr → Prop) (stmt : Stmt → Prop) (alternate : Alternate → Prop)
    (arm : Arm → Prop) : Prop extends Parse.ExprForms word place good where
  expr : ∀ {e}, good e → stmt (.expr e)
  comment : ∀ text, stmt (.comment text)
  use : ∀ {used : Use}, used.Formed word place → stmt (.use used)
  returns : ∀ {value}, (∀ e ∈ value, good e) → stmt (.returns value)
  declare : ∀ {decl : Variable}, decl.Formed word place good → stmt (.declare decl)
  prototype : ∀ {header : FunctionHeader}, header.Formed word place → header.isExternal = true →
    stmt (.function header none)
  function : ∀ {header : FunctionHeader} {body}, header.Formed word place →
    header.isExternal = false → (∀ s ∈ body, stmt s) → stmt (.function header (some body))
  branch : ∀ {condition body next}, good condition → (∀ s ∈ body, stmt s) → alternate next →
    stmt (.branch condition body next)
  loop : ∀ {condition body}, good condition → (∀ s ∈ body, stmt s) → stmt (.loop condition body)
  switch : ∀ {subject arms}, good subject → (∀ single ∈ arms, arm single) →
    stmt (.switch subject arms)
  done : alternate .none
  elseBranch : ∀ {condition body next}, good condition → (∀ s ∈ body, stmt s) → alternate next →
    alternate (.elseBranch condition body next)
  otherwise : ∀ {body}, (∀ s ∈ body, stmt s) → alternate (.otherwise body)
  value : ∀ {pattern body}, good pattern → (∀ s ∈ body, stmt s) → arm (.value pattern body)
  default : ∀ {body}, (∀ s ∈ body, stmt s) → arm (.otherwise body)

/-- Where nothing is asked of expressions, nothing is to be shown of them. -/
theorem Parse.ExprForms.anything : Parse.ExprForms word place fun _ => True := by
  constructor <;> intros <;> trivial

end Parts

namespace Parse

variable {α β : Type} {word : String → Prop} {place : Position → Prop}

theorem State.Given.current {state : State} (given : state.Given word place) :
    state.current.Given word place := by
  unfold State.current
  cases tokens : state.rest with
  | nil =>
      refine ⟨fun isWord => ?_, given.stop⟩
      rw [List.headD_nil, state.stop_kind] at isWord
      cases isWord
  | cons first rest => exact given.rest first (tokens ▸ List.mem_cons_self)

theorem State.Given.suffix {state after : State} (given : state.Given word place)
    (suffix : after.rest <:+ state.rest) (stop : after.stop = state.stop)
    (pending : after.pending = state.pending) : after.Given word place :=
  ⟨fun token present => given.rest token (suffix.mem present), stop ▸ given.stop,
    pending ▸ given.pending⟩

/-- Other modifiers wait. -/
theorem State.Given.waiting {state : State} {modifiers : List Modifier}
    (given : state.Given word place) (nodup : modifiers.Nodup) :
    State.Given word place { state with pending := modifiers } :=
  ⟨given.rest, given.stop, nodup⟩

namespace Makes

variable {property : α → Prop}

theorem pure {value : α} (holds : property value) : Makes word place (Pure.pure value) property :=
  fun _ given => ⟨holds, given⟩

theorem exhausted : Makes word place Parse.exhausted property := fun _ _ => trivial

theorem fail {error : Error} (stands : place error.position) :
    Makes word place (Parse.fail error) property :=
  fun _ _ => stands

theorem expected {what : String} : Makes word place (Parse.expected what) property := by
  intro state given
  change place (state.expectation what).position
  unfold State.expectation
  dsimp only
  split
  · exact given.current.stands
  · exact given.current.stands

theorem bind {parser : Parse α} {next : α → Parse β} {middle : α → Prop} {property : β → Prop}
    (first : Makes word place parser middle)
    (second : ∀ value, middle value → Makes word place (next value) property) :
    Makes word place (parser >>= next) property := by
  intro state given
  have begins := first state given
  change EndsIn word place property (EStateM.bind parser next state)
  unfold EStateM.bind
  cases result : parser state with
  | ok value between =>
      rw [result] at begins
      exact second value begins.1 between begins.2
  | error halt between =>
      rw [result] at begins
      cases halt with
      | error error => exact begins
      | exhausted => trivial

/-- What comes before does not matter to what is made. -/
theorem after {first : Parse β} {next : β → Parse α} {middle : β → Prop}
    (begins : Makes word place first middle)
    (goesOn : ∀ value, Makes word place (next value) property) :
    Makes word place (first >>= next) property :=
  begins.bind fun value _ => goesOn value

theorem ite {condition : Prop} [Decidable condition] {yes no : Parse α}
    (first : Makes word place yes property) (second : Makes word place no property) :
    Makes word place (if condition then yes else no) property := by
  split
  · exact first
  · exact second

/-- A step that always ends with a value. -/
theorem of_step {parser : Parse α} {value : State → α} {change : State → State}
    (step : ∀ state, parser state = .ok (value state) (change state))
    (holds : ∀ state, state.Given word place →
      property (value state) ∧ (change state).Given word place) :
    Makes word place parser property := by
  intro state given
  rw [step]
  exact holds state given

theorem get : Makes word place (MonadStateOf.get : Parse State) (State.Given word place) :=
  of_step (fun _ => rfl) fun _ given => ⟨given, given⟩

theorem current : Makes word place Parse.current (Token.Given word place) :=
  of_step (fun _ => rfl) fun _ given => ⟨given.current, given⟩

theorem advance : Makes word place Parse.advance (Token.Given word place) :=
  of_step (fun _ => rfl) fun state given =>
    ⟨given.current, given.suffix state.advance_suffix rfl rfl⟩

theorem consume : Makes word place Parse.consume fun _ => True :=
  of_step (fun _ => rfl) fun state given => ⟨trivial, given.suffix state.advance_suffix rfl rfl⟩

theorem skipTrivia : Makes word place Parse.skipTrivia fun _ => True :=
  of_step (fun _ => rfl) fun _ given =>
    ⟨trivial, given.suffix (List.dropWhile_suffix _) rfl rfl⟩

theorem skipNewlines : Makes word place Parse.skipNewlines fun _ => True :=
  of_step (fun _ => rfl) fun _ given =>
    ⟨trivial, given.suffix (List.dropWhile_suffix _) rfl rfl⟩

theorem expect (kind : Token.Kind) (value : String) :
    Makes word place (Parse.expect kind value) (Token.Given word place) :=
  after current fun _ => ite advance expected

theorem identifier (what : String) : Makes word place (Parse.identifier what) word := by
  intro state given
  change EndsIn word place word ((if state.current.kind == .identifier then
    (do return (← Parse.advance).value) else Parse.expected what : Parse String) state)
  by_cases isWord : (state.current.kind == .identifier) = true
  · rw [if_pos isWord]
    exact ⟨given.current.spelled (beq_iff_eq.mp isWord),
      given.suffix state.advance_suffix rfl rfl⟩
  · rw [if_neg isWord]
    exact expected state given

theorem typeName : Makes word place Parse.typeName fun found => place found.position :=
  current.bind fun _ token => ite (after consume fun _ => pure token.stands) expected

theorem statementEnd : Makes word place Parse.statementEnd fun _ => True := by
  refine after current ?_
  intro token
  split
  · exact consume
  · exact pure trivial
  · exact pure trivial
  · exact ite consume (ite (pure trivial) expected)
  · exact expected

theorem listSeparator : Makes word place Parse.listSeparator fun _ => True :=
  after current fun _ => ite consume (ite (pure trivial) expected)

theorem listItems {item : Parse α} (items : Makes word place item property) (depth : Nat) :
    Makes word place (Parse.listItems item depth)
      fun values => ∀ value ∈ values, property value := by
  induction depth with
  | zero => exact exhausted
  | succ depth ih =>
      refine after skipTrivia fun _ => after current fun _ => ite (pure (List.forall_mem_nil _)) ?_
      refine items.bind fun first holds => after skipTrivia fun _ => after listSeparator ?_
      intro _
      exact ih.bind fun rest holds' => pure (List.forall_mem_cons.mpr ⟨holds, holds'⟩)

theorem list {item : Parse α} (items : Makes word place item property) :
    Makes word place (Parse.list item) fun values => ∀ value ∈ values, property value :=
  after get fun _ => (items.listItems _).bind fun _ holds => after (expect _ _) fun _ => pure holds

theorem blockItems {skip : Parse Unit} {skipped : Unit → Prop}
    (skips : Makes word place skip skipped) {item : Parse α}
    (items : Makes word place item property) (depth : Nat) :
    Makes word place (Parse.blockItems skip item depth)
      fun values => ∀ value ∈ values, property value := by
  induction depth with
  | zero => exact exhausted
  | succ depth ih =>
      refine after skips fun _ => after current fun _ => ite ?_ (after get fun _ => ite expected ?_)
      · exact after consume fun _ => pure (List.forall_mem_nil _)
      · refine items.bind ?_
        intro first holds
        refine ih.bind ?_
        intro rest holds'
        exact pure (List.forall_mem_cons.mpr ⟨holds, holds'⟩)

theorem block {skip : Parse Unit} {skipped : Unit → Prop} (skips : Makes word place skip skipped)
    {item : Parse α} (items : Makes word place item property) :
    Makes word place (Parse.block skip item) fun values => ∀ value ∈ values, property value :=
  after (expect _ _) fun _ => after get fun _ => blockItems skips items _

end Makes

/-! ### Headers -/

theorem makes_segmentsWithin (path : String) (depth : Nat) (isPath : Use.IsPath word path) :
    Makes word place (segmentsWithin path depth) (Use.IsPath word) := by
  induction depth generalizing path with
  | zero => exact .exhausted
  | succ depth ih =>
      unfold segmentsWithin
      refine .after .current fun _ => .ite ?_ (.pure isPath)
      refine .after .consume fun _ => (Makes.identifier _).bind ?_
      intro segment spelled
      exact ih _ (isPath.step spelled)

theorem makes_parameter : Makes word place parameter (Parameter.Formed word place) :=
  (Makes.identifier _).bind fun _ spelled => .after (.expect _ _) fun _ =>
    Makes.typeName.bind fun _ stands => .pure ⟨spelled, stands⟩

theorem makes_functionHeader :
    Makes word place functionHeader (FunctionHeader.Formed word place) := by
  unfold functionHeader
  refine Makes.get.bind ?_
  intro state given
  have taken : Makes word place
      (modify fun state => { state with pending := [] } : Parse PUnit) fun _ => True :=
    .of_step (fun _ => rfl) fun _ given => ⟨trivial, given.waiting List.nodup_nil⟩
  refine .after taken fun _ => Makes.advance.bind ?_
  intro keyword at'
  refine (Makes.identifier _).bind fun name spelled => .after (.expect _ _) ?_
  intro _
  refine makes_parameter.list.bind fun params formed => .after .current fun _ => .ite ?_ (.pure ?_)
  · refine .after .consume fun _ => Makes.typeName.bind fun typeName stands => .pure ?_
    refine ⟨spelled, formed, fun found same => ?_, given.pending, at'.stands, rfl⟩
    cases same
    exact stands
  · exact ⟨spelled, formed, nofun, given.pending, at'.stands, rfl⟩

/-- A modifier that waits already is to blame, so that none comes to wait twice. -/
theorem makes_addModifier (modifier : Modifier) :
    Makes word place (addModifier modifier) fun _ => True := by
  unfold addModifier
  refine Makes.advance.bind ?_
  intro token at' state given
  change EndsIn word place _ ((if state.pending.contains modifier then _ else _ : Parse Unit) state)
  by_cases used : state.pending.contains modifier = true
  · rw [if_pos used]
    exact at'.stands
  · rw [if_neg used]
    have nodup : (state.pending ++ [modifier]).Nodup := by
      rw [List.contains_iff_mem] at used
      simp [List.nodup_append, given.pending]
      exact fun other present same => used (same ▸ present)
    have rest : Makes word place (do
        let next ← Parse.current
        if next.isKeyword "fn" || next.isKeyword "pub" || next.isKeyword "extern" then return
        else Parse.expected "`fn` after modifier") fun _ => True :=
      .after .current fun _ => .ite (.pure trivial) .expected
    exact rest { state with pending := state.pending ++ [modifier] } (given.waiting nodup)

/-! ### Expressions -/

namespace ExprForms

variable {good : Expr → Prop} (forms : ExprForms word place good)

include forms

/-- An atom is a number only if it can be read as one. -/
theorem good_of_atom? {token : Token} {atom : Expr} (given : token.Given word place)
    (valid : token.kind = .number → Number.isValid token.value = true)
    (found : Parse.atom? token = some atom) : good atom := by
  unfold Parse.atom? at found
  split at found
  · next isNumber =>
      cases found
      exact forms.number (valid isNumber)
  · cases found
    exact forms.string _
  · next isWord =>
      cases found
      exact forms.identifier (given.spelled isWord) given.stands
  · split at found <;> cases found
    · exact forms.boolean _
    · exact forms.boolean _
    · exact forms.null
  · cases found

theorem makes_expressionWithin (depth : Nat) :
    (∀ power, Makes word place (expressionWithin depth power) good) ∧
      Makes word place (operandWithin depth) good ∧
      ∀ power left, good left → Makes word place (operatorsWithin depth power left) good := by
  induction depth with
  | zero => exact ⟨fun _ => .exhausted, .exhausted, fun _ _ _ => .exhausted⟩
  | succ depth ih =>
      obtain ⟨expressions, operands, others⟩ := ih
      refine ⟨fun power => ?_, ?_, fun power left built => ?_⟩
      · exact operands.bind fun left built => others power left built
      · unfold operandWithin
        refine Makes.current.bind ?_
        intro token given
        by_cases malformed : (token.kind == .number && !Number.isValid token.value) = true
        · rw [if_pos malformed]
          exact .fail given.stands
        · rw [if_neg malformed]
          split
          · next atom found =>
              refine .after .consume fun _ => .pure ?_
              refine forms.good_of_atom? given (fun isNumber => ?_) found
              simpa [isNumber] using malformed
          · refine .ite ?_ ?_
            · refine .after .consume fun _ => .after .skipTrivia ?_
              intro _
              refine (expressions _).bind fun inner built => .after .skipTrivia ?_
              intro _
              exact .after (.expect _ _) fun _ => .pure built
            · split
              · refine .after .consume ?_
                intro _
                refine (expressions _).bind ?_
                intro operand built
                exact .pure (forms.prefixed built)
              · exact .expected
      · unfold operatorsWithin
        refine .after .current ?_
        intro token
        split
        · exact .after .consume fun _ => others power _ (forms.postfixed built)
        · refine .ite ?_ (.ite ?_ ?_)
          · refine .after .consume ?_
            intro _
            refine (Makes.identifier _).bind ?_
            intro property spelled
            exact others power _ (forms.member built spelled)
          · refine .after .consume ?_
            intro _
            refine (expressions _).list.bind ?_
            intro arguments all
            exact others power _ (forms.call built all)
          · split
            · refine .after .consume ?_
              intro _
              refine .after .skipTrivia ?_
              intro _
              refine (expressions _).bind ?_
              intro right built'
              exact others power _ (forms.binary built built')
            · exact .pure built

theorem makes_expression (power : Power) : Makes word place (expression power) good :=
  .after .get fun _ => (forms.makes_expressionWithin _).1 power

theorem makes_typeAndValue : Makes word place typeAndValue fun found =>
    (∀ typeName ∈ found.1, place typeName.position) ∧ ∀ value ∈ found.2, good value := by
  have one {γ : Type} {good : γ → Prop} {value : γ} (holds : good value) :
      ∀ found ∈ some value, good found := by
    intro found same
    cases same
    exact holds
  unfold typeAndValue
  refine .after .current fun _ => .ite ?_ (.after .current fun _ => .ite ?_ (.pure ⟨nofun, nofun⟩))
  · refine .after .consume ?_
    intro _
    refine (forms.makes_expression _).bind ?_
    intro value built
    exact .pure ⟨nofun, one built⟩
  · refine .after .consume fun _ => Makes.typeName.bind ?_
    intro typeName stands
    refine .after .current fun _ => .ite ?_ (.pure ⟨one stands, nofun⟩)
    refine .after .consume ?_
    intro _
    refine (forms.makes_expression _).bind ?_
    intro value built
    exact .pure ⟨one stands, one built⟩

theorem makes_pattern : Makes word place pattern fun found => ∀ value ∈ found, good value := by
  unfold pattern
  refine .after .current fun _ => .ite ?_ ((forms.makes_expression _).bind fun value built => ?_)
  · exact .after .consume fun _ => .after (.expect _ _) fun _ => .pure nofun
  · refine .after (.expect _ _) fun _ => .pure ?_
    intro found same
    cases same
    exact built

end ExprForms

/-! ### Statements -/

namespace Forms

variable {good : Expr → Prop} {stmt : Stmt → Prop} {alternate : Alternate → Prop}
  {arm : Arm → Prop} (forms : Forms word place good stmt alternate arm)

include forms

theorem makes_useStatement : Makes word place useStatement stmt := by
  unfold useStatement
  refine Makes.advance.bind fun token given => (Makes.identifier _).bind ?_
  intro first spelled
  refine .after .get fun _ => (makes_segmentsWithin _ _ (.first spelled)).bind ?_
  intro path isPath
  refine .after .current fun _ => .ite ?_ (.pure (forms.use ⟨isPath, nofun, given.stands⟩))
  refine .after .consume fun _ => (Makes.identifier _).bind fun name spelled' => .pure ?_
  refine forms.use ⟨isPath, fun found same => ?_, given.stands⟩
  cases same
  exact spelled'

theorem makes_variableStatement : Makes word place variableStatement stmt := by
  unfold variableStatement
  refine Makes.advance.bind fun keyword given => (Makes.identifier _).bind ?_
  intro name spelled
  refine forms.makes_typeAndValue.bind fun (type, value) built => ?_
  dsimp only
  split
  · exact .expected
  · next constant =>
      refine .pure (forms.declare
        ⟨spelled, built.1, built.2, fun notMutable => ?_, given.stands, rfl⟩)
      dsimp only at notMutable ⊢
      rw [notMutable] at constant
      simpa [Option.isSome_iff_ne_none] using constant

theorem makes_returnStatement : Makes word place returnStatement stmt := by
  unfold returnStatement
  refine .after .consume fun _ => .after .current fun _ => .ite (.pure (forms.returns nofun)) ?_
  refine (forms.makes_expression _).bind fun value built => .pure (forms.returns fun e same => ?_)
  cases same
  exact built

theorem makes_statementWithin (depth : Nat) :
    Makes word place (statementWithin depth) stmt ∧
      Makes word place (blockWithin depth) (fun body => ∀ s ∈ body, stmt s) ∧
      Makes word place (branchWithin depth) (fun built =>
        good built.1 ∧ (∀ s ∈ built.2.1, stmt s) ∧ alternate built.2.2) ∧
      Makes word place (armWithin depth) arm := by
  induction depth with
  | zero => exact ⟨.exhausted, .exhausted, .exhausted, .exhausted⟩
  | succ depth ih =>
      obtain ⟨statements, blocks, branches, arms⟩ := ih
      have values : Makes word place (do return Stmt.expr (← expression .lowest)) stmt :=
        (forms.makes_expression _).bind fun _ built => .pure (forms.expr built)
      refine ⟨?_, ?_, ?_, ?_⟩
      · unfold statementWithin
        refine Makes.current.bind ?_
        intro token given
        split
        · split
          · refine makes_functionHeader.bind ?_
            intro header formed
            split
            · next external =>
                refine .after .current ?_
                intro _
                exact .ite .expected (.pure (forms.prototype formed external))
            · next internal =>
                refine blocks.bind ?_
                intro body built
                exact .pure (forms.function formed (Bool.eq_false_iff.mpr internal) built)
          · exact .after (makes_addModifier _) fun _ => statements
          · exact .after (makes_addModifier _) fun _ => statements
          · exact branches.bind fun (condition, body, next) ⟨built, built', next'⟩ =>
              .pure (forms.branch built built' next')
          · refine .after .consume ?_
            intro _
            refine (forms.makes_expression _).bind ?_
            intro condition built
            refine blocks.bind ?_
            intro body built'
            exact .pure (forms.loop built built')
          · exact forms.makes_returnStatement
          · exact forms.makes_variableStatement
          · exact forms.makes_variableStatement
          · refine .after .consume fun _ => (forms.makes_expression _).bind ?_
            intro subject built
            have skips : Makes word place skipToArm fun _ => True :=
              .after .skipTrivia fun _ => .skipNewlines
            exact (Makes.block skips arms).bind fun _ built' => .pure (forms.switch built built')
          · exact forms.makes_useStatement
          · exact values
          · exact values
          · exact values
          all_goals exact .fail given.stands
        · exact .after .consume fun _ => .pure (forms.comment _)
        · exact values
      · unfold blockWithin
        exact .block .skipNewlines
          (statements.bind fun _ built => .after .statementEnd fun _ => .pure built)
      · unfold branchWithin
        refine .after .consume fun _ => (forms.makes_expression _).bind ?_
        intro condition built
        refine blocks.bind fun body built' => .after .get ?_
        intro _
        refine .ite ?_ (.pure ⟨built, built', forms.done⟩)
        refine .after .skipNewlines fun _ => .after .consume fun _ => .after .current ?_
        intro _
        refine .ite ?_ ?_
        · exact branches.bind fun (condition', body', next) ⟨inner, inner', next'⟩ =>
            .pure ⟨built, built', forms.elseBranch inner inner' next'⟩
        · exact blocks.bind fun _ inner => .pure ⟨built, built', forms.otherwise inner⟩
      · unfold armWithin
        refine forms.makes_pattern.bind ?_
        intro pattern built
        split
        · next value =>
            exact blocks.bind fun _ built' => .pure (forms.value (built value rfl) built')
        · exact blocks.bind fun _ built' => .pure (forms.default built')

theorem makes_programWithin (depth : Nat) :
    Makes word place (programWithin depth) fun program => ∀ s ∈ program, stmt s := by
  induction depth with
  | zero => exact .exhausted
  | succ depth ih =>
      unfold programWithin
      refine .after .skipNewlines fun _ => .after .get fun _ =>
        .ite (.pure (List.forall_mem_nil _)) ?_
      have statements : Makes word place statement stmt := .after .get fun _ =>
        (forms.makes_statementWithin _).1
      refine statements.bind fun first built => .after .statementEnd ?_
      intro _
      exact ih.bind fun rest built' => .pure (List.forall_mem_cons.mpr ⟨built, built'⟩)

theorem makes_program : Makes word place program fun program => ∀ s ∈ program, stmt s :=
  .after .get fun _ => forms.makes_programWithin _

end Forms

end Parse

section Programs

variable {word : String → Prop} {place : Position → Prop} {tokens : List Token}

theorem Parse.given_ofTokens (given : ∀ token ∈ tokens, token.Given word place)
    (stop : place (State.stopOf tokens).position) :
    (State.ofTokens tokens).Given word place :=
  ⟨fun token present => given token ((List.takeWhile_sublist _).mem present), stop,
    List.nodup_nil⟩

variable {good : Expr → Prop} {stmt : Stmt → Prop} {alternate : Alternate → Prop}
  {arm : Arm → Prop}

/-- What survives each step of the parser holds of every program that it reads. -/
theorem Parse.Forms.of_parse {program : Program} (forms : Forms word place good stmt alternate arm)
    (given : ∀ token ∈ tokens, token.Given word place)
    (stop : place (State.stopOf tokens).position)
    (parsed : Program.parse tokens = .ok program) : ∀ s ∈ program, stmt s := by
  obtain ⟨after, result⟩ := Program.parse_eq_ok_iff.mp parsed
  have made := forms.makes_program _ (given_ofTokens given stop)
  rw [result] at made
  exact made.1

end Programs

end SmallLang
