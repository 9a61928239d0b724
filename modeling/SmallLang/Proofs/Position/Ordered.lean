import SmallLang.Proofs.Comment.Statements
import SmallLang.Proofs.Module.Replaces
import SmallLang.Proofs.Token.Tiled

/-!
# The order of a source in its tree

Read from the left to the right, the names in a tree and the keywords of its declarations stand
where they do in the source: each of them behind those before it. For a parser takes tokens one
after the other, and builds up a tree in the same order.
-/

set_option autoImplicit false

namespace SmallLang

/-! ### Marks in trees -/

mutual

/-- The identifiers in an expression and where they stand, from the left to the right. The name of
a member is none. -/
def Expr.identifiers : Expr → List (String × Position)
  | .identifier name position => [(name, position)]
  | .member object _ => object.identifiers
  | .call callee arguments => callee.identifiers ++ Expr.allIdentifiers arguments
  | .binary _ left right => left.identifiers ++ right.identifiers
  | .prefixed _ operand => operand.identifiers
  | .postfixed _ operand => operand.identifiers
  | .number _ | .string _ | .boolean _ | .null => []

def Expr.allIdentifiers : List Expr → List (String × Position)
  | [] => []
  | first :: rest => first.identifiers ++ Expr.allIdentifiers rest

end

/-- Where the identifiers of an expression stand. -/
def Expr.marks (e : Expr) : List Position := e.identifiers.map Prod.snd

/-- Where the identifiers of some expressions stand. -/
def Expr.allMarks (expressions : List Expr) : List Position :=
  (Expr.allIdentifiers expressions).map Prod.snd

namespace Expr

@[simp] theorem marks_call (callee : Expr) (arguments : List Expr) :
    (Expr.call callee arguments).marks = callee.marks ++ Expr.allMarks arguments :=
  List.map_append

@[simp] theorem marks_binary (operator : BinaryOperator) (left right : Expr) :
    (Expr.binary operator left right).marks = left.marks ++ right.marks :=
  List.map_append

@[simp] theorem allMarks_cons (first : Expr) (rest : List Expr) :
    Expr.allMarks (first :: rest) = first.marks ++ Expr.allMarks rest :=
  List.map_append

theorem allMarks_eq_flatMap (expressions : List Expr) :
    Expr.allMarks expressions = expressions.flatMap Expr.marks := by
  induction expressions with
  | nil => rfl
  | cons first rest ih => rw [allMarks_cons, List.flatMap_cons, ih]

/-- Where the identifiers of an expression stand, if there is one. -/
def marks? : Option Expr → List Position
  | none => []
  | some e => e.marks

end Expr

mutual

/-- Where the identifiers in a statement stand, and the keywords of its declarations and uses, from
the left to the right. -/
def Stmt.marks : Stmt → List Position
  | .expr e => e.marks
  | .comment _ => []
  | .use used => [used.position]
  | .parameter param => [param.typeName.position]
  | .returns value => Expr.marks? value
  | .declare decl => decl.position :: Expr.marks? decl.value
  | .function header none => [header.position]
  | .function header (some body) => header.position :: Stmt.allMarks body
  | .branch condition body alternate => condition.marks ++ (Stmt.allMarks body ++ alternate.marks)
  | .loop condition body => condition.marks ++ Stmt.allMarks body
  | .switch subject arms => subject.marks ++ Arm.allMarks arms
  | .arm single => single.marks
  | .merged body => Stmt.allMarks body

def Alternate.marks : Alternate → List Position
  | .none => []
  | .elseBranch condition body alternate =>
      condition.marks ++ (Stmt.allMarks body ++ alternate.marks)
  | .otherwise body => Stmt.allMarks body

def Arm.marks : Arm → List Position
  | .value pattern body => pattern.marks ++ Stmt.allMarks body
  | .otherwise body => Stmt.allMarks body

def Stmt.allMarks : List Stmt → List Position
  | [] => []
  | first :: rest => first.marks ++ Stmt.allMarks rest

def Arm.allMarks : List Arm → List Position
  | [] => []
  | first :: rest => first.marks ++ Arm.allMarks rest

end

theorem Stmt.allMarks_eq_flatMap (body : List Stmt) :
    Stmt.allMarks body = body.flatMap Stmt.marks := by
  induction body with
  | nil => rfl
  | cons first rest ih => rw [Stmt.allMarks, List.flatMap_cons, ih]

theorem Arm.allMarks_eq_flatMap (arms : List Arm) :
    Arm.allMarks arms = arms.flatMap Arm.marks := by
  induction arms with
  | nil => rfl
  | cons first rest ih => rw [Arm.allMarks, List.flatMap_cons, ih]

namespace Parse

variable {α β : Type}

/-! ### States -/

namespace State

variable {state after : State}

/-- Where the words, the numbers and the symbols ahead stand. -/
def ahead (state : State) : List Position :=
  (state.rest.filter (·.kind.isSpelled)).map (·.position)

theorem ahead_sublist (suffix : after.rest <:+ state.rest) : after.ahead.Sublist state.ahead :=
  (suffix.sublist.filter _).map _

theorem ahead_cons (spelled : state.current.kind.isSpelled = true) :
    state.ahead = state.current.position :: state.advance.ahead := by
  have more : state.current.kind ≠ .endOfInput := by
    intro ended
    rw [ended] at spelled
    cases spelled
  obtain ⟨later, rest⟩ := exists_rest_of_more more
  have advanced : state.advance.rest = later := by rw [advance, rest, List.tail_cons]
  rw [ahead, ahead, advanced, rest, List.filter_cons, if_pos spelled, List.map_cons]

end State

/-! ### Parsers -/

section InOrder

variable (before : List Position) (parser : Parse α) (marks : α → List Position)

/-- If a parser succeeds from a state, then the marks of its value, with what is still ahead, are
among the marks of before, with what was ahead, and in the same order. -/
def InOrderAt (state : State) : Prop :=
  ∀ value after, parser state = .ok value after →
    (marks value ++ after.ahead).Sublist (before ++ state.ahead)

/-- From any state the marks of what a parser reads keep the order of the tokens. -/
def InOrder : Prop := ∀ state, InOrderAt before parser marks state

end InOrder

variable {before : List Position} {marks : α → List Position}

namespace InOrderAt

variable {state : State}

theorem pure {value : α} (among : (marks value).Sublist before) :
    InOrderAt before (Pure.pure value) marks state := by
  intro value' after result
  cases result
  exact among.append_right _

theorem fail {error : Error} : InOrderAt before (Parse.fail error) marks state := nofun

theorem expected {what : String} : InOrderAt before (Parse.expected what) marks state := nofun

theorem bind {first : Parse β} {next : β → Parse α} {middle : β → List Position}
    (begins : InOrderAt before first middle state)
    (goesOn : ∀ value, InOrder (middle value) (next value) marks) :
    InOrderAt before (first >>= next) marks state := by
  intro value after result
  obtain ⟨value', between, begun, result⟩ := exists_of_bind result
  exact (goesOn value' between value after result).trans (begins value' between begun)

theorem current_bind {next : Token → Parse α}
    (ordered : InOrderAt before (next state.current) marks state) :
    InOrderAt before (current >>= next) marks state := ordered

theorem get_bind {next : State → Parse α} (ordered : InOrderAt before (next state) marks state) :
    InOrderAt before (get >>= next) marks state := ordered

/-- What comes first only moves forward, and leaves no marks. -/
theorem after {first : Parse β} {next : β → Parse α} {bound : Nat} (ends : Ends first state bound)
    (goesOn : ∀ value, InOrder before (next value) marks) :
    InOrderAt before (first >>= next) marks state := by
  intro value after result
  obtain ⟨value', between, begun, result⟩ := exists_of_bind result
  unfold Ends at ends
  rw [begun] at ends
  exact (goesOn value' between value after result).trans
    ((State.ahead_sublist ends.1).append_left _)

/-- Past some tokens, a parser goes on. -/
theorem from_later {first second : Parse α} (later : State) (same : first state = second later)
    (suffix : later.rest <:+ state.rest) (ordered : InOrderAt before second marks later) :
    InOrderAt before first marks state := fun value after result =>
  (ordered value after (same.symm.trans result)).trans
    ((State.ahead_sublist suffix).append_left _)

/-- Past a word whose place is kept, a parser goes on. -/
theorem marked {first second : Parse α} (spelled : state.current.kind.isSpelled = true)
    (same : first state = second state.advance)
    (ordered : InOrder (before ++ [state.current.position]) second marks) :
    InOrderAt before first marks state := by
  intro value after result
  have later := ordered state.advance value after (same.symm.trans result)
  rwa [List.append_assoc, List.singleton_append, ← State.ahead_cons spelled] at later

theorem modify_bind {change : State → State} {next : PUnit → Parse α}
    (rest : (change state).rest = state.rest)
    (ordered : InOrderAt before (next ()) marks (change state)) :
    InOrderAt before (modify change >>= next) marks state :=
  from_later (change state) rfl (rest ▸ List.suffix_refl _) ordered

theorem advance_bind {next : Token → Parse α} (spelled : state.current.kind.isSpelled = true)
    (ordered : InOrder (before ++ [state.current.position]) (next state.current) marks) :
    InOrderAt before (advance >>= next) marks state := marked spelled rfl ordered

end InOrderAt

namespace InOrder

theorem pure {value : α} (among : (marks value).Sublist before) :
    InOrder before (Pure.pure value) marks := fun _ => .pure among

theorem expected {what : String} : InOrder before (Parse.expected what) marks :=
  fun _ => .expected

theorem exhausted : InOrder before Parse.exhausted marks := fun _ => nofun

theorem bind {first : Parse β} {next : β → Parse α} {middle : β → List Position}
    (begins : InOrder before first middle)
    (goesOn : ∀ value, InOrder (middle value) (next value) marks) :
    InOrder before (first >>= next) marks := fun state => (begins state).bind goesOn

/-- What comes first only moves forward, and leaves no marks. -/
theorem after {first : Parse β} {next : β → Parse α} {bound : State → Nat}
    (ends : ∀ state, Ends first state (bound state))
    (goesOn : ∀ value, InOrder before (next value) marks) :
    InOrder before (first >>= next) marks := fun state => .after (ends state) goesOn

theorem current_bind {next : Token → Parse α}
    (goesOn : ∀ token, InOrder before (next token) marks) :
    InOrder before (current >>= next) marks := fun state => .current_bind (goesOn _ state)

theorem get_bind {next : State → Parse α}
    (goesOn : ∀ state, InOrder before (next state) marks) :
    InOrder before (get >>= next) marks := fun state => .get_bind (goesOn _ state)

theorem consume_bind {next : Unit → Parse α} (goesOn : InOrder before (next ()) marks) :
    InOrder before (Parse.consume >>= next) marks := fun state =>
  .from_later state.advance rfl state.advance_suffix (goesOn _)

theorem ite {condition : Prop} [Decidable condition] {yes no : Parse α}
    (first : InOrder before yes marks) (second : InOrder before no marks) :
    InOrder before (if condition then yes else no) marks := by
  split
  · exact first
  · exact second

/-- The items of a list have their marks one after the other. -/
theorem list {item : Parse α}
    (items : ∀ before, InOrder before item fun value => before ++ marks value)
    (before : List Position) :
    InOrder before (Parse.list item) fun values => before ++ values.flatMap marks := by
  have found (depth : Nat) (before : List Position) :
      InOrder before (Parse.listItems item depth) fun values =>
        before ++ values.flatMap marks := by
    induction depth generalizing before with
    | zero => exact exhausted
    | succ depth ih =>
        refine after (fun _ => Ends.skipTrivia) fun _ => current_bind fun _ => ite ?_ ?_
        · exact pure (by simp)
        · refine (items before).bind fun first => after (fun _ => Ends.skipTrivia) ?_
          intro _
          refine after (fun _ => ends_listSeparator) fun _ => (ih _).bind fun rest => pure ?_
          rw [List.flatMap_cons, List.append_assoc]
  refine get_bind fun _ => (found _ before).bind ?_
  intro _
  exact after (fun _ => ends_expect (by decide)) fun _ => pure (List.Sublist.refl _)

/-- So do the items of a block. -/
theorem block {skip : Parse Unit} {item : Parse α}
    (skips : ∀ state, Ends skip state (state.rest.length + 1))
    (items : ∀ before, InOrder before item fun value => before ++ marks value)
    (before : List Position) :
    InOrder before (Parse.block skip item) fun values => before ++ values.flatMap marks := by
  have found (depth : Nat) (before : List Position) :
      InOrder before (Parse.blockItems skip item depth) fun values =>
        before ++ values.flatMap marks := by
    induction depth generalizing before with
    | zero => exact exhausted
    | succ depth ih =>
        refine after skips fun _ => current_bind fun _ => ite ?_ (get_bind fun _ => ite expected ?_)
        · exact consume_bind (pure (by simp))
        · refine (items before).bind fun first => (ih _).bind fun rest => pure ?_
          rw [List.flatMap_cons, List.append_assoc]
  exact after (fun _ => ends_expect (by decide)) fun _ => get_bind fun _ => found _ before

end InOrder

/-! ### Expressions -/

theorem inOrderAt_atom {state : State} {atom : Expr} (found : atom? state.current = some atom) :
    InOrderAt before (Parse.consume >>= fun _ => Pure.pure atom) (fun e => before ++ e.marks)
      state := by
  have plain (none : atom.marks = []) :
      InOrderAt before (Parse.consume >>= fun _ => Pure.pure atom) (fun e => before ++ e.marks)
        state := by
    refine InOrder.consume_bind ?_ state
    exact .pure (by rw [none, List.append_nil])
  unfold atom? at found
  split at found
  · cases found
    exact plain rfl
  · cases found
    exact plain rfl
  · next kind =>
      cases found
      exact .marked (by rw [kind]; rfl) rfl (.pure (List.Sublist.refl _))
  · split at found
    all_goals cases found
    all_goals exact plain rfl
  · cases found

theorem inOrder_expressionWithin (depth : Nat) :
    (∀ power before, InOrder before (expressionWithin depth power) fun e => before ++ e.marks) ∧
      (∀ before, InOrder before (operandWithin depth) fun e => before ++ e.marks) ∧
      ∀ power left before,
        InOrder (before ++ left.marks) (operatorsWithin depth power left) fun e =>
          before ++ e.marks := by
  induction depth with
  | zero => exact ⟨fun _ _ => .exhausted, fun _ => .exhausted, fun _ _ _ => .exhausted⟩
  | succ depth ih =>
      obtain ⟨expressions, operands, others⟩ := ih
      refine ⟨fun power before =>
        (operands before).bind fun left => others power left before, ?_, ?_⟩
      · intro before state
        refine .current_bind ?_
        split
        · exact .fail
        · split
          · next found => exact inOrderAt_atom found
          · refine InOrder.ite ?_ ?_ state
            · refine .consume_bind (.after (fun _ => Ends.skipTrivia) fun _ => ?_)
              refine (expressions _ before).bind ?_
              intro inner
              refine .after (fun _ => Ends.skipTrivia) ?_
              intro _
              exact .after (fun _ => ends_expect (by decide)) fun _ => .pure (List.Sublist.refl _)
            · split
              · exact .consume_bind ((expressions _ before).bind fun operand =>
                  .pure (List.Sublist.refl _))
              · exact .expected
      · intro power left before
        refine .current_bind ?_
        intro token
        split
        · exact .consume_bind (others power (.postfixed _ left) before)
        · refine .ite ?_ (.ite ?_ ?_)
          · exact .consume_bind (.after (fun _ => ends_identifier) fun property =>
              others power (.member left property) before)
          · refine .consume_bind ((InOrder.list (expressions _) _).bind fun arguments => ?_)
            have goesOn := others power (.call left arguments) before
            rwa [Expr.marks_call, ← List.append_assoc, Expr.allMarks_eq_flatMap] at goesOn
          · split
            · next operator _ =>
                refine .consume_bind (.after (fun _ => Ends.skipTrivia) fun _ => ?_)
                refine (expressions _ _).bind ?_
                intro right
                have goesOn := others power (.binary operator left right) before
                rwa [Expr.marks_binary, ← List.append_assoc] at goesOn
            · exact .pure (List.Sublist.refl _)

theorem inOrder_expression (power : Power) (before : List Position) :
    InOrder before (expression power) fun e => before ++ e.marks :=
  .get_bind fun _ => (inOrder_expressionWithin _).1 power before

/-! ### Statements -/

theorem inOrder_typeAndValue (before : List Position) :
    InOrder before typeAndValue fun found => before ++ Expr.marks? found.2 := by
  have none {typeName : Option TypeName} :
      InOrder before (Pure.pure (typeName, none)) fun found => before ++ Expr.marks? found.2 :=
    .pure (by simp [Expr.marks?])
  refine .current_bind fun _ => .ite ?_ (.current_bind fun _ => .ite ?_ none)
  · exact .consume_bind ((inOrder_expression _ before).bind fun _ => .pure (List.Sublist.refl _))
  · refine .consume_bind (.after (fun _ => ends_typeName) fun _ => ?_)
    refine .current_bind fun _ => .ite ?_ none
    exact .consume_bind ((inOrder_expression _ before).bind fun _ => .pure (List.Sublist.refl _))

theorem inOrder_returnStatement (before : List Position) :
    InOrder before returnStatement fun s => before ++ s.marks := by
  refine .consume_bind (.current_bind fun _ => .ite (.pure ?_) ?_)
  · simp [Stmt.marks, Expr.marks?]
  · exact (inOrder_expression _ before).bind fun _ => .pure (List.Sublist.refl _)

theorem inOrder_pattern (before : List Position) :
    InOrder before pattern fun found => before ++ Expr.marks? found := by
  have arrow : ∀ state : State, Ends (expect .operator "->") state state.rest.length :=
    fun _ => ends_expect (by decide)
  refine .current_bind fun _ => .ite (.consume_bind (.after arrow fun _ => .pure ?_)) ?_
  · simp [Expr.marks?]
  · refine (inOrder_expression _ before).bind ?_
    intro _
    refine .after arrow ?_
    intro _
    exact .pure (List.Sublist.refl _)

section Keyword

variable {state : State} (spelled : state.current.kind.isSpelled = true)
include spelled

theorem inOrderAt_useStatement :
    InOrderAt before useStatement (fun s => before ++ s.marks) state := by
  refine .advance_bind spelled (.after (fun _ => ends_identifier) fun first => ?_)
  refine fun _ => .get_bind (.after (ends_segmentsWithin _ _ _ (Nat.lt_succ_self _)) fun path => ?_)
  refine .current_bind fun _ => .ite ?_ (.pure (List.Sublist.refl _))
  exact .consume_bind (.after (fun _ => ends_identifier) fun _ => .pure (List.Sublist.refl _))

theorem inOrderAt_variableStatement :
    InOrderAt before variableStatement (fun s => before ++ s.marks) state := by
  refine .advance_bind spelled (.after (fun _ => ends_identifier) fun name => ?_)
  refine (inOrder_typeAndValue _).bind fun (type, value) => .ite .expected (.pure ?_)
  rw [List.append_assoc]
  exact List.Sublist.refl _

theorem inOrderAt_functionHeader :
    InOrderAt before functionHeader (fun header => before ++ [header.position]) state := by
  refine .get_bind (.modify_bind rfl ?_)
  refine .advance_bind spelled (.after (fun _ => ends_identifier) fun name => ?_)
  refine .after (fun _ => ends_expect (by decide)) ?_
  intro _
  refine .after (fun _ => ends_list fun _ _ => ends_parameter) ?_
  intro parameters
  refine .current_bind fun _ => .ite ?_ (.pure (List.Sublist.refl _))
  exact .consume_bind (.after (fun _ => ends_typeName) fun _ => .pure (List.Sublist.refl _))

end Keyword

section Using

variable {statement : Parse Stmt} {body : Parse (List Stmt)}
  {branch : Parse (Expr × List Stmt × Alternate)} {arm : Parse Arm}
  (statements : ∀ before, InOrder before statement fun s => before ++ s.marks)
  (bodies : ∀ before, InOrder before body fun body => before ++ Stmt.allMarks body)
  (branches : ∀ before, InOrder before branch fun built =>
    before ++ (Stmt.branch built.1 built.2.1 built.2.2).marks)
  (arms : ∀ before, InOrder before arm fun arm => before ++ arm.marks)
  (before : List Position)

include statements in
theorem inOrder_blockUsing :
    InOrder before (blockUsing statement) fun body => before ++ Stmt.allMarks body := by
  simp only [Stmt.allMarks_eq_flatMap]
  refine InOrder.block (fun _ => Ends.skipNewlines) (fun before => ?_) before
  refine (statements before).bind ?_
  intro _
  refine .after (fun _ => ends_statementEnd) ?_
  intro _
  exact .pure (List.Sublist.refl _)

include bodies

theorem inOrder_armUsing : InOrder before (armUsing body) fun arm => before ++ arm.marks := by
  refine (inOrder_pattern before).bind ?_
  intro found
  cases found with
  | some value =>
      refine (bodies _).bind fun _ => .pure ?_
      rw [Arm.marks, List.append_assoc]
      exact List.Sublist.refl _
  | none =>
      refine (bodies _).bind fun _ => .pure ?_
      rw [Arm.marks, Expr.marks?, List.append_nil]

include branches

theorem inOrder_branchUsing : InOrder before (branchUsing body branch) fun built =>
    before ++ (Stmt.branch built.1 built.2.1 built.2.2).marks := by
  refine .consume_bind ((inOrder_expression _ before).bind fun condition => ?_)
  refine (bodies _).bind fun first => .get_bind fun _ => .ite ?_ (.pure ?_)
  · refine .after (fun _ => Ends.skipNewlines) fun _ => .consume_bind (.current_bind fun _ => ?_)
    refine .ite ((branches _).bind fun built => .pure ?_) ((bodies _).bind fun last => .pure ?_)
    · simp [Stmt.marks, Alternate.marks]
    · simp [Stmt.marks, Alternate.marks]
  · simp [Stmt.marks, Alternate.marks]

include statements arms

theorem inOrder_statementUsing : InOrder before (statementUsing statement body branch arm)
    fun s => before ++ s.marks := by
  have values : InOrder before (expression .lowest >>= fun value => pure (Stmt.expr value))
      fun s => before ++ s.marks :=
    (inOrder_expression _ before).bind fun _ => .pure (List.Sublist.refl _)
  intro state
  refine .current_bind ?_
  cases kind : state.current.kind with
  | keyword =>
      have spelled : state.current.kind.isSpelled = true := by rw [kind]; rfl
      have modified (modifier : Modifier) :
          InOrderAt before (addModifier modifier >>= fun _ => statement)
            (fun s => before ++ s.marks) state :=
        .after (ends_addModifier (by rw [kind]; decide)) fun _ => statements before
      cases Keyword.ofText? state.current.value with
      | none => exact .fail
      | some keyword =>
          cases keyword with
          | function =>
              refine (inOrderAt_functionHeader spelled).bind fun header => .ite ?_ ?_
              · exact .current_bind fun _ => .ite .expected (.pure (List.Sublist.refl _))
              · refine (bodies _).bind fun body => .pure ?_
                rw [Stmt.marks, List.append_assoc, List.singleton_append]
          | pub => exact modified .pub
          | external => exact modified .external
          | ifThen => exact (branches before state).bind fun built => .pure (List.Sublist.refl _)
          | whileLoop =>
              refine InOrder.consume_bind ?_ state
              refine (inOrder_expression _ before).bind ?_
              intro condition
              refine (bodies _).bind fun body => .pure ?_
              rw [Stmt.marks, List.append_assoc]
          | returns => exact inOrder_returnStatement before state
          | letBinding | constant => exact inOrderAt_variableStatement spelled
          | switch =>
              refine InOrder.consume_bind ?_ state
              refine (inOrder_expression _ before).bind ?_
              intro subject
              refine (InOrder.block (fun _ => ends_skipToArm) arms _).bind fun arms => .pure ?_
              rw [Stmt.marks, List.append_assoc, Arm.allMarks_eq_flatMap]
          | use => exact inOrderAt_useStatement spelled
          | true | false | null => exact values state
          | otherwise | default | as => exact .fail
  | comment =>
      refine InOrder.consume_bind ?_ state
      exact .pure (by rw [Stmt.marks, List.append_nil])
  | _ => exact values state

end Using

theorem inOrder_statementWithin (depth : Nat) :
    (∀ before, InOrder before (statementWithin depth) fun s => before ++ s.marks) ∧
      (∀ before, InOrder before (blockWithin depth) fun body => before ++ Stmt.allMarks body) ∧
      (∀ before, InOrder before (branchWithin depth) fun built =>
        before ++ (Stmt.branch built.1 built.2.1 built.2.2).marks) ∧
      ∀ before, InOrder before (armWithin depth) fun arm => before ++ arm.marks := by
  induction depth with
  | zero =>
      exact ⟨fun _ => .exhausted, fun _ => .exhausted, fun _ => .exhausted, fun _ => .exhausted⟩
  | succ depth ih =>
      obtain ⟨statements, bodies, branches, arms⟩ := ih
      exact ⟨inOrder_statementUsing statements bodies branches arms, inOrder_blockUsing statements,
        inOrder_branchUsing bodies branches, inOrder_armUsing bodies⟩

theorem inOrder_programWithin (depth : Nat) (before : List Position) :
    InOrder before (programWithin depth) fun program => before ++ Stmt.allMarks program := by
  induction depth generalizing before with
  | zero => exact .exhausted
  | succ depth ih =>
      refine .after (fun _ => Ends.skipNewlines) fun _ => .get_bind fun _ => .ite (.pure ?_) ?_
      · simp [Stmt.allMarks]
      · have statements : InOrder before statement fun s => before ++ s.marks :=
          .get_bind fun _ => (inOrder_statementWithin _).1 before
        refine statements.bind fun first => .after (fun _ => ends_statementEnd) ?_
        intro _
        refine (ih _).bind fun rest => .pure ?_
        rw [Stmt.allMarks, List.append_assoc]

end Parse

/-! ### Sources -/

/-- A position in front of another one in the same file. -/
def Position.Precedes (earlier later : Position) : Prop :=
  earlier.file = later.file ∧ earlier.offset < later.offset

namespace Token

/-- The words, the numbers and the symbols of a source begin one behind the other. -/
theorem Accounts.precedes {source file : String} {tokens : List Token}
    (accounts : Accounts source file tokens) :
    ((tokens.filter (·.kind.isSpelled)).map (·.position)).Pairwise Position.Precedes := by
  rw [List.pairwise_map]
  have ordered := accounts.ordered.filter (·.kind.isSpelled)
  refine ordered.imp_of_mem fun {earlier later} presentEarlier presentLater apart => ?_
  obtain ⟨present, spelled⟩ := List.mem_filter.mp presentEarlier
  obtain ⟨before, after, -, span, spelling, -⟩ := accounts.exact earlier present spelled
  have other := (accounts.bounded later (List.mem_of_mem_filter presentLater)).1
  have length : 0 < Text.byteLength earlier.value.toList := by
    cases same : earlier.value.toList with
    | nil => exact absurd same spelling.ne_nil
    | cons first rest =>
        rw [Text.byteLength_cons]
        exact Nat.add_pos_left first.utf8Size_pos _
  rw [span] at apart
  simp only [Text.byteLength_append] at apart
  refine ⟨?_, ?_⟩
  · rw [position, position, Span.startPosition, Span.startPosition, span, other]
  · rw [position, position, Span.startPosition, Span.startPosition, span]
    exact Nat.lt_of_lt_of_le (Nat.lt_add_of_pos_right length) apart

end Token

namespace Program

/-- The marks of a program that was parsed are among those of its tokens, and in the same order. -/
theorem marks_sublist_of_parse {tokens : List Token} {program : Program}
    (parsed : Program.parse tokens = .ok program) :
    (Stmt.allMarks program).Sublist
      ((tokens.filter (·.kind.isSpelled)).map (·.position)) := by
  obtain ⟨after, result⟩ := parse_eq_ok_iff.mp parsed
  have ordered := Parse.inOrder_programWithin _ [] (.ofTokens tokens) program after result
  simp only [List.nil_append] at ordered
  have all : (Parse.State.ofTokens tokens).ahead.Sublist
      ((tokens.filter (·.kind.isSpelled)).map (·.position)) :=
    ((List.takeWhile_sublist _).filter _).map _
  exact (List.sublist_append_left _ _).trans (ordered.trans all)

/-- The marks of a program that was read stand one behind the other in its source. -/
theorem marks_precede {source file : String} {program : Program}
    (reads : Program.read source file = .ok program) :
    (Stmt.allMarks program).Pairwise Position.Precedes := by
  obtain ⟨tokens, scans, parsed⟩ := exists_tokens_of_read reads
  exact (Token.scan_accounts scans).precedes.sublist (marks_sublist_of_parse parsed)

/-- An offset has 32 bits. In a source of less than 4 GiB nothing is lost by that. -/
theorem marks_fit {source file : String} {program : Program}
    (reads : Program.read source file = .ok program)
    (small : Text.byteLength source.toList < UInt32.size) :
    ∀ mark ∈ Stmt.allMarks program, (UInt32.ofNat mark.offset).toNat = mark.offset := by
  intro mark present
  obtain ⟨tokens, scans, parsed⟩ := exists_tokens_of_read reads
  obtain ⟨token, among, rfl⟩ :=
    List.mem_map.mp ((marks_sublist_of_parse parsed).subset present)
  obtain ⟨_, begins, stops⟩ :=
    (Token.scan_accounts scans).bounded token (List.mem_of_mem_filter among)
  exact UInt32.toNat_ofNat_of_lt' (Nat.lt_of_le_of_lt (begins.trans stops) small)

end Program

end SmallLang
