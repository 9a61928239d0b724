import SmallLang.Proofs.Comment.Statements
import SmallLang.Proofs.Modifier.Announcements
import SmallLang.Proofs.Parse.Progress

/-!
# Announced functions are declared

A parser that succeeds has declared each function that it came across, with the modifiers that
waited for it, and no modifier waits any longer. Nothing else in a program is read as a part of an
announcement.
-/

set_option autoImplicit false

namespace SmallLang

namespace Parse

variable {α β : Type}

/-! ### States -/

namespace State

variable {state : State}

/-- What is announced from a state on. -/
def announced (state : State) : List (Position × List Modifier) :=
  Token.announcedAfter state.pending state.rest

/-- A statement may begin here: nothing waits, or what waits stands in front of a function. -/
def Ready (state : State) : Prop := state.pending = [] ∨ state.current.announces = true

theorem Ready.idle (ready : state.Ready) (plain : state.current.announces = false) :
    state.pending = [] :=
  ready.resolve_right (Bool.eq_false_iff.mp plain)

theorem announced_advance (idle : state.pending = []) (plain : state.current.announces = false) :
    state.advance.announced = state.announced := by
  cases tokens : state.rest with
  | nil => rw [announced, announced, advance, tokens, List.tail_nil]
  | cons first rest =>
      rw [current, tokens, List.headD_cons] at plain
      rw [announced, announced, advance, tokens, idle, List.tail_cons,
        Token.announcedAfter_plain [] rest plain]

theorem announced_skipTrivia (idle : state.pending = []) :
    state.skipTrivia.announced = state.announced := by
  rw [announced, announced, skipTrivia, idle, Token.announcedAfter_dropWhile]
  intro token trivia
  rcases Bool.or_eq_true_iff.mp trivia with kind | kind
  · exact Token.announces_of_beq kind (by decide)
  · exact Token.announces_of_beq kind (by decide)

theorem announced_skipNewlines (idle : state.pending = []) :
    state.skipNewlines.announced = state.announced := by
  rw [announced, announced, skipNewlines, idle, Token.announcedAfter_dropWhile]
  intro token separates
  rcases Bool.or_eq_true_iff.mp separates with kind | found
  · exact Token.announces_of_beq kind (by decide)
  · exact Token.announces_of_is found (by decide)

/-- The modifiers that wait are those of the function that begins here. -/
theorem announced_function (function : state.current.isKeyword "fn" = true) :
    state.announced =
      (state.current.position, state.pending) ::
        (State.advance { state with pending := [] }).announced := by
  have more : state.current.kind ≠ .endOfInput := by simp [Token.kind_of_is function]
  obtain ⟨later, rest⟩ := exists_rest_of_more more
  have begins := Token.announcedAfter_function state.pending later function
  rw [← rest] at begins
  rw [announced, begins, announced, advance, rest, List.tail_cons]

/-- One more modifier waits. -/
theorem announced_modifier {modifier : Modifier} {text : String}
    (keyword : state.current.isKeyword text = true)
    (found : state.current.modifier? = some modifier) :
    state.announced =
      State.announced { state.advance with pending := state.pending ++ [modifier] } := by
  have more : state.current.kind ≠ .endOfInput := by simp [Token.kind_of_is keyword]
  obtain ⟨later, rest⟩ := exists_rest_of_more more
  have waits := Token.announcedAfter_modifier state.pending later found
  rw [← rest] at waits
  rw [announced, waits, announced, advance, rest, List.tail_cons]

end State

/-! ### Parsers -/

section Declares

variable (before : List (Position × List Modifier)) (parser : Parse α)
  (declared : α → List (Position × List Modifier))

/-- If a parser succeeds from a state, then no modifier waits after it. What was announced before,
and what is announced from the state on, its value declares, or it is still to come. -/
def DeclaresAt (state : State) : Prop :=
  ∀ value after, parser state = .ok value after →
    after.pending = [] ∧ before ++ state.announced = declared value ++ after.announced

/-- From any state where no modifier waits, the value of a parser declares what was announced. -/
def Declares : Prop := ∀ state, state.pending = [] → DeclaresAt before parser declared state

end Declares

variable {before : List (Position × List Modifier)} {declared : α → List (Position × List Modifier)}

namespace DeclaresAt

variable {state : State}

theorem pure {value : α} (idle : state.pending = []) (same : declared value = before) :
    DeclaresAt before (Pure.pure value) declared state := by
  intro value' after result
  cases result
  exact ⟨idle, by rw [same]⟩

theorem fail {error : Error} : DeclaresAt before (Parse.fail error) declared state := nofun

theorem expected {what : String} : DeclaresAt before (Parse.expected what) declared state := nofun

theorem bind {first : Parse β} {next : β → Parse α}
    {middle : β → List (Position × List Modifier)} (begins : DeclaresAt before first middle state)
    (goesOn : ∀ value, Declares (middle value) (next value) declared) :
    DeclaresAt before (first >>= next) declared state := by
  intro value after result
  obtain ⟨value', between, begun, result⟩ := exists_of_bind result
  obtain ⟨idle, same⟩ := begins value' between begun
  obtain ⟨idle', same'⟩ := goesOn value' between idle value after result
  exact ⟨idle', same.trans same'⟩

theorem current_bind {next : Token → Parse α}
    (declares : DeclaresAt before (next state.current) declared state) :
    DeclaresAt before (current >>= next) declared state := declares

theorem get_bind {next : State → Parse α}
    (declares : DeclaresAt before (next state) declared state) :
    DeclaresAt before (get >>= next) declared state := declares

/-- Past a token that announces nothing, a parser goes on. -/
theorem advanced {first second : Parse α} (idle : state.pending = [])
    (plain : state.current.announces = false) (same : first state = second state.advance)
    (declares : Declares before second declared) : DeclaresAt before first declared state := by
  intro value after result
  have later := declares state.advance idle value after (same.symm.trans result)
  rwa [State.announced_advance idle plain] at later

theorem advance_bind {next : Token → Parse α} (idle : state.pending = [])
    (plain : state.current.announces = false)
    (declares : Declares before (next state.current) declared) :
    DeclaresAt before (advance >>= next) declared state := advanced idle plain rfl declares

theorem consume_bind {next : Unit → Parse α} (idle : state.pending = [])
    (plain : state.current.announces = false) (declares : Declares before (next ()) declared) :
    DeclaresAt before (Parse.consume >>= next) declared state := advanced idle plain rfl declares

theorem consume (idle : state.pending = []) (plain : state.current.announces = false) :
    DeclaresAt before Parse.consume (fun _ => before) state := by
  intro value after result
  cases result
  exact ⟨idle, by rw [State.announced_advance idle plain]⟩

theorem skipNewlines_bind {next : Unit → Parse α} (idle : state.pending = [])
    (declares : DeclaresAt before (next ()) declared state.skipNewlines) :
    DeclaresAt before (Parse.skipNewlines >>= next) declared state := by
  intro value after result
  have later := declares value after result
  rwa [State.announced_skipNewlines idle] at later

end DeclaresAt

namespace Declares

theorem pure {value : α} (same : declared value = before) :
    Declares before (Pure.pure value) declared := fun _ idle => .pure idle same

theorem expected {what : String} : Declares before (Parse.expected what) declared :=
  fun _ _ => .expected

theorem exhausted : Declares before Parse.exhausted declared := fun _ _ => nofun

theorem bind {first : Parse β} {next : β → Parse α} {middle : β → List (Position × List Modifier)}
    (begins : Declares before first middle)
    (goesOn : ∀ value, Declares (middle value) (next value) declared) :
    Declares before (first >>= next) declared := fun state idle => (begins state idle).bind goesOn

theorem skipTrivia : Declares before Parse.skipTrivia fun _ => before := by
  intro state idle value after result
  cases result
  exact ⟨idle, by rw [State.announced_skipTrivia idle]⟩

theorem skipNewlines : Declares before Parse.skipNewlines fun _ => before := by
  intro state idle value after result
  cases result
  exact ⟨idle, by rw [State.announced_skipNewlines idle]⟩

/-- A token that is passed over if it is the right one, and otherwise stays where it is. -/
theorem takeIf {test : Token → Bool} {yes no : Parse α}
    (plain : ∀ token, test token = true → token.announces = false)
    (first : Declares before yes declared) (second : Declares before no declared) :
    Declares before (do if test (← current) then do Parse.consume; yes else no) declared := by
  refine fun state idle => .current_bind ?_
  split
  · next found => exact .consume_bind idle (plain _ found) first
  · exact second state idle

theorem take {kind : Token.Kind} {text : String} {yes no : Parse α} (proper : kind ≠ .keyword)
    (first : Declares before yes declared) (second : Declares before no declared) :
    Declares before (do if (← current).is kind text then do Parse.consume; yes else no) declared :=
  takeIf (fun _ found => Token.announces_of_is found proper) first second

theorem expect {kind : Token.Kind} {text : String} (proper : kind ≠ .keyword) :
    Declares before (Parse.expect kind text) fun _ => before := by
  refine fun state idle => .current_bind ?_
  split
  · next found =>
      have moves : DeclaresAt before (advance >>= Pure.pure) (fun _ => before) state :=
        .advance_bind idle (Token.announces_of_is found proper) (.pure rfl)
      rwa [bind_pure] at moves
  · exact .expected

theorem identifier (what : String) :
    Declares before (Parse.identifier what) fun _ => before := by
  refine fun state idle => .current_bind ?_
  split
  · next found =>
      exact .advance_bind idle (Token.announces_of_beq found (by decide)) (.pure rfl)
  · exact .expected

theorem typeName : Declares before Parse.typeName fun _ => before := by
  refine fun state idle => .current_bind ?_
  split
  · next found =>
      refine .consume_bind idle ?_ (.pure rfl)
      rcases Bool.or_eq_true_iff.mp found with kind | isNull
      · exact Token.announces_of_beq kind (by decide)
      · exact Token.announces_eq_of_isKeyword isNull
  · exact .expected

theorem listSeparator : Declares before Parse.listSeparator fun _ => before := by
  refine fun state idle => .current_bind ?_
  split
  · next found =>
      exact .consume idle (Token.announces_of_is found (by decide))
  · split
    · exact .pure idle rfl
    · exact .expected

theorem statementEnd : Declares before Parse.statementEnd fun _ => before := by
  intro state idle value after result
  rw [statementEnd_eq] at result
  split at result
  · next lineEnd =>
      exact DeclaresAt.consume idle (Token.announces_of_kind (by simp [lineEnd])) _ _ result
  · split at result
    · cases result
      exact ⟨idle, rfl⟩
    · split at result
      · next semicolon =>
          exact DeclaresAt.consume idle (Token.announces_of_kind (by simp [semicolon])) _ _ result
      · split at result
        · cases result
          exact ⟨idle, rfl⟩
        · cases result

/-- In a list no function is declared. -/
theorem list {item : Parse α} (items : Declares before item fun _ => before) :
    Declares before (Parse.list item) fun _ => before := by
  have found (depth : Nat) : Declares before (Parse.listItems item depth) fun _ => before := by
    induction depth with
    | zero => exact exhausted
    | succ depth ih =>
        refine skipTrivia.bind fun _ state idle => .current_bind ?_
        split
        · exact .pure idle rfl
        · refine (items state idle).bind fun _ => skipTrivia.bind ?_
          intro _
          exact listSeparator.bind fun _ => ih.bind fun _ => pure rfl
  refine fun state idle => .get_bind ((found _ state idle).bind fun _ => ?_)
  exact (expect (by decide)).bind fun _ => pure rfl

/-- In a block, each item declares its own functions. -/
theorem block {skip : Parse Unit} {item : Parse α}
    (skips : ∀ before, Declares before skip fun _ => before)
    (items : ∀ before, Declares before item fun value => before ++ declared value)
    (before : List (Position × List Modifier)) :
    Declares before (Parse.block skip item) fun values => before ++ values.flatMap declared := by
  have found (depth : Nat) (before : List (Position × List Modifier)) :
      Declares before (Parse.blockItems skip item depth) fun values =>
        before ++ values.flatMap declared := by
    induction depth generalizing before with
    | zero => exact exhausted
    | succ depth ih =>
        refine (skips before).bind fun _ state idle => .current_bind ?_
        split
        · next brace =>
            exact .consume_bind idle (Token.announces_of_is brace (by decide))
              (.pure (List.append_nil _))
        · refine .get_bind ?_
          split
          · exact .expected
          · refine (items before state idle).bind fun first => (ih _).bind fun rest => .pure ?_
            rw [List.flatMap_cons, List.append_assoc]
  exact (expect (by decide)).bind fun _ state idle => .get_bind (found _ before state idle)

end Declares

/-! ### Expressions -/

theorem announces_of_atom? {token : Token} {atom : Expr} (found : atom? token = some atom) :
    token.announces = false := by
  by_cases kind : token.kind = .keyword
  · unfold atom? at found
    rw [kind] at found
    dsimp only at found
    split at found
    · next isTrue => exact Token.announces_eq_of_isKeyword (isKeyword_of_ofText? kind isTrue)
    · next isFalse => exact Token.announces_eq_of_isKeyword (isKeyword_of_ofText? kind isFalse)
    · next isNull => exact Token.announces_eq_of_isKeyword (isKeyword_of_ofText? kind isNull)
    · cases found
  · exact Token.announces_of_kind kind

theorem announces_of_prefixOperator? {token : Token} {operator : PrefixOperator}
    (found : prefixOperator? token = some operator) : token.announces = false :=
  Token.announces_of_kind fun kind => by
    simp [prefixOperator?, Token.isOperator, Token.is, kind] at found

theorem announces_of_postfixOperator? {token : Token} {operator : PostfixOperator}
    (found : postfixOperator? token = some operator) : token.announces = false :=
  Token.announces_of_kind fun kind => by
    simp [postfixOperator?, Token.isOperator, Token.is, kind] at found

theorem announces_of_operatorAbove? {power : Power} {token : Token} {operator : BinaryOperator}
    (found : operatorAbove? power token = some operator) : token.announces = false :=
  Token.announces_of_kind fun kind => by simp [operatorAbove?, kind] at found

theorem declares_expressionWithin (depth : Nat) :
    (∀ power, Declares before (expressionWithin depth power) fun _ => before) ∧
      Declares before (operandWithin depth) (fun _ => before) ∧
      ∀ power left, Declares before (operatorsWithin depth power left) fun _ => before := by
  induction depth with
  | zero => exact ⟨fun _ => .exhausted, .exhausted, fun _ _ => .exhausted⟩
  | succ depth ih =>
      obtain ⟨expressions, operands, others⟩ := ih
      refine ⟨fun power => operands.bind fun left => others power left, ?_, fun power left => ?_⟩
      · refine fun state idle => .current_bind ?_
        split
        · exact .fail
        · split
          · next found => exact .consume_bind idle (announces_of_atom? found) (.pure rfl)
          · split
            · next found =>
                refine .consume_bind idle
                  (Token.announces_of_is found (by decide)) ?_
                exact Declares.skipTrivia.bind fun _ => (expressions _).bind fun _ =>
                  Declares.skipTrivia.bind fun _ => (Declares.expect (by decide)).bind fun _ =>
                    .pure rfl
            · split
              · next found =>
                  exact .consume_bind idle (announces_of_prefixOperator? found)
                    ((expressions _).bind fun _ => .pure rfl)
              · exact .expected
      · refine fun state idle => .current_bind ?_
        split
        · next found =>
            exact .consume_bind idle (announces_of_postfixOperator? found) (others power _)
        · split
          · next found =>
              exact .consume_bind idle (Token.announces_of_is found (by decide))
                ((Declares.identifier _).bind fun _ => others power _)
          · split
            · next found =>
                exact .consume_bind idle
                  (Token.announces_of_is found (by decide))
                  ((expressions _).list.bind fun _ => others power _)
            · split
              · next found =>
                  refine .consume_bind idle (announces_of_operatorAbove? found) ?_
                  refine Declares.skipTrivia.bind ?_
                  intro _
                  refine (expressions _).bind ?_
                  intro _
                  exact others power _
              · exact .pure idle rfl

theorem declares_expression (power : Power) : Declares before (expression power) fun _ => before :=
  fun state idle => .get_bind ((declares_expressionWithin _).1 power state idle)

/-! ### Statements without a block -/

theorem declares_segmentsWithin (depth : Nat) (path : String) :
    Declares before (segmentsWithin path depth) fun _ => before := by
  induction depth generalizing path with
  | zero => exact .exhausted
  | succ depth ih =>
      exact .take (by decide) ((Declares.identifier _).bind fun _ => ih _)
        (.pure rfl)

theorem declares_typeAndValue : Declares before typeAndValue fun _ => before := by
  have values : Declares before (expression .lowest) fun _ => before := declares_expression .lowest
  refine .take (by decide) (values.bind fun _ => .pure rfl) ?_
  refine .take (by decide) (Declares.typeName.bind fun _ => ?_) (.pure rfl)
  exact .take (by decide) (values.bind fun _ => .pure rfl) (.pure rfl)

theorem declares_parameter : Declares before parameter fun _ => before :=
  (Declares.identifier _).bind fun _ => (Declares.expect (by decide)).bind fun _ =>
    Declares.typeName.bind fun _ => .pure rfl

theorem declares_pattern : Declares before pattern fun _ => before := by
  have arrow : Declares before (expect .operator "->") fun _ => before := .expect (by decide)
  refine .takeIf (fun _ isDefault => Token.announces_eq_of_isKeyword isDefault)
    (arrow.bind fun _ => .pure rfl) ?_
  exact (declares_expression _).bind fun _ => arrow.bind fun _ => .pure rfl

theorem declares_skipToArm : Declares before skipToArm fun _ => before :=
  Declares.skipTrivia.bind fun _ => .skipNewlines

section Keyword

variable {state : State}

section Plain

variable (idle : state.pending = []) (plain : state.current.announces = false)
include idle plain

theorem declaresAt_useStatement :
    DeclaresAt before useStatement (fun s => before ++ Stmt.announcements s.declarations)
      state := by
  refine .advance_bind idle plain ((Declares.identifier _).bind fun first state idle => ?_)
  refine .get_bind ((declares_segmentsWithin _ first state idle).bind fun path => ?_)
  exact .takeIf (fun _ isAs => Token.announces_eq_of_isKeyword isAs)
    ((Declares.identifier _).bind fun _ => .pure (List.append_nil _)) (.pure (List.append_nil _))

theorem declaresAt_variableStatement :
    DeclaresAt before variableStatement (fun s => before ++ Stmt.announcements s.declarations)
      state := by
  refine .advance_bind idle plain ((Declares.identifier _).bind fun name => ?_)
  refine declares_typeAndValue.bind fun (type, value) => ?_
  dsimp only
  split
  · exact .expected
  · exact .pure (List.append_nil _)

theorem declaresAt_returnStatement :
    DeclaresAt before returnStatement (fun s => before ++ Stmt.announcements s.declarations)
      state := by
  refine .consume_bind idle plain fun state idle => .current_bind ?_
  split
  · exact .pure idle (List.append_nil _)
  · exact (declares_expression _ state idle).bind fun _ => .pure (List.append_nil _)

end Plain

/-- A function takes the modifiers that wait. -/
theorem declaresAt_functionHeader (function : state.current.isKeyword "fn" = true) :
    DeclaresAt before functionHeader (fun header => before ++ [header.announcement]) state := by
  have read (position : Position) (modifiers : List Modifier) :
      Declares (before ++ [(position, modifiers)]) (do
        let name ← identifier "function name"
        let _ ← expect .delimiter "("
        let parameters ← list parameter
        if (← current).isOperator "->" then
          consume
          return ⟨name, parameters, some (← typeName), modifiers, position, none⟩
        else return ⟨name, parameters, none, modifiers, position, none⟩)
        fun header => before ++ [FunctionHeader.announcement header] := by
    refine (Declares.identifier _).bind fun name => (Declares.expect (by decide)).bind fun _ =>
      declares_parameter.list.bind ?_
    intro parameters
    exact .take (by decide) (Declares.typeName.bind fun _ => .pure rfl) (.pure rfl)
  intro header after result
  have later := read state.current.position state.pending
    (State.advance { state with pending := [] }) rfl header after result
  rwa [State.announced_function function, List.append_cons]

end Keyword

/-! ### Statements -/

/-- From where it may begin, a statement declares all functions that it comes across. -/
def DeclaresFunctions (statement : Parse Stmt) : Prop :=
  ∀ before state, state.Ready →
    DeclaresAt before statement (fun s => before ++ Stmt.announcements s.declarations) state

section Using

variable {statement : Parse Stmt} {body : Parse (List Stmt)}
  {branch : Parse (Expr × List Stmt × Alternate)} {arm : Parse Arm}

theorem declares_blockUsing (statements : DeclaresFunctions statement)
    (before : List (Position × List Modifier)) :
    Declares before (blockUsing statement) fun body =>
      before ++ Stmt.announcements (Stmt.allDeclarations body) := by
  simp only [Stmt.announcements_allDeclarations]
  refine Declares.block (fun _ => .skipNewlines) (fun before state idle => ?_) before
  refine (statements before state (.inl idle)).bind ?_
  intro _
  refine Declares.statementEnd.bind ?_
  intro _
  exact .pure rfl

/-- The functions of a branch and of what follows it, as they were announced. -/
def branchAnnouncements (built : Expr × List Stmt × Alternate) : List (Position × List Modifier) :=
  Stmt.announcements (Stmt.allDeclarations built.2.1 ++ built.2.2.declarations)

variable
  (bodies : ∀ before, Declares before body fun body =>
    before ++ Stmt.announcements (Stmt.allDeclarations body))
  (branches : ∀ before (state : State), state.pending = [] → state.current.announces = false →
    DeclaresAt before branch (fun built => before ++ branchAnnouncements built) state)
  (before : List (Position × List Modifier))

include bodies

theorem declares_armUsing :
    Declares before (armUsing body) fun arm => before ++ Stmt.announcements arm.declarations := by
  refine declares_pattern.bind ?_
  intro found
  cases found with
  | some value => exact (bodies before).bind fun _ => .pure rfl
  | none => exact (bodies before).bind fun _ => .pure rfl

include branches

theorem declaresAt_branchUsing {state : State} (idle : state.pending = [])
    (plain : state.current.announces = false) :
    DeclaresAt before (branchUsing body branch) (fun built => before ++ branchAnnouncements built)
      state := by
  refine .consume_bind idle plain ((declares_expression _).bind fun condition => ?_)
  refine (bodies before).bind fun first state idle => .get_bind ?_
  split
  · next found =>
      have isElse := (State.exists_of_peek found).2
      refine .skipNewlines_bind idle ?_
      refine .consume_bind idle (Token.announces_eq_of_isKeyword isElse) ?_
      intro state idle
      refine .current_bind ?_
      split
      · next isIf =>
          refine (branches _ state idle (Token.announces_eq_of_isKeyword isIf)).bind
            fun built => .pure ?_
          simp [branchAnnouncements, Alternate.declarations]
      · refine (bodies _ state idle).bind fun last => .pure ?_
        simp [branchAnnouncements, Alternate.declarations]
  · refine .pure idle ?_
    simp [branchAnnouncements, Alternate.declarations]

theorem declares_statementUsing (statements : DeclaresFunctions statement)
    (arms : ∀ before, Declares before arm fun arm =>
      before ++ Stmt.announcements arm.declarations) :
    DeclaresFunctions (statementUsing statement body branch arm) := by
  intro before state ready
  have values (plain : state.current.announces = false) :
      DeclaresAt before (expression .lowest >>= fun value => pure (Stmt.expr value))
        (fun s => before ++ Stmt.announcements s.declarations) state :=
    (declares_expression .lowest state (ready.idle plain)).bind fun _ => .pure (List.append_nil _)
  refine .current_bind ?_
  cases kind : state.current.kind with
  | keyword =>
      cases spelled : Keyword.ofText? state.current.value with
      | none => exact .fail
      | some keyword =>
          have isKeyword := isKeyword_of_ofText? kind spelled
          have announces := Token.announces_eq_of_isKeyword isKeyword
          have modified {modifier : Modifier} (found : state.current.modifier? = some modifier) :
              DeclaresAt before (addModifier modifier >>= fun _ => statement)
                (fun s => before ++ Stmt.announcements s.declarations) state := by
            intro value after result
            obtain ⟨_, between, begun, result⟩ := exists_of_bind result
            -- what waits now is still to come, in front of a function or of one more modifier
            obtain ⟨rfl, later⟩ := addModifier_eq_ok begun
            rw [State.announced_modifier isKeyword found]
            exact statements before _ (.inr later) value after result
          cases keyword with
          | function =>
              refine (declaresAt_functionHeader isKeyword).bind ?_
              intro header
              split
              · refine fun state idle => .current_bind ?_
                split
                · exact .expected
                · exact .pure idle rfl
              · refine (bodies _).bind fun body => .pure ?_
                simp [Stmt.declarations, Stmt.announcements_function]
          | pub => exact modified (Token.modifier?_eq_of_isKeyword isKeyword)
          | external => exact modified (Token.modifier?_eq_of_isKeyword isKeyword)
          | ifThen =>
              refine (branches before state (ready.idle announces) announces).bind ?_
              intro built
              exact .pure rfl
          | whileLoop =>
              exact .consume_bind (ready.idle announces) announces
                ((declares_expression _).bind fun _ => (bodies before).bind fun _ => .pure rfl)
          | returns => exact declaresAt_returnStatement (ready.idle announces) announces
          | letBinding | constant =>
              exact declaresAt_variableStatement (ready.idle announces) announces
          | switch =>
              refine .consume_bind (ready.idle announces) announces ?_
              refine (declares_expression _).bind ?_
              intro subject
              refine (Declares.block (fun _ => declares_skipToArm) arms before).bind ?_
              intro built
              exact .pure (by rw [Stmt.declarations, Arm.announcements_allDeclarations])
          | use => exact declaresAt_useStatement (ready.idle announces) announces
          | true | false | null => exact values announces
          | otherwise | default | as => exact .fail
  | comment =>
      have plain : state.current.announces = false := Token.announces_of_kind (by simp [kind])
      exact .consume_bind (ready.idle plain) plain (.pure (List.append_nil _))
  | _ => exact values (Token.announces_of_kind (by simp [kind]))

end Using

theorem declares_statementWithin (depth : Nat) :
    DeclaresFunctions (statementWithin depth) ∧
      (∀ before, Declares before (blockWithin depth) fun body =>
        before ++ Stmt.announcements (Stmt.allDeclarations body)) ∧
      (∀ before (state : State), state.pending = [] → state.current.announces = false →
        DeclaresAt before (branchWithin depth) (fun built => before ++ branchAnnouncements built)
          state) ∧
      ∀ before, Declares before (armWithin depth) fun arm =>
        before ++ Stmt.announcements arm.declarations := by
  induction depth with
  | zero =>
      exact ⟨fun _ _ _ => nofun, fun _ => .exhausted, fun _ _ _ _ => nofun, fun _ => .exhausted⟩
  | succ depth ih =>
      obtain ⟨statements, bodies, branches, arms⟩ := ih
      exact ⟨declares_statementUsing bodies branches statements arms,
        declares_blockUsing statements,
        fun before _ => declaresAt_branchUsing bodies branches before, declares_armUsing bodies⟩

theorem declares_statement : DeclaresFunctions statement := fun before state ready =>
  .get_bind ((declares_statementWithin _).1 before state ready)

theorem declares_programWithin (depth : Nat) (before : List (Position × List Modifier)) :
    Declares before (programWithin depth) fun program =>
      before ++ Stmt.announcements (Stmt.allDeclarations program) := by
  induction depth generalizing before with
  | zero => exact .exhausted
  | succ depth ih =>
      refine Declares.skipNewlines.bind fun _ state idle => .get_bind ?_
      split
      · exact .pure idle (List.append_nil _)
      · refine (declares_statement before state (.inl idle)).bind ?_
        intro first
        refine Declares.statementEnd.bind fun _ => (ih _).bind fun rest => .pure ?_
        rw [Stmt.allDeclarations, Stmt.announcements_append, List.append_assoc]

/-! ### Programs -/

/-- Where a program ends, no token is left. -/
theorem rest_of_program {tokens : List Token} {found : Program} {after : State}
    (result : program (.ofTokens tokens) = .ok found after) : after.rest = [] := by
  have ends := ends_program (.ofTokens tokens)
  unfold Ends at ends
  rw [result] at ends
  have last : after.current.kind = .endOfInput := current_kind_of_programWithin _ result
  cases more : after.rest with
  | nil => rfl
  | cons first rest =>
      have present : first ∈ (State.ofTokens tokens).rest :=
        ends.1.subset (more ▸ List.mem_cons_self)
      have proper := List.mem_takeWhile_imp present
      rw [State.current, more, List.headD_cons] at last
      simp [last] at proper

end Parse

/-- The functions that a program declares are those that its tokens announce, one for each `fn`, and
each has the modifiers directly in front of its own `fn`. -/
theorem Program.announcement_of_parse {tokens : List Token} {program : Program}
    (parsed : Program.parse tokens = .ok program) :
    program.functions.map (·.1.announcement) =
      Token.announcements (tokens.takeWhile (·.kind != .endOfInput)) := by
  obtain ⟨after, result⟩ := parse_eq_ok_iff.mp parsed
  obtain ⟨_, same⟩ := Parse.declares_programWithin _ [] (.ofTokens tokens) rfl program after result
  have nothing : after.announced = [] := by
    rw [Parse.State.announced, Parse.rest_of_program result, Token.announcedAfter]
  rw [nothing, List.append_nil] at same
  rw [Token.announcements_eq]
  exact same.symm

/-- Each function of a program that was parsed has the modifiers directly in front of its own `fn`,
each of them once, and it has a body unless one of them says that it is defined elsewhere. Nothing
behind the first end of input is read. And no modifier is left over: after a statement none waits if
none did before. -/
theorem Program.functions_announced :
    (∀ (tokens : List Token) (program : Program), Program.parse tokens = .ok program →
      program.functions.map (·.1.announcement) =
        Token.announcements (tokens.takeWhile (·.kind != .endOfInput)) ∧
      ∀ header body, (header, body) ∈ program.functions →
        header.modifiers.Nodup ∧ (body = none ↔ .external ∈ header.modifiers)) ∧
    ∀ (state : Parse.State) (s : Stmt) (after : Parse.State),
      Parse.statement state = .ok s after → state.pending = [] → after.pending = [] := by
  refine ⟨fun tokens program parsed => ⟨announcement_of_parse parsed, ?_⟩, ?_⟩
  · exact fun _ _ present => (allSpelled_of_parse parsed).functions present
  · intro state s after result idle
    exact (Parse.declares_statement [] state (.inl idle) s after result).1

/-- A function that is defined elsewhere, and one with another one in its body. -/
def Token.announcing : List Token :=
  [(Kind.keyword, "pub"), (.keyword, "extern"), (.keyword, "fn"), (.identifier, "f"),
    (.delimiter, "("), (.delimiter, ")"), (.endOfLine, "\n"), (.keyword, "fn"), (.identifier, "g"),
    (.delimiter, "("), (.delimiter, ")"), (.delimiter, "\x7b"), (.keyword, "pub"),
    (.keyword, "fn"), (.identifier, "h"), (.delimiter, "("), (.delimiter, ")"),
    (.delimiter, "\x7b"), (.delimiter, "\x7d"), (.delimiter, "\x7d"),
    (.endOfInput, "EOF")].zipIdx.map fun ((kind, value), offset) =>
      ⟨kind, value, ⟨"", offset, offset + 1⟩⟩

/-- The inner function is public, and the one around it is not. -/
theorem Program.functions_announced_nested :
    (∃ program, Program.parse Token.announcing = .ok program ∧
      program.functions.map (·.1.announcement) =
        [(⟨"", 2⟩, [.pub, .external]), (⟨"", 7⟩, []), (⟨"", 13⟩, [.pub])] ∧
      ∀ header body, (header, body) ∈ program.functions →
        header.modifiers.Nodup ∧ (body = none ↔ .external ∈ header.modifiers)) ∧
    ∃ s after, Parse.statement (.ofTokens Token.announcing) = .ok s after ∧
      after.pending = [] := by
  obtain ⟨parses, steady⟩ := functions_announced
  have found : (Program.parse Token.announcing).toOption.isSome = true := rfl
  refine ⟨?_, ?_⟩
  · cases parsed : Program.parse Token.announcing with
    | ok program =>
        obtain ⟨announced, proper⟩ := parses _ program parsed
        exact ⟨program, rfl, announced, proper⟩
    | error error =>
        rw [parsed] at found
        cases found
  · cases result : Parse.statement (.ofTokens Token.announcing) with
    | ok s after => exact ⟨s, after, rfl, steady _ s after result rfl⟩
    | error halt after => cases result

end SmallLang
