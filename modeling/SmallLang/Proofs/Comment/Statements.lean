import SmallLang.Proofs.Comment.Arms

/-!
# Statements without the comments

A statement of any depth is read alike with its comments and without them, and so is a program. This
goes by induction on the depth that the parser may use up with the comments. Without them it needs
no bound, as it reads fewer tokens.
-/

set_option autoImplicit false

namespace SmallLang.Parse

/-! ### Keywords -/

theorem isKeyword_of_ofText? {token : Token} {keyword : Keyword}
    (kind : token.kind = .keyword) (spelled : Keyword.ofText? token.value = some keyword) :
    token.isKeyword keyword.text = true := by
  have same := List.find?_some spelled
  rw [Token.isKeyword, Token.is, kind, ← beq_iff_eq.mp same]
  simp

/-- A modifier that was taken waits, and a function or another modifier comes next. -/
theorem addModifier_eq_ok {modifier : Modifier} {state after : State}
    (result : addModifier modifier state = .ok () after) :
    after = { state.advance with pending := state.pending ++ [modifier] } ∧
      (after.current.isKeyword "fn" || after.current.isKeyword "pub" ||
        after.current.isKeyword "extern") = true := by
  change (if state.advance.pending.contains modifier then _ else _ : Parse Unit) state.advance = _
    at result
  split at result
  · cases result
  · change (if _ then pure () else expected _ : Parse Unit)
      { state.advance with pending := state.advance.pending ++ [modifier] } = _ at result
    split at result
    · next found =>
        cases result
        exact ⟨rfl, found⟩
    · cases result

/-- Behind a modifier comes a function or another modifier. -/
theorem kind_of_addModifier {modifier : Modifier} {state after : State}
    (result : addModifier modifier state = .ok () after) : after.current.kind = .keyword := by
  obtain ⟨_, found⟩ := addModifier_eq_ok result
  simp only [Bool.or_eq_true] at found
  rcases found with (found | found) | found <;> exact Token.kind_of_is found

section Statements

variable {statement statement' : Parse Stmt} {body body' : Parse (List Stmt)}
  {branch branch' : Parse (Expr × List Stmt × Alternate)} {arm arm' : Parse Arm} {state : State}

/-- A switch is read alike, unless a comment is in the way among its arms. -/
theorem mirrors_switch (arms : Mirrors Token.Balanced arm arm' Arm.uncommented)
    (takes : Takes arm')
    (patterns : ∀ state : State, state.current.kind = .comment →
      FailsWith arm (state.expectation "expression") state)
    (commented : Token.Commented state.rest) (keyword : state.current.isKeyword "switch" = true) :
    MirrorsAt Token.Balanced Never (do
        consume
        let subject ← expression .lowest
        return Stmt.switch subject (← block skipToArm arm))
      (do
        consume
        let subject ← expression .lowest
        return Stmt.switch subject (← block skipToArm arm')) Stmt.uncommented state := by
  obtain ⟨solid, flat⟩ := State.proper_of_keyword (Token.kind_of_is keyword)
  have later := commented.suffix state.advance_suffix
  have mirrors := mirrors_expression .lowest state.advance later
  cases result : expression .lowest state.advance with
  | error halt after =>
      exact .consume_bind shape_balanced solid flat (.of_bind_error result mirrors)
  | ok subject found =>
      unfold MirrorsAt at mirrors
      rw [result] at mirrors
      obtain ⟨⟨part, splits, flat'⟩, same | never⟩ := mirrors
      · obtain ⟨_, rest⟩ := State.exists_rest_of_solid solid
        have read : state.rest = state.current :: part ++ found.rest := by
          rw [List.cons_append, ← splits, State.advance, rest, List.tail_cons]
        have moves : consume state = .ok () state.advance := rfl
        have moves' : consume state.cleared = .ok () state.advance.cleared := by
          rw [← State.advance_cleared solid]
          rfl
        rcases mirrors_switchBody arms takes patterns (later.suffix ⟨part, splits.symm⟩) with
          mirrors | ⟨error, opening, later, fails, rest, opens, obstructs⟩
        · have goesOn : MirrorsAt Token.Balanced Never
              (block skipToArm arm >>= fun arms => pure (Stmt.switch subject arms))
              (block skipToArm arm' >>= fun arms => pure (Stmt.switch subject arms))
              Stmt.uncommented found :=
            mirrors.map fun arms => by rw [Stmt.uncommented, Arm.allUncommented_eq_map]
          exact .from_later found read
            (fun _ => Token.Balanced.append (.token flat (Token.balanced_of_flat flat')))
            ((bind_of_ok moves).trans (bind_of_ok result))
            ((bind_of_ok moves').trans (bind_of_ok same)) goesOn
        · refine .of_failsWith
            (failsWith_congr ((bind_of_ok moves).trans (bind_of_ok result)) fails.bind) ?_
          obtain ⟨front, semicolon, gap, comment, after, rfl, balanced, isSemicolon, separators,
            isComment, rfl⟩ := obstructs
          have parts : state.rest = [] ++ state.current :: part ++ opening :: front ++
              semicolon :: gap ++ comment :: after := by
            rw [read, rest]
            simp only [List.nil_append, List.append_assoc, List.cons_append]
          exact .arm parts keyword flat' opens balanced isSemicolon separators isComment
      · exact never.elim

theorem mirrors_statementUsing
    (statements : ∀ state : State, Token.Commented state.rest → state.current.kind = .keyword →
      MirrorsAt Token.Balanced Token.HidesElse statement statement' Stmt.uncommented state)
    (bodies : Mirrors Token.Balanced body body' Stmt.allUncommented)
    (branches : ∀ state : State, Token.Commented state.rest → state.current.kind = .keyword →
      MirrorsAt Token.Balanced Token.HidesElse branch branch' cleanBranch state)
    (arms : Mirrors Token.Balanced arm arm' Arm.uncommented) (takes : Takes arm')
    (patterns : ∀ state : State, state.current.kind = .comment →
      FailsWith arm (state.expectation "expression") state)
    (commented : Token.Commented state.rest) (solid : state.current.kind.isBlank = false) :
    MirrorsAt Token.Balanced Token.HidesElse (statementUsing statement body branch arm)
      (statementUsing statement' body' branch' arm') Stmt.uncommented state := by
  have values : MirrorsAt Token.Balanced Token.HidesElse
      (expression .lowest >>= fun value => pure (Stmt.expr value))
      (expression .lowest >>= fun value => pure (Stmt.expr value)) Stmt.uncommented state :=
    (((mirrors_expression .lowest).imp fun _ => Token.balanced_of_flat).here commented).map
      fun _ => rfl
  have parts {parser : Parse Stmt} (mirrors : MirrorsAt Flat Never parser parser Stmt.uncommented
      state) : MirrorsAt Token.Balanced Token.HidesElse parser parser Stmt.uncommented state :=
    mirrors.imp (fun _ => Token.balanced_of_flat) fun _ never => never.elim
  have modified (modifier : Modifier) (kind : state.current.kind = .keyword) :
      MirrorsAt Token.Balanced Token.HidesElse (addModifier modifier >>= fun _ => statement)
        (addModifier modifier >>= fun _ => statement') Stmt.uncommented state := by
    have begins : MirrorsAt Token.Balanced Never (addModifier modifier) (addModifier modifier) id
        state := (mirrors_addModifier commented kind modifier).imp
      (fun _ => Token.balanced_of_flat) fun _ => id
    refine begins.after shape_balanced commented ?_
    intro _ after result commented
    exact statements after commented (kind_of_addModifier result)
  refine .current_bind_of_solid solid ?_
  cases kind : state.current.kind with
  | endOfInput | endOfLine | comment =>
      rw [kind] at solid
      cases solid
  | keyword =>
      have later := commented.suffix state.advance_suffix
      obtain ⟨_, flat⟩ := State.proper_of_keyword kind
      cases spelled : Keyword.ofText? state.current.value with
      | none => exact .fail
      | some keyword =>
          cases keyword with
          | function =>
              have header := (mirrors_functionHeader commented kind).imp
                (fun _ => Token.balanced_of_flat) fun _ => id
              refine header.after shape_balanced commented ?_
              intro header opened _ commented
              split
              · refine .current_bind commented (fun _ => ?_) fun token token' blank blank' => ?_
                · split
                  · exact .expected
                  · exact .pure shape_balanced rfl
                · rw [Token.isDelimiter_of_isBlank blank, Token.isDelimiter_of_isBlank blank']
                  exact .pure shape_balanced rfl
              · exact (bodies.here commented).map fun _ => rfl
          | pub => exact modified .pub kind
          | external => exact modified .external kind
          | ifThen => exact (branches state commented kind).map fun _ => rfl
          | whileLoop =>
              have conditions := (mirrors_expression .lowest).imp fun _ => Token.balanced_of_flat
              refine .consume_bind shape_balanced solid flat ?_
              refine (conditions.here later).after shape_balanced later ?_
              intro condition opened _ commented
              exact (bodies.here commented).map fun _ => rfl
          | returns => exact parts (mirrors_returnStatement commented kind)
          | letBinding | constant => exact parts (mirrors_variableStatement commented kind)
          | switch =>
              refine (mirrors_switch arms takes patterns commented
                (isKeyword_of_ofText? kind spelled)).imp (fun _ => id) ?_
              intro _ never
              exact never.elim
          | use => exact parts (mirrors_useStatement commented kind)
          | true | false | null => exact values
          | otherwise | default | as => exact .fail
  | _ => exact values

/-- Whatever a parser builds has a property. -/
def Builds {α : Type} (parser : Parse α) (property : α → Prop) : Prop :=
  ∀ state value after, parser state = .ok value after → property value

namespace Builds

variable {α β : Type} {property : α → Prop}

theorem pure {value : α} (holds : property value) : Builds (Pure.pure value) property := by
  rintro state _ after ⟨⟩
  exact holds

theorem expected {what : String} : Builds (Parse.expected what) property := nofun

/-- What comes before does not matter to what is built. -/
theorem after {parser : Parse β} {next : β → Parse α}
    (second : ∀ value, Builds (next value) property) : Builds (parser >>= next) property := by
  intro state value after result
  obtain ⟨value', between, _, result⟩ := exists_of_bind result
  exact second value' between value after result

theorem ite {condition : Prop} [Decidable condition] {yes no : Parse α}
    (first : Builds yes property) (second : Builds no property) :
    Builds (if condition then yes else no) property := by
  split
  · exact first
  · exact second

end Builds

/-- Only a comment is read as one. -/
theorem isComment_of_statementUsing {value : Stmt} {after : State}
    (statements : ∀ (state : State) (value : Stmt) (after : State),
      state.current.kind = .keyword → statement state = .ok value after → value.isComment = false)
    (proper : state.current.kind ≠ .comment)
    (result : statementUsing statement body branch arm state = .ok value after) :
    value.isComment = false := by
  have modified {modifier : Modifier}
      (result : (addModifier modifier >>= fun _ => statement) state = .ok value after) :
      value.isComment = false := by
    obtain ⟨_, middle, result, result'⟩ := exists_of_bind result
    exact statements middle value after (kind_of_addModifier result) result'
  have built {parser : Parse Stmt} (builds : Builds parser fun stmt => stmt.isComment = false)
      (result : parser state = .ok value after) : value.isComment = false :=
    builds state value after result
  have expressions : Builds (expression .lowest >>= fun value => pure (Stmt.expr value))
      fun stmt => stmt.isComment = false := .after fun _ => .pure rfl
  unfold statementUsing at result
  rw [bind_of_ok (show current state = .ok state.current state from rfl)] at result
  cases kind : state.current.kind with
  | comment => exact absurd kind proper
  | keyword =>
      rw [kind] at result
      cases spelled : Keyword.ofText? state.current.value with
      | none =>
          rw [spelled] at result
          cases result
      | some keyword =>
          rw [spelled] at result
          cases keyword with
          | function =>
              refine built (.after fun _ => .ite ?_ (.after fun _ => .pure rfl)) result
              exact .after fun _ => .ite .expected (.pure rfl)
          | pub | external => exact modified result
          | ifThen => exact built (.after fun _ => .pure rfl) result
          | whileLoop | switch =>
              exact built (.after fun _ => .after fun _ => .after fun _ => .pure rfl) result
          | returns =>
              refine built (.after fun _ => .after fun _ => .ite (.pure rfl) ?_) result
              exact .after fun _ => .pure rfl
          | letBinding | constant =>
              refine built (.after fun _ => .after fun _ => .after fun _ => ?_) result
              exact .ite .expected (.pure rfl)
          | use =>
              refine built (.after fun _ => .after fun _ => .after fun _ => ?_) result
              refine .after fun _ => .after fun _ => .ite ?_ (.pure rfl)
              exact .after fun _ => .after fun _ => .pure rfl
          | true | false | null => exact built expressions result
          | otherwise | default | as => cases result
  | _ =>
      rw [kind] at result
      exact built expressions result

/-- A statement follows another one if its parts do. -/
theorem follows_statementUsing (follows : Follows statement statement')
    (bodies : Mirrors Token.Balanced body body' Stmt.allUncommented)
    (branches : ∀ state : State, Token.Commented state.rest → state.current.kind = .keyword →
      MirrorsAt Token.Balanced Token.HidesElse branch branch' cleanBranch state)
    (arms : Mirrors Token.Balanced arm arm' Arm.uncommented) (takes : Takes arm')
    (patterns : ∀ state : State, state.current.kind = .comment →
      FailsWith arm (state.expectation "expression") state) :
    Follows (statementUsing statement body branch arm)
      (statementUsing statement' body' branch' arm') where
  mirrors state commented := mirrors_statementUsing
    (fun state commented keyword => follows.mirrors state commented (by rw [keyword]; rfl))
    bodies branches arms takes patterns commented
  proper state value after := isComment_of_statementUsing
    fun state value after keyword => follows.proper state value after (by rw [keyword]; decide)
  comment state comment := by
    refine .inl ?_
    unfold statementUsing
    rw [bind_of_ok (show current state = .ok state.current state from rfl), comment]
    rfl
  alternate state isElse := by
    have kind := Token.kind_of_is isElse
    have spelled : state.current.value = "else" := by
      simp only [Token.isKeyword, Token.is, Bool.and_eq_true, beq_iff_eq] at isElse
      exact isElse.2
    have keyword : Keyword.ofText? "else" = some .otherwise := by decide
    refine ⟨.error _, state, ?_, .inl rfl⟩
    unfold statementUsing
    rw [bind_of_ok (show current state = .ok state.current state from rfl), kind, spelled, keyword,
      ← spelled]
    rfl

end Statements

/-! ### Any depth -/

theorem takes_arm : Takes arm := fun state =>
  .from_later (armWithin state.depth) state rfl (List.suffix_refl _) rfl
    (ends_armWithin _ state (by unfold State.depth; omega))

theorem takes_withEnd : Takes (withEnd statement) := fun state =>
  (ends_statement state).bind fun _ read read_lt =>
    ends_statementEnd.bind fun _ last last_lt => .pure (by omega)

theorem failsWith_armWithin {state : State} (depth : Nat)
    (comment : state.current.kind = .comment) :
    FailsWith (armWithin depth) (state.expectation "expression") state := by
  cases depth with
  | zero => exact ⟨_, _, rfl, .inr rfl⟩
  | succ depth => exact failsWith_armUsing comment

/-- A block follows another one if the statements in it do. -/
theorem mirrors_blockUsing {statement : Parse Stmt} (follows : Follows statement Parse.statement) :
    Mirrors Token.Balanced (blockUsing statement) statements Stmt.allUncommented := by
  have again : inBlock skipNewlines (withEnd Parse.statement) =
      round closesBlock closeBlock Parse.statement
        (inBlock skipNewlines (withEnd Parse.statement)) := by
    rw [← blockRound_eq]
    exact inBlock_eq (fun _ => .skipNewlines) takes_withEnd
  have zero : blockItems skipNewlines (withEnd statement) 0 = exhausted := rfl
  have succ (depth : Nat) : blockItems skipNewlines (withEnd statement) (depth + 1) =
      round closesBlock closeBlock statement (blockItems skipNewlines (withEnd statement) depth) :=
    blockRound_eq statement _
  have inside : Mirrors Closed (inBlock skipNewlines (withEnd statement))
      (inBlock skipNewlines (withEnd Parse.statement)) Stmt.allUncommented := fun state commented =>
    (mirrors_rounds closing_block zero succ follows again state.rounds state commented).congr rfl
      rfl
  rw [statements_eq]
  exact mirrors_block inside

theorem mirrors_statementWithin (depth : Nat) :
    Follows (statementWithin depth) statement ∧
      Mirrors Token.Balanced (blockWithin depth) statements Stmt.allUncommented ∧
      (∀ state : State, Token.Commented state.rest → state.current.kind = .keyword →
        MirrorsAt Token.Balanced Token.HidesElse (branchWithin depth) branch cleanBranch state) ∧
      Mirrors Token.Balanced (armWithin depth) arm Arm.uncommented := by
  induction depth with
  | zero =>
      have follows : Follows (statementWithin 0) statement :=
        ⟨fun _ _ _ => .exhausted, nofun, fun state _ => .inr ⟨state, rfl⟩,
          fun _ _ => ⟨_, _, rfl, .inr rfl⟩⟩
      exact ⟨follows, .exhausted, fun _ _ _ => .exhausted, .exhausted⟩
  | succ depth ih =>
      obtain ⟨follows, bodies, branches, arms⟩ := ih
      refine ⟨?_, ?_, fun state commented keyword => ?_, ?_⟩
      · rw [statement_eq]
        refine follows_statementUsing follows bodies branches arms takes_arm ?_
        intro _
        exact failsWith_armWithin depth
      · exact mirrors_blockUsing follows
      · rw [branch_eq]
        exact mirrors_branchUsing bodies branches commented keyword
      · rw [arm_eq]
        exact mirrors_armUsing bodies

/-! ### Programs -/

theorem statement_apply (state : State) : statement state = statementWithin state.depth state := by
  unfold statement
  exact bind_of_ok (show (get : Parse State) state = .ok state state from rfl)

theorem program_apply (state : State) : program state = programWithin state.rounds state := by
  unfold program
  exact bind_of_ok (show (get : Parse State) state = .ok state state from rfl)

/-- A statement is read alike with its comments and without them. -/
theorem follows_statement : Follows statement statement where
  mirrors state commented solid := by
    obtain ⟨follows, _⟩ := mirrors_statementWithin state.depth
    exact (follows.mirrors state commented solid).congr (statement_apply state) rfl
  proper state value after := by
    obtain ⟨follows, _⟩ := mirrors_statementWithin state.depth
    rw [statement_apply]
    exact follows.proper state value after
  comment state := by
    obtain ⟨follows, _⟩ := mirrors_statementWithin state.depth
    rw [statement_apply]
    exact follows.comment state
  alternate state isElse := by
    obtain ⟨follows, _⟩ := mirrors_statementWithin state.depth
    exact failsWith_congr (statement_apply state) (follows.alternate state isElse)

theorem program_eq_round : program = round State.atEnd (pure ()) statement program := by
  rw [← programRound_eq]
  exact program_eq

/-- A program is read alike with its comments and without them. -/
theorem mirrors_program : Mirrors Token.Balanced program program Stmt.allUncommented := by
  have zero : programWithin 0 = exhausted := rfl
  have succ (depth : Nat) : programWithin (depth + 1) =
      round State.atEnd (pure ()) statement (programWithin depth) := programRound_eq statement _
  intro state commented
  exact (mirrors_rounds closing_program zero succ follows_statement program_eq_round state.rounds
    state commented).congr (program_apply state) rfl

end SmallLang.Parse
