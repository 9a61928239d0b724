import SmallLang.Proofs.Parse.Reads.Parts

/-!
# Parsing what was printed

A program that was parsed is printed, and the tokens are parsed again. Statement by statement this
gives what was there before, in no source.
-/

set_option autoImplicit false

namespace SmallLang

/-! ### Statements -/

open Parse

/-- The parser reads a printed statement up to its line end, where no `else` follows. -/
def Stmt.Reads (s : Stmt) : Prop :=
  ∀ (state : State) (later : List Token), state.pending = [] →
    (state.reading (.lineEnd :: later)).peekPastNewlines.isKeyword "else" = false →
      statement (state.reading (s.tokens ++ .lineEnd :: later)) =
        .ok s.detached (state.reading (.lineEnd :: later))

/-- The parser reads a printed block. -/
def Stmt.AllRead (body : List Stmt) : Prop :=
  ∀ (state : State) (rest : List Token), state.pending = [] →
    statements (state.reading (Token.braced (Stmt.allTokens body) ++ rest)) =
      .ok (Stmt.allDetached body) (state.reading rest)

/-- The parser reads a printed branch with this after its body. -/
def Alternate.Reads (alternate : Alternate) : Prop :=
  ∀ (condition : Expr) (body : List Stmt), condition.Spelled → Stmt.AllRead body →
    ∀ (state : State) (later : List Token), state.pending = [] →
      (state.reading (.lineEnd :: later)).peekPastNewlines.isKeyword "else" = false →
        branch
          (state.reading ((Stmt.branch condition body alternate).tokens ++ .lineEnd :: later)) =
          .ok (condition.detached, Stmt.allDetached body, alternate.detached)
            (state.reading (.lineEnd :: later))

/-- The parser reads a printed arm. -/
def Arm.Reads (a : Arm) : Prop :=
  ∀ (state : State) (rest : List Token), state.pending = [] →
    arm (state.reading (a.tokens ++ rest)) = .ok a.detached (state.reading rest)

/-- A token that is not skipped before a statement, and does not go on with one. -/
def Token.StartsStmt (token : Token) : Prop :=
  State.isSeparator token = false ∧ token.isKeyword "else" = false

/-- A token that is not skipped before an arm. -/
def Token.StartsArm (token : Token) : Prop :=
  State.isTrivia token = false ∧ State.isSeparator token = false

theorem Token.Opens.startsStmt {token : Token} (opens : token.Opens) : token.StartsStmt := by
  cases opens with
  | prefixed operator => cases operator <;> exact ⟨rfl, rfl⟩
  | _ => exact ⟨rfl, rfl⟩

theorem Token.Opens.kind_ne {token : Token} (opens : token.Opens) : token.kind ≠ .endOfInput := by
  cases opens <;> nofun

theorem Expr.begins {starts : Token → Prop} (e : Expr) (more : List Token)
    (opens : ∀ token : Token, token.Opens → starts token) : Begins starts (e.tokens ++ more) := by
  obtain ⟨first, later, same, opensFirst⟩ := Token.exists_opens_of_append more e.exists_opens
  exact ⟨first, later, same, opens first opensFirst, opensFirst.isDelimiter (by decide),
    opensFirst.kind_ne⟩

theorem Stmt.Spelled.begins {s : Stmt} (spelled : s.Spelled) :
    Begins Token.StartsStmt s.tokens := by
  have keyword {keyword : Keyword} (more : List Token) (different : keyword ≠ .otherwise) :
      Begins Token.StartsStmt (.keyword keyword :: more) :=
    ⟨_, _, rfl, ⟨rfl, by cases keyword <;> first | rfl | exact absurd rfl different⟩, rfl, nofun⟩
  have header (header : FunctionHeader) (more : List Token) :
      Begins Token.StartsStmt (header.tokens ++ more) := by
    unfold FunctionHeader.tokens
    cases header.modifiers with
    | nil => exact keyword _ (by decide)
    | cons modifier modifiers => exact keyword _ (by cases modifier <;> decide)
  cases s with
  | expr e =>
      rw [Stmt.tokens, ← List.append_nil e.tokens]
      exact e.begins [] fun _ opens => opens.startsStmt
  | comment text => exact ⟨_, _, rfl, ⟨rfl, rfl⟩, rfl, nofun⟩
  | use used => exact keyword _ (by decide)
  | parameter | arm | merged => exact spelled.elim
  | returns value => cases value <;> exact keyword _ (by decide)
  | declare decl => exact keyword _ (by cases decl.mutable <;> decide)
  | function own body =>
      cases body with
      | none =>
          rw [Stmt.tokens, ← List.append_nil own.tokens]
          exact header own []
      | some body => exact header own _
  | branch | loop | switch => exact keyword _ (by decide)

section Skipping

variable {state : State} {first : Token} (later : List Token)

theorem skipNewlines_lineEnd (proper : State.isSeparator first = false) :
    (state.reading (.lineEnd :: first :: later)).skipNewlines = state.reading (first :: later) := by
  have ends : State.isSeparator .lineEnd = true := rfl
  simp [State.skipNewlines, State.reading, ends, proper]

theorem skipNewlines_reading (proper : State.isSeparator first = false) :
    (state.reading (first :: later)).skipNewlines = state.reading (first :: later) := by
  simp [State.skipNewlines, State.reading, proper]

theorem skipTrivia_lineEnd (proper : State.isTrivia first = false) :
    (state.reading (.lineEnd :: first :: later)).skipTrivia = state.reading (first :: later) := by
  have ends : State.isTrivia .lineEnd = true := rfl
  simp [State.skipTrivia, State.reading, ends, proper]

theorem peekPastNewlines_lineEnd (proper : State.isSeparator first = false) :
    (state.reading (.lineEnd :: first :: later)).peekPastNewlines = first := by
  have notEnd : (first.kind != .endOfLine) = true := by
    unfold State.isSeparator at proper
    simp only [Bool.or_eq_false_iff, beq_eq_false_iff_ne] at proper
    simpa using proper.1
  have ends : (Token.lineEnd.kind != .endOfLine) = false := rfl
  simp [State.peekPastNewlines, State.reading, ends, notEnd]

end Skipping

theorem Stmt.allRead_of_reads {body : List Stmt} (spelled : Stmt.AllSpelled body)
    (reads : ∀ s ∈ body, s.Reads) : Stmt.AllRead body := by
  intro state rest noneWait
  rw [statements_eq, Stmt.allTokens_eq_flatMap, Stmt.allDetached_eq_map]
  refine block_reading Token.StartsStmt ⟨rfl, rfl⟩ body rest ?_ ?_ ?_
  · exact fun s present => (Stmt.allSpelled_iff.mp spelled s present).begins
  · intro first later starts
    exact congrArg (EStateM.Result.ok ()) (skipNewlines_lineEnd later starts.1)
  · intro s present first later starts
    refine ⟨state.reading (first :: later), ?_, ?_⟩
    · refine bind_of_ok (reads s present state (first :: later) noneWait ?_)
      rw [peekPastNewlines_lineEnd later starts.1]
      exact starts.2
    · exact congrArg (EStateM.Result.ok ()) (skipNewlines_reading later starts.1)

theorem Arm.begins (a : Arm) : Begins Token.StartsArm a.tokens := by
  cases a with
  | value pattern body =>
      exact pattern.begins _ fun token opens => ⟨opens.isTrivia, opens.startsStmt.1⟩
  | otherwise body => exact ⟨_, _, rfl, ⟨rfl, rfl⟩, rfl, nofun⟩

theorem Arm.block_reading {arms : List Arm} (reads : ∀ a ∈ arms, a.Reads) {state : State}
    (noneWait : state.pending = []) (rest : List Token) :
    block skipToArm arm (state.reading (Token.braced (Arm.allTokens arms) ++ rest)) =
      .ok (Arm.allDetached arms) (state.reading rest) := by
  have skips (first : Token) (later : List Token) (starts : first.StartsArm) :
      skipToArm (state.reading (.lineEnd :: first :: later)) =
        .ok () (state.reading (first :: later)) := by
    rw [skipToArm, skipTrivia_bind, skipTrivia_lineEnd later starts.1]
    exact congrArg (EStateM.Result.ok ()) (skipNewlines_reading later starts.2)
  rw [Arm.allTokens_eq_flatMap, Arm.allDetached_eq_map]
  refine Parse.block_reading Token.StartsArm ⟨rfl, rfl⟩ arms rest ?_ skips ?_
  · exact fun a _ => a.begins
  · intro a present first later starts
    exact ⟨_, reads a present state (.lineEnd :: first :: later) noneWait, skips first later starts⟩

/-! ### Statements of each form -/

section Forms

variable {state : State} {later : List Token}

theorem closes_of_brace {power : Power} {tokens : List Token} :
    (state.reading (Token.braced tokens ++ later)).Closes power := ⟨rfl, rfl, rfl, rfl⟩

theorem Expr.Spelled.stmt_reads {e : Expr} (spelled : e.Spelled) : (Stmt.expr e).Reads := by
  intro state later noneWait noElse
  obtain ⟨first, rest, begins, opens⟩ :=
    Token.exists_opens_of_append (.lineEnd :: later) e.exists_opens
  have step : statement (state.reading (first :: rest)) =
      (expression .lowest >>= fun e => pure (.expr e)) (state.reading (first :: rest)) := by
    refine Eq.trans (congrFun statement_eq _) ?_
    cases opens with
    | prefixed operator => cases operator <;> rfl
    | _ => rfl
  rw [Stmt.tokens, begins, step, ← begins]
  exact bind_of_ok (expression_reading spelled closes_of_lineEnd)

theorem Stmt.returns_reads {value : Option Expr} (spelled : ∀ e ∈ value, e.Spelled) :
    (Stmt.returns value).Reads := by
  intro state later _ _
  refine Eq.trans ?_ (returnStatement_reading spelled later)
  cases value <;> exact congrFun statement_eq _

theorem Variable.Spelled.declare_reads {decl : Variable} (spelled : decl.Spelled) :
    (Stmt.declare decl).Reads := by
  intro state later _ _
  refine Eq.trans ((congrFun statement_eq _).trans ?_) (variableStatement_reading spelled later)
  rw [Stmt.tokens, Variable.tokens]
  cases decl.mutable <;> rfl

theorem State.waiting_nil (noneWait : state.pending = []) : state.waiting [] = state := by
  obtain ⟨rest, stop, pending, isStop⟩ := state
  obtain rfl : pending = [] := noneWait
  rfl

/-- A function is read up to its body. The modifiers before it wait no more. -/
theorem FunctionHeader.Spelled.reading {header : FunctionHeader} (spelled : header.Spelled)
    (noneWait : state.pending = []) {next : Token} (noArrow : next.isOperator "->" = false) :
    statement (state.reading (header.tokens ++ next :: later)) =
      (if header.isExternal then do
          if (← current).isDelimiter "\x7b" then expected "end of extern declaration"
          else return .function header.detached none
        else return .function header.detached (some (← statements)) : Parse Stmt)
        (state.reading (next :: later)) := by
  have waited := statement_waiting state header.modifiers []
    (header.signature ++ next :: later) spelled.modifiers
  rw [State.waiting_nil noneWait, List.nil_append] at waited
  rw [FunctionHeader.tokens, List.append_assoc, List.cons_append, waited]
  refine Eq.trans (congrFun statement_eq _) ?_
  have read := functionHeader_reading (state.waiting header.modifiers) rfl
    spelled.unresolved noArrow later
  change functionHeader _ = .ok header.detached ((state.waiting []).reading (next :: later)) at read
  rw [State.waiting_nil noneWait] at read
  exact bind_of_ok read

theorem Stmt.Spelled.prototype_reads {header : FunctionHeader} (spelled : header.Spelled)
    (external : header.isExternal = true) : (Stmt.function header none).Reads := by
  intro state later noneWait _
  refine (spelled.reading noneWait rfl).trans ?_
  rw [external]
  rfl

theorem Stmt.AllRead.function_reads {header : FunctionHeader} {body : List Stmt}
    (read : Stmt.AllRead body) (spelled : header.Spelled) (internal : header.isExternal = false) :
    (Stmt.function header (some body)).Reads := by
  intro state later noneWait _
  rw [Stmt.tokens, List.append_assoc]
  refine (spelled.reading noneWait rfl).trans ?_
  rw [internal]
  exact bind_of_ok (read state (.lineEnd :: later) noneWait)

theorem Stmt.AllRead.loop_reads {condition : Expr} {body : List Stmt} (read : Stmt.AllRead body)
    (spelled : condition.Spelled) : (Stmt.loop condition body).Reads := by
  intro state later noneWait _
  have step (tail : List Token) :
      statement (state.reading (.keyword .whileLoop :: tail)) =
        (expression .lowest >>= fun condition => do return .loop condition (← statements))
          (state.reading tail) := congrFun statement_eq _
  rw [Stmt.tokens, List.cons_append, step, List.append_assoc,
    bind_of_ok (expression_reading spelled closes_of_brace)]
  exact bind_of_ok (read state (.lineEnd :: later) noneWait)

theorem Arm.switch_reads {subject : Expr} {arms : List Arm} (reads : ∀ a ∈ arms, a.Reads)
    (spelled : subject.Spelled) : (Stmt.switch subject arms).Reads := by
  intro state later noneWait _
  have step (tail : List Token) :
      statement (state.reading (.keyword .switch :: tail)) =
        (expression .lowest >>= fun subject => do
          return .switch subject (← block skipToArm arm)) (state.reading tail) :=
    congrFun statement_eq _
  rw [Stmt.tokens, List.cons_append, step, List.append_assoc,
    bind_of_ok (expression_reading spelled closes_of_brace)]
  exact bind_of_ok (Arm.block_reading reads noneWait (.lineEnd :: later))

theorem Stmt.AllRead.value_reads {pattern : Expr} {body : List Stmt} (read : Stmt.AllRead body)
    (spelled : pattern.Spelled) : (Arm.value pattern body).Reads := by
  intro state rest noneWait
  obtain ⟨first, later, begins, opens⟩ := Token.exists_opens_of_append
    (.operator "->" :: (Token.braced (Stmt.allTokens body) ++ rest)) pattern.exists_opens
  have notDefault : first.isKeyword Keyword.default.text = false := opens.isKeyword (by decide)
  have step : Parse.pattern (state.reading (first :: later)) =
      (expression .lowest >>= fun value => do
        let _ ← expect .operator "->"
        return some value) (state.reading (first :: later)) := by
    rw [Parse.pattern, current_bind, State.current_reading]
    change (if first.isKeyword Keyword.default.text then _ else _ : Parse (Option Expr)) _ = _
    rw [notDefault]
    rfl
  have found : Parse.pattern (state.reading (first :: later)) =
      .ok (some pattern.detached) (state.reading (Token.braced (Stmt.allTokens body) ++ rest)) := by
    rw [step, ← begins, bind_of_ok (expression_reading spelled ⟨rfl, rfl, rfl, rfl⟩)]
    exact bind_of_ok (expect_reading state _ .operator "->")
  rw [Arm.tokens, List.append_assoc, List.cons_append, begins, arm_eq]
  exact (bind_of_ok found).trans (bind_of_ok (read state rest noneWait))

theorem Stmt.AllRead.otherwise_reads {body : List Stmt} (read : Stmt.AllRead body) :
    (Arm.otherwise body).Reads := by
  intro state rest noneWait
  have step (tail : List Token) :
      Parse.arm (state.reading (.keyword .default :: .operator "->" :: tail)) =
        (statements >>= fun body => pure (.otherwise body)) (state.reading tail) := by
    rw [arm_eq]
    rfl
  rw [Arm.tokens, List.cons_append, List.cons_append, step]
  exact bind_of_ok (read state rest noneWait)

/-- A branch is read up to what follows its body. -/
theorem Stmt.AllRead.branch_reading {condition : Expr} {body : List Stmt}
    (read : Stmt.AllRead body) (spelled : condition.Spelled) (noneWait : state.pending = [])
    (rest : List Token) :
    Parse.branch (state.reading
        (.keyword .ifThen :: (condition.tokens ++ (Token.braced (Stmt.allTokens body) ++ rest)))) =
      (do
        if (← get).peekPastNewlines.isKeyword "else" then
          skipNewlines
          consume
          if (← current).isKeyword "if" then
            let (condition', body', alternate) ← Parse.branch
            return (condition.detached, Stmt.allDetached body,
              .elseBranch condition' body' alternate)
          else return (condition.detached, Stmt.allDetached body, .otherwise (← statements))
        else return (condition.detached, Stmt.allDetached body, .none) :
        Parse (Expr × List Stmt × Alternate)) (state.reading rest) := by
  refine Eq.trans (congrFun branch_eq _) ?_
  change (expression .lowest >>= _) (state.reading (condition.tokens ++ _)) = _
  rw [bind_of_ok (expression_reading spelled closes_of_brace)]
  exact bind_of_ok (read state rest noneWait)

theorem Alternate.none_reads : Alternate.none.Reads := by
  intro condition body spelled read state later noneWait noElse
  rw [Stmt.tokens, Alternate.tokens, List.append_nil, List.cons_append, List.append_assoc,
    read.branch_reading spelled noneWait, get_bind, noElse]
  rfl

theorem Alternate.elseBranch_reads {condition : Expr} {body : List Stmt} {alternate : Alternate}
    (spelled : condition.Spelled) (read : Stmt.AllRead body) (reads : alternate.Reads) :
    (Alternate.elseBranch condition body alternate).Reads := by
  intro condition' body' spelled' read' state later noneWait noElse
  have inside := reads condition body spelled read state later noneWait noElse
  rw [Stmt.tokens, Alternate.tokens, List.cons_append, List.append_assoc, List.append_assoc,
    read'.branch_reading spelled' noneWait]
  exact bind_of_ok inside

theorem Stmt.AllRead.alternate_reads {body : List Stmt} (read : Stmt.AllRead body) :
    (Alternate.otherwise body).Reads := by
  intro condition' body' spelled' read' state later noneWait noElse
  rw [Stmt.tokens, Alternate.tokens, List.cons_append, List.append_assoc, List.append_assoc,
    read'.branch_reading spelled' noneWait]
  exact bind_of_ok (read state (.lineEnd :: later) noneWait)

theorem Alternate.Reads.branch_reads {condition : Expr} {body : List Stmt} {alternate : Alternate}
    (reads : alternate.Reads) (spelled : condition.Spelled) (read : Stmt.AllRead body) :
    (Stmt.branch condition body alternate).Reads := by
  intro state later noneWait noElse
  have step (tail : List Token) :
      statement (state.reading (.keyword .ifThen :: tail)) =
        (Parse.branch >>= fun (condition, body, alternate) =>
          pure (.branch condition body alternate))
          (state.reading (.keyword .ifThen :: tail)) := congrFun statement_eq _
  have inside := reads condition body spelled read state later noneWait noElse
  rw [Stmt.tokens, List.cons_append] at inside ⊢
  rw [step]
  exact bind_of_ok inside

end Forms

mutual

/-- Every statement that can be spelled is read back. -/
theorem Stmt.Spelled.reads : ∀ {s : Stmt}, s.Spelled → s.Reads
  | .expr _, spelled => Expr.Spelled.stmt_reads spelled
  | .comment _, _ => fun _ _ _ _ => congrFun statement_eq _
  | .use used, _ => fun _ later _ _ =>
    (congrFun statement_eq _).trans (useStatement_reading used later)
  | .parameter _, spelled | .arm _, spelled | .merged _, spelled => spelled.elim
  | .returns _, spelled => Stmt.returns_reads spelled
  | .declare _, spelled => Variable.Spelled.declare_reads spelled
  | .function _ none, ⟨spelled, external⟩ => Stmt.Spelled.prototype_reads spelled external
  | .function _ (some _), ⟨spelled, internal, spelledBody⟩ =>
      (Stmt.allRead_of_reads spelledBody (Stmt.AllSpelled.reads spelledBody)).function_reads
        spelled internal
  | .branch _ _ _, ⟨spelled, spelledBody, spelledRest⟩ =>
      (Alternate.Spelled.reads spelledRest).branch_reads spelled
        (Stmt.allRead_of_reads spelledBody (Stmt.AllSpelled.reads spelledBody))
  | .loop _ _, ⟨spelled, spelledBody⟩ =>
      (Stmt.allRead_of_reads spelledBody (Stmt.AllSpelled.reads spelledBody)).loop_reads spelled
  | .switch _ _, ⟨spelled, spelledArms⟩ =>
      Arm.switch_reads (Arm.AllSpelled.read spelledArms) spelled

theorem Alternate.Spelled.reads : ∀ {alternate : Alternate}, alternate.Spelled → alternate.Reads
  | .none, _ => Alternate.none_reads
  | .elseBranch _ _ _, ⟨spelled, spelledBody, spelledRest⟩ =>
      Alternate.elseBranch_reads spelled
        (Stmt.allRead_of_reads spelledBody (Stmt.AllSpelled.reads spelledBody))
        (Alternate.Spelled.reads spelledRest)
  | .otherwise _, spelled =>
      (Stmt.allRead_of_reads spelled (Stmt.AllSpelled.reads spelled)).alternate_reads

theorem Arm.Spelled.reads : ∀ {a : Arm}, a.Spelled → a.Reads
  | .value _ _, ⟨spelled, spelledBody⟩ =>
      (Stmt.allRead_of_reads spelledBody (Stmt.AllSpelled.reads spelledBody)).value_reads spelled
  | .otherwise _, spelled =>
      (Stmt.allRead_of_reads spelled (Stmt.AllSpelled.reads spelled)).otherwise_reads

theorem Stmt.AllSpelled.reads : ∀ {body : List Stmt}, Stmt.AllSpelled body → ∀ s ∈ body, s.Reads
  | [], _ => List.forall_mem_nil _
  | _ :: _, ⟨spelled, spelledRest⟩ =>
      List.forall_mem_cons.mpr ⟨Stmt.Spelled.reads spelled, Stmt.AllSpelled.reads spelledRest⟩

theorem Arm.AllSpelled.read : ∀ {arms : List Arm}, Arm.AllSpelled arms → ∀ a ∈ arms, a.Reads
  | [], _ => List.forall_mem_nil _
  | _ :: _, ⟨spelled, spelledRest⟩ =>
      List.forall_mem_cons.mpr ⟨Arm.Spelled.reads spelled, Arm.AllSpelled.read spelledRest⟩

end

/-! ### Programs -/

/-- Statements up to the end of input are read back. -/
theorem programWithin_reading {body : List Stmt} (spelled : Stmt.AllSpelled body) (depth : Nat)
    (enough : body.length < depth) (state : State) (noneWait : state.pending = []) :
    programWithin depth (state.reading (Stmt.allTokens body)) =
      .ok (Stmt.allDetached body) (state.reading []) := by
  induction body generalizing depth with
  | nil =>
      obtain ⟨depth, rfl⟩ := Nat.exists_eq_succ_of_ne_zero (Nat.ne_of_gt (Nat.zero_lt_of_lt enough))
      have finished : (state.reading []).atEnd = true := beq_iff_eq.mpr state.stop_kind
      change (if (state.reading []).atEnd then _ else _ : Parse Program) (state.reading []) = _
      rw [finished]
      rfl
  | cons s body ih =>
      obtain ⟨depth, rfl⟩ := Nat.exists_eq_succ_of_ne_zero (Nat.ne_of_gt (Nat.zero_lt_of_lt enough))
      obtain ⟨spelledFirst, spelledRest⟩ := spelled
      have others := ih spelledRest depth (Nat.lt_of_succ_lt_succ enough)
      have noElse : (state.reading (.lineEnd :: Stmt.allTokens body)).peekPastNewlines.isKeyword
          "else" = false := by
        cases body with
        | nil =>
            change state.stop.isKeyword "else" = false
            simp [Token.isKeyword, Token.is, state.stop_kind]
        | cons second body =>
            obtain ⟨first, later, same, starts, -⟩ := Stmt.Spelled.begins spelledRest.1
            rw [Stmt.allTokens, same, List.cons_append, peekPastNewlines_lineEnd _ starts.1]
            exact starts.2
      have read := Stmt.Spelled.reads spelledFirst state (Stmt.allTokens body) noneWait noElse
      obtain ⟨first, later, same, starts, -, notEnded⟩ := Stmt.Spelled.begins spelledFirst
      have goesOn : (state.reading (first :: (later ++ .lineEnd :: Stmt.allTokens body))).atEnd =
          false := beq_eq_false_iff_ne.mpr notEnded
      rw [same, List.cons_append] at read
      rw [Stmt.allTokens, same, List.cons_append, programWithin]
      change (do
        if (← get).atEnd then return []
        else
          let first ← statement
          statementEnd
          return first :: (← programWithin depth) : Parse Program)
        (State.skipNewlines (state.reading _)) = _
      rw [skipNewlines_reading _ starts.1, get_bind, goesOn]
      exact (bind_of_ok read).trans (bind_of_ok others)

namespace Program

theorem parse_of_run {tokens : List Token} {program : Program} {after : State}
    (result : Parse.program (.ofTokens tokens) = .ok program after) :
    Program.parse tokens = .ok program :=
  parse_eq_ok_iff.mpr ⟨after, result⟩

theorem ofTokens_print (program : Program) :
    (State.ofTokens program.print).rest = Stmt.allTokens program := by
  have inner : ∀ token ∈ Stmt.allTokens program, (token.kind != .endOfInput) = true :=
    List.all_eq_true.mp (Stmt.allTokens_inner program)
  change (Stmt.allTokens program ++ [_]).takeWhile _ = _
  rw [List.takeWhile_append_of_pos inner]
  exact List.append_nil _

/-- Parsing undoes printing: what was parsed from any tokens is printed, and parsed again from
those. It is the same program, with no positions. -/
theorem parse_print_of_parse {tokens : List Token} {program : Program}
    (parsed : Program.parse tokens = .ok program) :
    Program.parse program.print = .ok program.detached := by
  have spelled := allSpelled_of_parse parsed
  have begins : State.ofTokens program.print =
      (State.ofTokens program.print).reading (Stmt.allTokens program) := by
    rw [← ofTokens_print]
    rfl
  have enough : program.length < (Stmt.allTokens program).length + 1 := by
    rw [Stmt.allTokens_eq_flatMap]
    exact Nat.lt_succ_of_le (length_le_ended program)
  have read := programWithin_reading spelled _ enough (State.ofTokens program.print) rfl
  rw [← begins, ← ofTokens_print] at read
  exact parse_of_run read

namespace Regrouped

def token (kind : Token.Kind) (value : String) : Token := ⟨kind, value, ⟨"main.lang", 7, 8⟩⟩

/-- Tokens with more parentheses than needed, a semicolon, a trailing comma, and an `else` on a line
of its own. -/
def source : List Token :=
  [token .keyword "extern", token .keyword "pub", token .keyword "fn", token .identifier "f",
    token .delimiter "(", token .identifier "x", token .delimiter ":", token .keyword "null",
    token .delimiter ",", token .delimiter ")", token .delimiter ";",
    token .keyword "if", token .delimiter "(", token .delimiter "(", token .number "1",
    token .operator "-", token .number "2", token .delimiter ")", token .operator "-",
    token .delimiter "(", token .operator "-", token .identifier "y", token .operator "++",
    token .delimiter ")", token .delimiter ")", token .delimiter "\x7b", token .delimiter "\x7d",
    token .endOfLine "\n", token .keyword "else", token .keyword "if", token .delimiter "(",
    token .operator "!", token .identifier "y", token .delimiter ")", token .operator "++",
    token .delimiter "\x7b", token .keyword "return", token .delimiter "\x7d"]

def program : Program :=
  let position := (token .keyword "fn").position
  [.function ⟨"f", [⟨"x", "null", position⟩], none, [.external, .pub], position, none⟩ none,
    .branch
      (.binary .subtract (.binary .subtract (.number "1") (.number "2"))
        (.prefixed .negate (.postfixed .increment (.identifier "y" position))))
      []
      (.elseBranch (.postfixed .increment (.prefixed .not (.identifier "y" position)))
        [.returns none] .none)]

end Regrouped

open Regrouped in
/-- Parentheses that are not needed are gone, and those that are needed stay. -/
theorem parse_print_of_parse_regrouped :
    Program.parse source = .ok program ∧
      Program.parse (Program.print program) = .ok (Program.detached program) := by
  have parsed : Program.parse source = .ok program := by rfl
  exact ⟨parsed, parse_print_of_parse parsed⟩

end Program

end SmallLang
