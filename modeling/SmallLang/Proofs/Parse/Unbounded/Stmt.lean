import SmallLang.Proofs.Parse.Unbounded

/-!
# Statements without a bound

Statements, blocks, branches and arms call each other as if they had no bound on their depth.
-/

set_option autoImplicit false

namespace SmallLang.Parse

/-- A statement, by parsers for what stands inside it. -/
def statementUsing (statement : Parse Stmt) (body : Parse (List Stmt))
    (branch : Parse (Expr × List Stmt × Alternate)) (arm : Parse Arm) : Parse Stmt := do
  let token ← current
  match token.kind with
  | .keyword =>
      match Keyword.ofText? token.value with
      | some .function => do
          let header ← functionHeader
          if header.isExternal then
            if (← current).isDelimiter "\x7b" then expected "end of extern declaration"
            else return .function header none
          else return .function header (some (← body))
      | some .pub => do
          addModifier .pub
          statement
      | some .external => do
          addModifier .external
          statement
      | some .ifThen => do
          let (condition, body, alternate) ← branch
          return .branch condition body alternate
      | some .whileLoop => do
          consume
          let condition ← expression .lowest
          return .loop condition (← body)
      | some .returns => returnStatement
      | some .letBinding | some .constant => variableStatement
      | some .switch => do
          consume
          let subject ← expression .lowest
          return .switch subject (← block skipToArm arm)
      | some .use => useStatement
      | some .true | some .false | some .null => return .expr (← expression .lowest)
      | some .otherwise | some .default | some .as | none =>
          fail ⟨.unexpectedToken token.value, token.position⟩
  | .comment => do
      consume
      return .comment token.value
  | _ => return .expr (← expression .lowest)

/-- Statements between braces, by a parser for statements. -/
def blockUsing (statement : Parse Stmt) : Parse (List Stmt) :=
  block skipNewlines do
    let first ← statement
    statementEnd
    return first

/-- A branch, by parsers for its body and for the branch after it. -/
def branchUsing (body : Parse (List Stmt)) (branch : Parse (Expr × List Stmt × Alternate)) :
    Parse (Expr × List Stmt × Alternate) := do
  consume
  let condition ← expression .lowest
  let first ← body
  if (← get).peekPastNewlines.isKeyword "else" then
    skipNewlines
    consume
    if (← current).isKeyword "if" then
      let (condition', body', alternate) ← branch
      return (condition, first, .elseBranch condition' body' alternate)
    else return (condition, first, .otherwise (← body))
  else return (condition, first, .none)

/-- An arm, by a parser for its body. -/
def armUsing (body : Parse (List Stmt)) : Parse Arm := do
  match ← pattern with
  | some value => return .value value (← body)
  | none => return .otherwise (← body)

section Using

variable {statement statement' : Parse Stmt} {body body' : Parse (List Stmt)}
  {branch branch' : Parse (Expr × List Stmt × Alternate)} {arm arm' : Parse Arm}

theorem approximates_statementUsing (statements : Approximates statement statement')
    (bodies : Approximates body body') (branches : Approximates branch branch')
    (arms : Approximates arm arm') :
    Approximates (statementUsing statement body branch arm)
      (statementUsing statement' body' branch' arm') := by
  refine .after ?_
  intro token
  cases token.kind with
  | keyword =>
      cases Keyword.ofText? token.value with
      | none => exact .refl _
      | some keyword =>
          cases keyword with
          | function =>
              exact .after fun _ => .ite (.refl _) (.bind bodies fun _ => .refl _)
          | pub | external => exact .after fun _ => statements
          | ifThen => exact .bind branches fun _ => .refl _
          | whileLoop => exact .after fun _ => .after fun _ => .bind bodies fun _ => .refl _
          | switch => exact .after fun _ => .after fun _ => .bind arms.block fun _ => .refl _
          | _ => exact .refl _
  | _ => exact .refl _

theorem approximates_blockUsing (statements : Approximates statement statement') :
    Approximates (blockUsing statement) (blockUsing statement') :=
  .block (.bind statements fun _ => .refl _)

theorem approximates_branchUsing (bodies : Approximates body body')
    (branches : Approximates branch branch') :
    Approximates (branchUsing body branch) (branchUsing body' branch') := by
  refine .after fun _ => .after fun _ => .bind bodies fun _ => .after fun _ => .ite ?_ (.refl _)
  refine .after fun _ => .after fun _ => .after fun _ => .ite ?_ ?_
  · exact .bind branches fun _ => .refl _
  · exact .bind bodies fun _ => .refl _

theorem approximates_armUsing (bodies : Approximates body body') :
    Approximates (armUsing body) (armUsing body') := by
  refine .after ?_
  intro found
  cases found with
  | some value => exact .bind bodies fun _ => .refl _
  | none => exact .bind bodies fun _ => .refl _

end Using

theorem approximates_statementWithin_succ (depth : Nat) :
    Approximates (statementWithin depth) (statementWithin (depth + 1)) ∧
      Approximates (blockWithin depth) (blockWithin (depth + 1)) ∧
      Approximates (branchWithin depth) (branchWithin (depth + 1)) ∧
      Approximates (armWithin depth) (armWithin (depth + 1)) := by
  induction depth with
  | zero => exact ⟨.exhausted _, .exhausted _, .exhausted _, .exhausted _⟩
  | succ depth ih =>
      obtain ⟨statements, bodies, branches, arms⟩ := ih
      exact ⟨approximates_statementUsing statements bodies branches arms,
        approximates_blockUsing statements, approximates_branchUsing bodies branches,
        approximates_armUsing bodies⟩

/-- A branch, from its keyword on. -/
def branch : Parse (Expr × List Stmt × Alternate) := deepEnough State.depth branchWithin

/-- An arm of a switch. -/
def arm : Parse Arm := deepEnough State.depth armWithin

theorem neverExhausted_statementWithin : NeverExhausted State.depth statementWithin :=
  fun state _ => (ends_statementWithin _ state (Nat.le_refl _)).ne_exhausted

theorem neverExhausted_blockWithin : NeverExhausted State.depth blockWithin :=
  fun state _ => (ends_blockWithin _ state (by unfold State.depth; omega)).ne_exhausted

theorem neverExhausted_branchWithin : NeverExhausted State.depth branchWithin :=
  fun state _ => (ends_branchWithin _ state (by unfold State.depth; omega)).ne_exhausted

theorem neverExhausted_armWithin : NeverExhausted State.depth armWithin :=
  fun state _ => (ends_armWithin _ state (by unfold State.depth; omega)).ne_exhausted

theorem approximates_statement (depth : Nat) : Approximates (statementWithin depth) statement :=
  neverExhausted_statementWithin.approximates
    (fun depth => (approximates_statementWithin_succ depth).1) depth

theorem approximates_statements (depth : Nat) : Approximates (blockWithin depth) statements :=
  neverExhausted_blockWithin.approximates
    (fun depth => (approximates_statementWithin_succ depth).2.1) depth

theorem approximates_branch (depth : Nat) : Approximates (branchWithin depth) branch :=
  neverExhausted_branchWithin.approximates
    (fun depth => (approximates_statementWithin_succ depth).2.2.1) depth

theorem approximates_arm (depth : Nat) : Approximates (armWithin depth) arm :=
  neverExhausted_armWithin.approximates
    (fun depth => (approximates_statementWithin_succ depth).2.2.2) depth

theorem statement_eq : statement = statementUsing statement statements branch arm := by
  refine neverExhausted_statementWithin.eq_of_approximates ?_
  intro depth
  cases depth with
  | zero => exact .exhausted _
  | succ depth =>
      exact approximates_statementUsing (approximates_statement depth)
        (approximates_statements depth) (approximates_branch depth) (approximates_arm depth)

theorem statements_eq : statements = blockUsing statement := by
  refine neverExhausted_blockWithin.eq_of_approximates ?_
  intro depth
  cases depth with
  | zero => exact .exhausted _
  | succ depth => exact approximates_blockUsing (approximates_statement depth)

theorem branch_eq : branch = branchUsing statements branch := by
  refine neverExhausted_branchWithin.eq_of_approximates ?_
  intro depth
  cases depth with
  | zero => exact .exhausted _
  | succ depth =>
      exact approximates_branchUsing (approximates_statements depth) (approximates_branch depth)

theorem arm_eq : arm = armUsing statements := by
  refine neverExhausted_armWithin.eq_of_approximates ?_
  intro depth
  cases depth with
  | zero => exact .exhausted _
  | succ depth => exact approximates_armUsing (approximates_statements depth)

end SmallLang.Parse
