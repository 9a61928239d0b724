import SmallLang.Proofs.Parse.Reads
import SmallLang.Proofs.Parse.Unbounded.Stmt

/-!
# Reading the parts of statements

Uses, variables, returns, function headers and blocks are read back token by token. A block is read
back if its items are, each up to the line end after it.
-/

set_option autoImplicit false

namespace SmallLang

/-! ### Paths -/

theorem Text.split_join {separator : Char} {text first : List Char} {rest : List (List Char)}
    (cut : split separator text = first :: rest) :
    first ++ rest.flatMap (fun part => separator :: part) = text := by
  induction text generalizing first rest with
  | nil =>
      cases cut
      rfl
  | cons c later ih =>
      unfold split at cut
      split at cut
      · next same =>
          cases cut
          cases cut' : split separator later with
          | nil => exact absurd cut' (split_ne_nil separator later)
          | cons first' rest' =>
              rw [List.nil_append, List.flatMap_cons, List.cons_append, ih cut', same]
      · split at cut
        · next none => exact absurd none (split_ne_nil separator later)
        · next part parts cut' =>
            cases cut
            rw [List.cons_append, ih cut']

/-- The parts of a path, put together again. -/
theorem Text.parts_join {path first : String} {rest : List String}
    (cut : parts '/' path = first :: rest) :
    rest.foldl (fun path segment => path ++ "/" ++ segment) first = path := by
  have together (rest : List String) (first : String) :
      (rest.foldl (fun path segment => path ++ "/" ++ segment) first).toList =
        first.toList ++ rest.flatMap fun part => '/' :: part.toList := by
    induction rest generalizing first with
    | nil => simp
    | cons second rest ih => simp [ih]
  unfold parts at cut
  obtain ⟨first', rest', cut', rfl, rfl⟩ := List.map_eq_cons_iff.mp cut
  refine String.toList_injective ?_
  rw [together, List.flatMap_map, ← split_join cut']
  simp

namespace Parse

variable {state : State}

theorem segmentsWithin_reading (state : State) {next : Token} (later : List Token)
    (ends : next.isOperator "/" = false) (segments : List String) (path : String) (depth : Nat)
    (enough : segments.length < depth) :
    segmentsWithin path depth
        (state.reading (segments.flatMap (fun segment => [.operator "/", .word segment]) ++
          next :: later)) =
      .ok (segments.foldl (fun path segment => path ++ "/" ++ segment) path)
        (state.reading (next :: later)) := by
  induction segments generalizing path depth with
  | nil =>
      obtain ⟨depth, rfl⟩ := Nat.exists_eq_succ_of_ne_zero (Nat.ne_of_gt (Nat.zero_lt_of_lt enough))
      rw [segmentsWithin, current_bind]
      simp only [List.flatMap_nil, List.nil_append, State.current_reading, ends]
      rfl
  | cons segment segments ih =>
      obtain ⟨depth, rfl⟩ := Nat.exists_eq_succ_of_ne_zero (Nat.ne_of_gt (Nat.zero_lt_of_lt enough))
      exact ih (path ++ "/" ++ segment) depth (Nat.lt_of_succ_lt_succ enough)

theorem intersperse_words (first : String) (rest : List String) :
    ((first :: rest).map Token.word).intersperse (.operator "/") =
      .word first :: rest.flatMap fun segment => [.operator "/", .word segment] := by
  induction rest generalizing first with
  | nil => rfl
  | cons second rest ih =>
      rw [List.map_cons, List.map_cons, List.intersperse_cons_cons, ← List.map_cons, ih]
      rfl

theorem length_segments (segments : List String) :
    (segments.flatMap fun segment => [Token.operator "/", .word segment]).length =
      2 * segments.length := by
  induction segments with
  | nil => rfl
  | cons segment segments ih =>
      simp only [List.flatMap_cons, List.length_append, List.length_cons, List.length_nil, ih]
      omega

theorem useStatement_reading (used : Use) (later : List Token) :
    useStatement (state.reading (used.tokens ++ .lineEnd :: later)) =
      .ok (.use used.detached) (state.reading (.lineEnd :: later)) := by
  obtain ⟨path, rename, position⟩ := used
  cases cut : Text.parts '/' path with
  | nil => exact absurd (List.map_eq_nil_iff.mp cut) (Text.split_ne_nil _ _)
  | cons first rest =>
      have few (more : List Token) :
          rest.length <
            (rest.flatMap (fun segment => [Token.operator "/", .word segment]) ++ more).length +
              1 := by
        rw [List.length_append, length_segments]
        omega
      have read (next : Token) (later : List Token) (ends : next.isOperator "/" = false) :=
        segmentsWithin_reading state later ends rest first _ (few (next :: later))
      have step (tail : List Token) :
          useStatement (state.reading (.keyword .use :: .word first :: tail)) =
            (segmentsWithin first (tail.length + 1) >>= fun path => do
              if (← current).isKeyword "as" then
                consume
                let name ← identifier "alias after `as`"
                return .use ⟨path, some name, .null⟩
              else return .use ⟨path, none, .null⟩) (state.reading tail) := rfl
      rw [Text.parts_join cut] at read
      unfold Use.tokens
      rw [cut, intersperse_words, List.cons_append, List.cons_append, List.cons_append,
        List.cons_append, step, List.append_assoc]
      cases rename with
      | none => exact bind_of_ok (read .lineEnd later rfl)
      | some name => exact bind_of_ok (read (.keyword .as) (.word name :: .lineEnd :: later) rfl)

theorem closes_of_lineEnd {power : Power} {later : List Token} :
    (state.reading (.lineEnd :: later)).Closes power := ⟨rfl, rfl, rfl, rfl⟩

/-- A whole expression is read, up to what cannot belong to it. -/
theorem expression_reading {e : Expr} {rest : List Token} (spelled : e.Spelled)
    (closes : (state.reading rest).Closes .lowest) :
    expression .lowest (state.reading (e.tokens ++ rest)) = .ok e.detached (state.reading rest) :=
  spelled.reads.expression_eq_ok e.zero_lt_rank (by decide) closes

theorem typeAndValue_reading (state : State) (type : Option TypeName) {value : Option Expr}
    (spelled : ∀ e ∈ value, e.Spelled) (later : List Token) :
    typeAndValue (state.reading (Variable.typeAndValue type value ++ .lineEnd :: later)) =
      .ok (type.map TypeName.detached, value.map Expr.detached)
        (state.reading (.lineEnd :: later)) := by
  have typed (type : TypeName) (tail : List Token) :
      typeAndValue (state.reading (.delimiter ":" :: type.token :: tail)) =
        (do
          if (← current).isOperator "=" then
            consume
            return (some type.detached, some (← expression .lowest))
          else return (some type.detached, none)) (state.reading tail) := by
    change (typeName >>= _) (state.reading (type.token :: tail)) = _
    exact bind_of_ok (typeName_reading state tail type)
  cases type with
  | some type =>
      rw [Variable.typeAndValue.eq_def]
      cases value with
      | some value =>
          rw [List.cons_append, List.cons_append, typed]
          exact bind_of_ok (expression_reading (spelled value rfl) closes_of_lineEnd)
      | none => exact typed type (.lineEnd :: later)
  | none =>
      cases value with
      | some value => exact bind_of_ok (expression_reading (spelled value rfl) closes_of_lineEnd)
      | none => rfl

theorem variableStatement_reading {decl : Variable} (spelled : decl.Spelled) (later : List Token) :
    variableStatement (state.reading (decl.tokens ++ .lineEnd :: later)) =
      .ok (.declare decl.detached) (state.reading (.lineEnd :: later)) := by
  obtain ⟨name, mutable, type, value, position, resolved⟩ := decl
  obtain ⟨valued, constant, unresolved⟩ := spelled
  change ∀ e ∈ value, e.Spelled at valued
  obtain rfl : resolved = none := unresolved
  have read := typeAndValue_reading state type valued later
  cases mutable with
  | true =>
      change (typeAndValue >>= _) (state.reading (Variable.typeAndValue type value ++ _)) = _
      exact Eq.trans (bind_of_ok read) rfl
  | false =>
      obtain ⟨value, rfl⟩ := Option.isSome_iff_exists.mp (constant rfl)
      change (typeAndValue >>= _) (state.reading (Variable.typeAndValue type (some value) ++ _)) = _
      exact Eq.trans (bind_of_ok read) rfl

theorem returnStatement_reading {value : Option Expr} (spelled : ∀ e ∈ value, e.Spelled)
    (later : List Token) :
    returnStatement (state.reading ((Stmt.returns value).tokens ++ .lineEnd :: later)) =
      .ok (.returns (value.map Expr.detached)) (state.reading (.lineEnd :: later)) := by
  cases value with
  | none => rfl
  | some value =>
      have read : expression .lowest (state.reading (value.tokens ++ .lineEnd :: later)) = _ :=
        expression_reading (spelled value rfl) closes_of_lineEnd
      obtain ⟨first, rest, begins, opens⟩ :=
        Token.exists_opens_of_append (.lineEnd :: later) value.exists_opens
      have goesOn : endsValue first = false := by cases opens <;> rfl
      rw [Stmt.tokens, List.cons_append, begins]
      change (if endsValue first then _ else _ : Parse Stmt) (state.reading (first :: rest)) = _
      rw [goesOn, ← begins]
      exact bind_of_ok read

theorem parameter_reading (param : Parameter) (rest : List Token) :
    parameter (state.reading (param.tokens ++ rest)) = .ok param.detached (state.reading rest) := by
  change (typeName >>= _) (state.reading (param.typeName.token :: rest)) = _
  exact Eq.trans (bind_of_ok (typeName_reading state rest param.typeName)) rfl

/-- The state in which these modifiers wait. -/
def State.waiting (state : State) (modifiers : List Modifier) : State :=
  { state with pending := modifiers }

/-- The header takes the modifiers that wait. -/
theorem functionHeader_reading (state : State) {header : FunctionHeader}
    (waits : state.pending = header.modifiers)
    (unresolved : header.resolved = none) {next : Token} (noArrow : next.isOperator "->" = false)
    (later : List Token) :
    functionHeader (state.reading (.keyword .function :: (header.signature ++ next :: later))) =
      .ok header.detached ((state.waiting []).reading (next :: later)) := by
  obtain ⟨name, parameters, returns, modifiers, position, resolved⟩ := header
  obtain rfl : resolved = none := unresolved
  obtain rfl : state.pending = modifiers := waits
  have taken (tail : List Token) :
      functionHeader (state.reading (.keyword .function :: .word name :: .delimiter "(" :: tail)) =
        (list parameter >>= fun parameters => do
          if (← current).isOperator "->" then
            consume
            return ⟨name, parameters, some (← typeName), state.pending, .null, none⟩
          else return ⟨name, parameters, none, state.pending, .null, none⟩)
          ((state.waiting []).reading tail) := rfl
  have listed (rest : List Token) :
      list parameter ((state.waiting []).reading
          (Token.separated (parameters.map Parameter.tokens) ++ .delimiter ")" :: rest)) =
        .ok (parameters.map Parameter.detached) ((state.waiting []).reading rest) :=
    list_reading parameters (fun param _ => ⟨_, _, rfl, .word param.name⟩)
      fun param _ symbol _ rest => parameter_reading param (.delimiter symbol :: rest)
  unfold FunctionHeader.signature
  rw [List.cons_append, List.cons_append, List.append_assoc, List.cons_append, taken,
    bind_of_ok (listed _), current_bind]
  cases returns with
  | some type =>
      change (typeName >>= _) ((state.waiting []).reading (type.token :: next :: later)) = _
      exact bind_of_ok (typeName_reading _ _ type)
  | none =>
      change (if next.isOperator "->" then _ else _ : Parse FunctionHeader) _ = _
      rw [noArrow]
      rfl

/-- A modifier that is not waiting yet is read, if another one or the function follows. -/
theorem addModifier_reading {modifier : Modifier} {waiting : List Modifier} {next : Token}
    (unused : modifier ∉ waiting)
    (expected : (next.isKeyword "fn" || next.isKeyword "pub" || next.isKeyword "extern") = true)
    (later : List Token) :
    addModifier modifier
        ((state.waiting waiting).reading (.keyword modifier.keyword :: next :: later)) =
      .ok () ((state.waiting (waiting ++ [modifier])).reading (next :: later)) := by
  have notTwice : waiting.contains modifier = false := by simpa using unused
  change (if waiting.contains modifier then _ else _ : Parse Unit)
    ((state.waiting waiting).reading (next :: later)) = _
  rw [notTwice]
  change (if next.isKeyword "fn" || next.isKeyword "pub" || next.isKeyword "extern" then _
    else _ : Parse Unit) ((state.waiting (waiting ++ [modifier])).reading (next :: later)) = _
  rw [expected]
  rfl

/-- Modifiers that differ are read one after the other, and wait for their function. -/
theorem statement_waiting (state : State) (modifiers waiting : List Modifier) (later : List Token)
    (differ : (waiting ++ modifiers).Nodup) :
    statement ((state.waiting waiting).reading
        (modifiers.map (fun modifier => Token.keyword modifier.keyword) ++
          .keyword .function :: later)) =
      statement ((state.waiting (waiting ++ modifiers)).reading (.keyword .function :: later)) := by
  induction modifiers generalizing waiting with
  | nil => rw [List.append_nil, List.map_nil, List.nil_append]
  | cons modifier modifiers ih =>
      have unused : modifier ∉ waiting := by
        intro present
        rw [List.nodup_append] at differ
        exact differ.2.2 modifier present modifier List.mem_cons_self rfl
      have step (tail : List Token) :
          statement ((state.waiting waiting).reading (.keyword modifier.keyword :: tail)) =
            (addModifier modifier >>= fun _ => statement)
              ((state.waiting waiting).reading (.keyword modifier.keyword :: tail)) := by
        refine Eq.trans (congrFun statement_eq _) ?_
        cases modifier <;> rfl
      rw [List.append_cons] at differ
      rw [List.append_cons waiting, ← ih (waiting ++ [modifier]) differ, List.map_cons,
        List.cons_append, step]
      cases modifiers with
      | nil => exact bind_of_ok (addModifier_reading unused rfl later)
      | cons second modifiers =>
          refine bind_of_ok (addModifier_reading unused ?_ _)
          cases second <;> rfl

/-! ### Blocks -/

section Blocks

variable {α β : Type} {skip : Parse Unit} {item : Parse α} {tokens : β → List Token}
  {result : β → α} {starts : Token → Prop}

/-- Items that are each followed by a line end. -/
def ended (tokens : β → List Token) (values : List β) : List Token :=
  values.flatMap fun value => tokens value ++ [.lineEnd]

/-- How the items of a block start: with a token that is not skipped, and ends neither the block nor
the input. -/
def Begins (starts : Token → Prop) (tokens : List Token) : Prop :=
  ∃ first later, tokens = first :: later ∧ starts first ∧ first.isDelimiter "\x7d" = false ∧
    first.kind ≠ .endOfInput

/-- After the items of a block comes another one, or the closing brace. -/
theorem exists_starts_of_ended {values : List β} (closes : starts (.delimiter "\x7d"))
    (begins : ∀ value ∈ values, Begins starts (tokens value)) (rest : List Token) :
    ∃ first later, ended tokens values ++ .delimiter "\x7d" :: rest = first :: later ∧
      starts first := by
  cases values with
  | nil => exact ⟨_, _, rfl, closes⟩
  | cons value values =>
      obtain ⟨first, later, same, opens, -⟩ := begins value List.mem_cons_self
      rw [ended, List.flatMap_cons, same]
      exact ⟨first, _, rfl, opens⟩

/-- An item is read, and then those after it. -/
theorem blockItems_reading_cons {depth : Nat} {value : α} {values : List α} {first : Token}
    {later : List Token} {before after last : State}
    (skipped : skip before = .ok () (state.reading (first :: later)))
    (notClosed : first.isDelimiter "\x7d" = false) (notEnded : first.kind ≠ .endOfInput)
    (read : item (state.reading (first :: later)) = .ok value after)
    (others : blockItems skip item depth after = .ok values last) :
    blockItems skip item (depth + 1) before = .ok (value :: values) last := by
  have goesOn : ¬ (state.reading (first :: later)).atEnd = true := by
    rw [State.atEnd, State.current_reading, beq_iff_eq]
    exact notEnded
  rw [blockItems, bind_of_ok skipped, current_bind, State.current_reading, notClosed,
    if_neg Bool.false_ne_true, get_bind, if_neg goesOn, bind_of_ok read, bind_of_ok others]
  rfl

/-- Items are read back if what is skipped before an item, or before the closing brace, ends where
these start. -/
theorem blockItems_reading (closes : starts (.delimiter "\x7d")) (values : List β)
    (rest : List Token) (begins : ∀ value ∈ values, Begins starts (tokens value))
    (items : ∀ value ∈ values, ∀ first later, starts first → ∃ after,
      item (state.reading (tokens value ++ .lineEnd :: first :: later)) = .ok (result value) after ∧
        skip after = .ok () (state.reading (first :: later)))
    (depth : Nat) (enough : values.length < depth) (before : State)
    (skipped : skip before =
      .ok () (state.reading (ended tokens values ++ .delimiter "\x7d" :: rest))) :
    blockItems skip item depth before = .ok (values.map result) (state.reading rest) := by
  induction values generalizing depth before with
  | nil =>
      obtain ⟨depth, rfl⟩ := Nat.exists_eq_succ_of_ne_zero (Nat.ne_of_gt (Nat.zero_lt_of_lt enough))
      exact Eq.trans (bind_of_ok skipped) rfl
  | cons value values ih =>
      obtain ⟨depth, rfl⟩ := Nat.exists_eq_succ_of_ne_zero (Nat.ne_of_gt (Nat.zero_lt_of_lt enough))
      have begins' : ∀ value ∈ values, Begins starts (tokens value) :=
        fun other present => begins other (List.mem_cons_of_mem _ present)
      obtain ⟨next, later, same, startsNext⟩ := exists_starts_of_ended closes begins' rest
      obtain ⟨after, read, skippedNext⟩ := items value List.mem_cons_self next later startsNext
      rw [← same] at read skippedNext
      have others := ih begins' (fun other present => items other (List.mem_cons_of_mem _ present))
        depth (Nat.lt_of_succ_lt_succ enough) after skippedNext
      obtain ⟨first, inside, begun, -, notClosed, notEnded⟩ := begins value List.mem_cons_self
      rw [ended, List.flatMap_cons, List.append_assoc, List.append_assoc, List.singleton_append,
        begun, List.cons_append] at skipped
      rw [begun, List.cons_append] at read
      exact blockItems_reading_cons skipped notClosed notEnded read others

theorem length_le_ended (values : List β) : values.length ≤ (ended tokens values).length := by
  induction values with
  | nil => exact Nat.le_refl _
  | cons value values ih =>
      rw [ended, List.flatMap_cons, List.length_append, List.length_append, List.length_cons,
        List.length_singleton]
      unfold ended at ih
      omega

/-- A block is read back, from its opening brace on. -/
theorem block_reading (starts : Token → Prop) (closes : starts (.delimiter "\x7d"))
    (values : List β)
    (rest : List Token) (begins : ∀ value ∈ values, Begins starts (tokens value))
    (skips : ∀ first later, starts first →
      skip (state.reading (.lineEnd :: first :: later)) = .ok () (state.reading (first :: later)))
    (items : ∀ value ∈ values, ∀ first later, starts first → ∃ after,
      item (state.reading (tokens value ++ .lineEnd :: first :: later)) = .ok (result value) after ∧
        skip after = .ok () (state.reading (first :: later))) :
    block skip item (state.reading (Token.braced (ended tokens values) ++ rest)) =
      .ok (values.map result) (state.reading rest) := by
  obtain ⟨first, later, same, startsFirst⟩ := exists_starts_of_ended closes begins rest
  have skipped := skips first later startsFirst
  rw [← same] at skipped
  rw [Token.braced, List.cons_append, List.cons_append, List.append_assoc, List.singleton_append]
  change (blockItems skip item _) (state.reading (.lineEnd ::
    (ended tokens values ++ .delimiter "\x7d" :: rest))) = _
  refine blockItems_reading closes values rest begins items _ ?_ _ skipped
  have few : values.length ≤ (ended tokens values).length := length_le_ended values
  change values.length <
    (.lineEnd :: (ended tokens values ++ .delimiter "\x7d" :: rest) : List Token).length + 1
  rw [List.length_cons, List.length_append]
  omega

end Blocks

end Parse

end SmallLang
