import SmallLang.Proofs.Parse.Climbing
import SmallLang.Proofs.Parse.Print
import SmallLang.Proofs.Parse.Spelled

/-!
# Reading what was printed

The parser reads a printed expression back, whatever follows it, as long as nothing that follows
would be taken for a part of it. So it goes on as if it had just read the expression.
-/

set_option autoImplicit false

namespace SmallLang

namespace Parse

/-! ### States -/

/-- The same state with other tokens to read. -/
def State.reading (state : State) (tokens : List Token) : State := { state with rest := tokens }

section States

variable (state : State) (first : Token) (later : List Token)

@[simp] theorem State.current_reading : (state.reading (first :: later)).current = first := rfl

@[simp] theorem State.advance_reading :
    (state.reading (first :: later)).advance = state.reading later := rfl

@[simp] theorem State.pending_reading (tokens : List Token) :
    (state.reading tokens).pending = state.pending := rfl

theorem State.skipTrivia_reading {first : Token} (proper : State.isTrivia first = false) :
    (state.reading (first :: later)).skipTrivia = state.reading (first :: later) := by
  simp [State.skipTrivia, State.reading, proper]

end States

end Parse

theorem Power.rank_le (power : Power) : power.rank ≤ Power.unary.rank := by
  cases power <;> decide

/-! ### First tokens -/

/-- A token that a printed expression may begin with. -/
inductive Token.Opens : Token → Prop where
  | number (text : String) : Opens (.written .number text)
  | string (value : String) : Opens (.written .string value)
  | word (name : String) : Opens (.word name)
  | true : Opens (.keyword .true)
  | false : Opens (.keyword .false)
  | null : Opens (.keyword .null)
  | group : Opens (.delimiter "(")
  | prefixed (operator : PrefixOperator) : Opens (.operator operator.symbol)

namespace Token.Opens

variable {token : Token}

theorem isTrivia (opens : token.Opens) : Parse.State.isTrivia token = Bool.false := by
  cases opens <;> rfl

theorem isDelimiter (opens : token.Opens) {symbol : String} (differs : symbol ≠ "(") :
    token.isDelimiter symbol = Bool.false := by
  cases opens with
  | group => simpa [Token.isDelimiter, Token.is, Token.delimiter, Token.written] using differs.symm
  | _ => rfl

theorem isKeyword (opens : token.Opens) {keyword : Keyword}
    (differs : keyword ∉ [Keyword.true, Keyword.false, Keyword.null]) :
    token.isKeyword keyword.text = Bool.false := by
  cases opens <;> first | rfl | (cases keyword <;> first | rfl | simp at differs)

end Token.Opens

theorem Token.exists_opens_of_grouped {least rank : Nat} {tokens : List Token}
    (opens : ∃ first later, tokens = first :: later ∧ first.Opens) :
    ∃ first later, Token.grouped least rank tokens = first :: later ∧ first.Opens := by
  unfold Token.grouped
  split
  · exact ⟨_, _, rfl, .group⟩
  · exact opens

theorem Token.exists_opens_of_append {tokens : List Token} (more : List Token)
    (opens : ∃ first later, tokens = first :: later ∧ first.Opens) :
    ∃ first later, tokens ++ more = first :: later ∧ first.Opens := by
  obtain ⟨first, later, same, opens⟩ := opens
  exact ⟨first, later ++ more, by rw [same, List.cons_append], opens⟩

/-- A printed expression has a first token. -/
theorem Expr.exists_opens : ∀ e : Expr, ∃ first later, e.tokens = first :: later ∧ first.Opens
  | .binary _ left _ =>
      Token.exists_opens_of_append _ (Token.exists_opens_of_grouped left.exists_opens)
  | .prefixed operator _ => ⟨_, _, rfl, .prefixed operator⟩
  | .postfixed _ operand =>
      Token.exists_opens_of_append _ (Token.exists_opens_of_grouped operand.exists_opens)
  | .call callee _ =>
      Token.exists_opens_of_append _ (Token.exists_opens_of_grouped callee.exists_opens)
  | .member object _ =>
      Token.exists_opens_of_append _ (Token.exists_opens_of_grouped object.exists_opens)
  | .identifier name _ => ⟨_, _, rfl, .word name⟩
  | .number text => ⟨_, _, rfl, .number text⟩
  | .string value => ⟨_, _, rfl, .string value⟩
  | .boolean true => ⟨_, _, rfl, .true⟩
  | .boolean false => ⟨_, _, rfl, .false⟩
  | .null => ⟨_, _, rfl, .null⟩

namespace Parse

/-! ### Steps of the parser -/

section Steps

variable {α β : Type} (state : State) (rest : List Token)

theorem expect_reading (kind : Token.Kind) (value : String) :
    expect kind value (state.reading (.written kind value :: rest)) =
      .ok (.written kind value) (state.reading rest) := by
  rw [expect, current_bind, State.current_reading, if_pos (by simp [Token.is, Token.written])]
  rfl

theorem typeName_reading (type : TypeName) :
    typeName (state.reading (type.token :: rest)) = .ok type.detached (state.reading rest) := by
  obtain ⟨name, position⟩ := type
  by_cases isNull : name = Keyword.null.text
  · subst isNull
    rfl
  · unfold TypeName.token
    rw [if_neg isNull]
    rfl

theorem Token.separated_cons_cons (first second : List Token) (more : List (List Token)) :
    Token.separated (first :: second :: more) =
      first ++ .delimiter "," :: Token.separated (second :: more) := by
  simp [Token.separated]

variable {item : Parse α} {tokens : β → List Token} {result : β → α} {state rest}

/-- An item is read, and then those after it. -/
theorem listItems_reading_cons {depth : Nat} {value : α} {values : List α} {first : Token}
    {later after after' : List Token} (opens : first.Opens)
    (read : item (state.reading (first :: later)) = .ok value (state.reading after))
    (noTrivia : (state.reading after).skipTrivia = state.reading after)
    (separates : listSeparator (state.reading after) = .ok () (state.reading after'))
    (others : listItems item depth (state.reading after') = .ok values (state.reading rest)) :
    listItems item (depth + 1) (state.reading (first :: later)) =
      .ok (value :: values) (state.reading rest) := by
  rw [listItems, skipTrivia_bind, state.skipTrivia_reading later opens.isTrivia, current_bind,
    State.current_reading, if_neg (Bool.not_eq_true _ ▸ opens.isDelimiter (by decide)),
    bind_of_ok read, skipTrivia_bind, noTrivia, bind_of_ok separates, bind_of_ok others]
  rfl

/-- Items are read back from between parentheses if each of them is, before a comma or the closing
one. -/
theorem listItems_reading (values : List β) (depth : Nat) (enough : values.length < depth)
    (opens : ∀ value ∈ values, ∃ first later, tokens value = first :: later ∧ first.Opens)
    (items : ∀ value ∈ values, ∀ symbol ∈ [",", ")"], ∀ rest,
      item (state.reading (tokens value ++ .delimiter symbol :: rest)) =
        .ok (result value) (state.reading (.delimiter symbol :: rest))) :
    listItems item depth
        (state.reading (Token.separated (values.map tokens) ++ .delimiter ")" :: rest)) =
      .ok (values.map result) (state.reading (.delimiter ")" :: rest)) := by
  obtain ⟨depth, rfl⟩ := Nat.exists_eq_succ_of_ne_zero (Nat.ne_of_gt (Nat.zero_lt_of_lt enough))
  induction values generalizing depth with
  | nil => rfl
  | cons value values ih =>
      have more : depth ≠ 0 := by
        rw [List.length_cons] at enough
        omega
      obtain ⟨depth, rfl⟩ := Nat.exists_eq_succ_of_ne_zero more
      obtain ⟨first, later, same, opensFirst⟩ := opens value List.mem_cons_self
      have others := ih (fun other present => opens other (List.mem_cons_of_mem _ present))
        (fun other present => items other (List.mem_cons_of_mem _ present)) depth
        (by simpa using enough)
      have read := items value List.mem_cons_self
      cases values with
      | nil =>
          have read := read ")" (by simp) rest
          rw [same] at read
          rw [List.map_cons, List.map_nil, Token.separated, List.flatMap_nil, List.append_nil, same]
          exact listItems_reading_cons opensFirst read rfl rfl others
      | cons second values =>
          have read := read "," (by simp)
            (Token.separated ((second :: values).map tokens) ++ .delimiter ")" :: rest)
          rw [same] at read
          rw [List.map_cons, List.map_cons, Token.separated_cons_cons, same, List.append_assoc]
          exact listItems_reading_cons opensFirst read rfl rfl others

theorem length_le_separated {chunks : List (List Token)} (proper : ∀ chunk ∈ chunks, chunk ≠ []) :
    chunks.length ≤ (Token.separated chunks).length := by
  cases chunks with
  | nil => exact Nat.le_refl _
  | cons first rest =>
      have some : 0 < first.length := List.length_pos_iff.mpr (proper first List.mem_cons_self)
      have each : rest.length ≤ (rest.flatMap fun item => Token.delimiter "," :: item).length := by
        clear proper
        induction rest with
        | nil => exact Nat.le_refl _
        | cons second rest ih =>
            simp only [List.flatMap_cons, List.length_append, List.length_cons]
            omega
      simp only [Token.separated, List.length_append, List.length_cons]
      omega

theorem list_reading (values : List β)
    (opens : ∀ value ∈ values, ∃ first later, tokens value = first :: later ∧ first.Opens)
    (items : ∀ value ∈ values, ∀ symbol ∈ [",", ")"], ∀ rest,
      item (state.reading (tokens value ++ .delimiter symbol :: rest)) =
        .ok (result value) (state.reading (.delimiter symbol :: rest))) :
    list item (state.reading (Token.separated (values.map tokens) ++ .delimiter ")" :: rest)) =
      .ok (values.map result) (state.reading rest) := by
  have enough : values.length <
      (Token.separated (values.map tokens) ++ .delimiter ")" :: rest).length + 1 := by
    have proper : ∀ chunk ∈ values.map tokens, chunk ≠ [] := by
      intro chunk present
      obtain ⟨value, among, rfl⟩ := List.mem_map.mp present
      obtain ⟨first, later, same, -⟩ := opens value among
      exact same ▸ List.cons_ne_nil first later
    have few := length_le_separated proper
    rw [List.length_map] at few
    rw [List.length_append]
    omega
  rw [list, get_bind]
  exact Eq.trans (bind_of_ok (listItems_reading values _ enough opens items))
    (bind_of_ok (expect_reading state rest .delimiter ")"))

end Steps

/-! ### Operators -/

/-- Nothing that comes next continues an expression whose operators are of these levels. -/
def State.ClosesFrom (least : Nat) (state : State) : Prop :=
  ∀ power : Power, least ≤ power.rank → state.Closes power

end Parse

open Parse in
/-- Parsers go on after the printed expression as if they had just read it. The first operators that
follow must not be taken for a part of its last operand. -/
def Expr.Reads (e : Expr) : Prop :=
  ∀ (power : Power) (state : State) (rest : List Token), power.rank < e.rank → power ≠ .unary →
    (state.reading rest).ClosesFrom e.rank →
    expression power (state.reading (e.tokens ++ rest)) =
      operators power e.detached (state.reading rest)

namespace Expr

open Parse

variable {power : Power} {state : State} {rest : List Token} {e : Expr}

theorem zero_lt_rank (e : Expr) : 0 < e.rank := by
  cases e with
  | binary operator left right =>
      cases operator <;> simp [rank, BinaryOperator.power, Power.rank]
  | _ => simp [rank, Power.rank]

/-- What follows parentheses, a list or a block closes every expression before it. -/
theorem closes_of_delimiter {symbol : String} (differs : symbol ≠ "(") :
    (state.reading (.delimiter symbol :: rest)).Closes power := by
  refine ⟨rfl, rfl, ?_, rfl⟩
  simpa [Token.isDelimiter, Token.is, Token.delimiter, Token.written] using differs

theorem Reads.expression_eq_ok (reads : e.Reads) (below : power.rank < e.rank)
    (notUnary : power ≠ .unary) (closes : (state.reading rest).Closes power) :
    expression power (state.reading (e.tokens ++ rest)) = .ok e.detached (state.reading rest) := by
  rw [reads power state rest below notUnary fun tighter le => closes.mono (by omega)]
  exact operators_of_closes closes

theorem operand_grouping {inner : List Token} {first : Token} {later : List Token}
    (begins : inner = first :: later) (opens : first.Opens) :
    operand (state.reading (.delimiter "(" :: inner)) =
      (do
        let e ← expression .lowest
        skipTrivia
        let _ ← expect .delimiter ")"
        return e) (state.reading inner) := by
  subst begins
  rw [operand_eq, operandUsing, current_bind, State.current_reading]
  change (do
    skipTrivia
    let e ← expression .lowest
    skipTrivia
    let _ ← expect .delimiter ")"
    return e : Parse Expr) (state.reading (first :: later)) = _
  rw [skipTrivia_bind, state.skipTrivia_reading later opens.isTrivia]

/-- Operands are read back, in parentheses or without them. -/
theorem Reads.grouped (reads : e.Reads) {least : Nat} (below : power.rank < least)
    (notUnary : power ≠ .unary) (closes : (state.reading rest).ClosesFrom least) :
    expression power (state.reading (Token.grouped least e.rank e.tokens ++ rest)) =
      operators power e.detached (state.reading rest) := by
  unfold Token.grouped
  split
  · obtain ⟨first, later, begins, opens⟩ :=
      Token.exists_opens_of_append (.delimiter ")" :: rest) e.exists_opens
    have inside : expression .lowest (state.reading (e.tokens ++ .delimiter ")" :: rest)) =
        .ok e.detached (state.reading (.delimiter ")" :: rest)) :=
      reads.expression_eq_ok e.zero_lt_rank (by decide) (closes_of_delimiter (by decide))
    have operand_eq :
        operand (state.reading (.delimiter "(" :: (e.tokens ++ .delimiter ")" :: rest))) =
          .ok e.detached (state.reading rest) := by
      rw [operand_grouping begins opens, bind_of_ok inside]
      rw [skipTrivia_bind, state.skipTrivia_reading rest rfl]
      exact bind_of_ok (expect_reading state rest .delimiter ")")
    rw [List.cons_append, List.append_assoc, List.singleton_append, expression_eq]
    exact bind_of_ok operand_eq
  · next plain =>
      exact reads power state rest (by omega) notUnary fun tighter le => closes tighter (by omega)

/-- An operand that is a single token is read. -/
theorem expression_of_atom? {token : Token} {atom : Expr} (found : atom? token = some atom)
    (valid : token.kind = .number → Number.isValid token.value = true) :
    expression power (state.reading (token :: rest)) =
      operators power atom (state.reading rest) := by
  have operand_eq : operand (state.reading (token :: rest)) = .ok atom (state.reading rest) := by
    have wellFormed : (token.kind == .number && !Number.isValid token.value) = false := by
      by_cases isNumber : token.kind = .number
      · simp [isNumber, valid isNumber]
      · simp [isNumber]
    rw [operand_eq, operandUsing, current_bind, State.current_reading, wellFormed, found]
    rfl
  rw [expression_eq]
  exact bind_of_ok operand_eq

/-- An operator closes what binds at least as tightly. -/
theorem closesFrom_of_operator (operator : BinaryOperator) :
    (state.reading (.operator operator.symbol :: rest)).ClosesFrom operator.power.rank := by
  intro power le
  refine ⟨by cases operator <;> rfl, by cases operator <;> rfl, rfl, ?_⟩
  refine Option.eq_none_iff_forall_ne_some.mpr ?_
  intro other found
  obtain ⟨-, named, above⟩ := operatorAbove?_eq_some_iff.mp found
  change BinaryOperator.ofSymbol? operator.symbol = some other at named
  rw [BinaryOperator.ofSymbol?_symbol] at named
  cases named
  omega

theorem ne_unary_of_operator (operator : BinaryOperator) : operator.power ≠ .unary := by
  cases operator <;> decide

/-- What is applied to an operand does not care about levels. -/
theorem Reads.applied (reads : e.Reads) (notUnary : power ≠ .unary) :
    expression power
        (state.reading (Token.grouped (Power.unary.rank + 1) e.rank e.tokens ++ rest)) =
      operators power e.detached (state.reading rest) := by
  refine reads.grouped (Nat.lt_succ_of_le power.rank_le) notUnary ?_
  intro other le
  exact absurd le (Nat.not_le_of_lt (Nat.lt_succ_of_le other.rank_le))

mutual

/-- Every expression is read back. -/
theorem Spelled.reads : ∀ {e : Expr}, e.Spelled → e.Reads
  | .identifier .., _ | .string _, _ | .boolean true, _ | .boolean false, _ | .null, _ =>
      fun _ _ _ _ _ _ => expression_of_atom? rfl nofun
  | .number _, valid => fun _ _ _ _ _ _ => expression_of_atom? rfl fun _ => valid
  | .member object property, spelled => by
      intro power state rest below notUnary _
      have reads : object.Reads := Spelled.reads spelled
      rw [tokens, List.append_assoc, reads.applied notUnary, List.cons_append, operators_member rfl]
      exact bind_of_ok rfl
  | .call callee arguments, ⟨spelled, spelledAll⟩ => by
      intro power state rest below notUnary _
      have reads : callee.Reads := Spelled.reads spelled
      have listed : list (expression .lowest)
          (state.reading (Token.separated (Expr.allTokens arguments) ++ .delimiter ")" :: rest)) =
            .ok (Expr.allDetached arguments) (state.reading rest) := by
        rw [Expr.allTokens_eq_map, Expr.allDetached_eq_map]
        refine list_reading arguments (fun e _ => e.exists_opens) ?_
        intro e present symbol among rest
        refine (AllSpelled.read spelledAll e present).expression_eq_ok e.zero_lt_rank (by decide) ?_
        exact closes_of_delimiter fun same => by simp [same] at among
      rw [tokens, List.append_assoc, reads.applied notUnary, List.cons_append, operators_call rfl]
      rw [List.append_assoc, List.singleton_append]
      exact bind_of_ok listed
  | .postfixed operator operand, spelled => by
      intro power state rest below notUnary _
      have reads : operand.Reads := Spelled.reads spelled
      rw [tokens, List.append_assoc, reads.applied notUnary, List.singleton_append]
      have found : postfixOperator? (.operator operator.symbol) = some operator := by
        cases operator <;> rfl
      exact operators_postfixed found
  | .prefixed operator operand, spelled => by
      intro power state rest below notUnary closes
      have reads : operand.Reads := Spelled.reads spelled
      have found : prefixOperator?
          (state.reading (Expr.tokens (.prefixed operator operand) ++ rest)).current =
            some operator := by
        cases operator <;> rfl
      have closes : (state.reading rest).ClosesFrom Power.unary.rank := closes
      have ends : (state.reading rest).Closes .multiplicative := by
        obtain ⟨noPostfix, noMember, noCall, -⟩ := closes .unary (Nat.le_refl _)
        exact ⟨noPostfix, noMember, noCall, operatorAbove?_eq_none (by decide) _⟩
      have inside : expression .multiplicative
          (state.reading (Token.grouped Power.unary.rank operand.rank operand.tokens ++ rest)) =
            .ok operand.detached (state.reading rest) :=
        (reads.grouped (by decide) (by decide) closes).trans (operators_of_closes ends)
      rw [expression_multiplicative] at inside
      rw [expression_eq]
      exact bind_of_ok ((operand_prefixed found).trans (bind_of_ok inside))
  | .binary operator left right, ⟨spelledLeft, spelledRight⟩ => by
      intro power state rest below notUnary closes
      have readsLeft : left.Reads := Spelled.reads spelledLeft
      have readsRight : right.Reads := Spelled.reads spelledRight
      have ends : (state.reading rest).Closes operator.power :=
        closes operator.power (Nat.le_refl _)
      have inside : expression operator.power (state.reading
          (Token.grouped (operator.power.rank + 1) right.rank right.tokens ++ rest)) =
            .ok right.detached (state.reading rest) := by
        refine Eq.trans ?_ (operators_of_closes ends)
        refine readsRight.grouped (Nat.lt_succ_self _) (ne_unary_of_operator operator) ?_
        intro tighter le
        exact ends.mono (Nat.le_of_succ_le le)
      have found : operatorAbove? power (.operator operator.symbol) = some operator :=
        operatorAbove?_eq_some_iff.mpr ⟨rfl, BinaryOperator.ofSymbol?_symbol operator, below⟩
      obtain ⟨first, later, begins, opens⟩ := Token.exists_opens_of_append rest
        (Token.exists_opens_of_grouped right.exists_opens)
      rw [begins] at inside
      rw [tokens, List.append_assoc, List.cons_append, begins]
      refine Eq.trans (readsLeft.grouped below notUnary (closesFrom_of_operator operator)) ?_
      refine Eq.trans (operators_binary found) ?_
      rw [State.advance_reading, state.skipTrivia_reading later opens.isTrivia]
      exact bind_of_ok inside

theorem AllSpelled.read : ∀ {es : List Expr}, Expr.AllSpelled es → ∀ e ∈ es, e.Reads
  | [], _ => List.forall_mem_nil _
  | _ :: _, spelled => List.forall_mem_cons.mpr ⟨Spelled.reads spelled.1, AllSpelled.read spelled.2⟩

end

end Expr

end SmallLang
