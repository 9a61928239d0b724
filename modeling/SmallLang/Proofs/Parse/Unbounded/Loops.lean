import SmallLang.Proofs.Parse.Unbounded.Stmt

/-!
# Loops without a bound

A loop of the parser takes a token at least each time around, so the number of times that the parser
allows it is never used up. Its unbounded form is the parser itself, once around and then again.
-/

set_option autoImplicit false

namespace SmallLang.Parse

variable {α : Type}

/-- The most times around that a state may ask of a loop. -/
def State.rounds (state : State) : Nat := state.rest.length + 1

/-- A parser that ends by itself behind a token or more. -/
def Takes (parser : Parse α) : Prop := ∀ state : State, Ends parser state state.rest.length

/-! ### Lists -/

theorem approximates_listItems_succ (item : Parse α) (depth : Nat) :
    Approximates (listItems item depth) (listItems item (depth + 1)) := by
  induction depth with
  | zero => exact .exhausted _
  | succ depth ih =>
      refine .after fun _ => .after fun _ => .ite (.refl _) ?_
      exact .after fun _ => .after fun _ => .after fun _ => .bind ih fun _ => .refl _

/-- The items of a list. -/
def items (item : Parse α) : Parse (List α) := deepEnough State.rounds (listItems item)

theorem items_eq {item : Parse α} (takes : Takes item) :
    items item = do
      skipTrivia
      if (← current).isDelimiter ")" then return []
      else
        let first ← item
        skipTrivia
        listSeparator
        return first :: (← items item) := by
  have enough : NeverExhausted State.rounds (listItems item) := fun state _ =>
    (ends_listItems _ state (fun state' _ => takes state') (Nat.lt_succ_self _)).ne_exhausted
  refine enough.eq_of_approximates ?_
  intro depth
  cases depth with
  | zero => exact .exhausted _
  | succ depth =>
      refine .after fun _ => .after fun _ => .ite (.refl _) ?_
      refine .after ?_
      intro _
      refine .after ?_
      intro _
      refine .after ?_
      intro _
      refine .bind (enough.approximates (approximates_listItems_succ item) depth) ?_
      intro _
      exact .refl _

theorem list_eq (item : Parse α) :
    list item = (do
      let found ← items item
      let _ ← expect .delimiter ")"
      return found) := rfl

/-! ### Blocks -/

theorem approximates_blockItems_succ (skip : Parse Unit) (item : Parse α) (depth : Nat) :
    Approximates (blockItems skip item depth) (blockItems skip item (depth + 1)) := by
  induction depth with
  | zero => exact .exhausted _
  | succ depth ih =>
      refine .after fun _ => .after fun _ => .ite (.refl _) (.after fun _ => .ite (.refl _) ?_)
      exact .after fun _ => .bind ih fun _ => .refl _

/-- The items of a block, and the brace that closes it. -/
def inBlock (skip : Parse Unit) (item : Parse α) : Parse (List α) :=
  deepEnough State.rounds (blockItems skip item)

theorem inBlock_eq {skip : Parse Unit} {item : Parse α}
    (skips : ∀ state : State, Ends skip state (state.rest.length + 1)) (takes : Takes item) :
    inBlock skip item = do
      skip
      if (← current).isDelimiter "\x7d" then
        consume
        return []
      else if (← get).atEnd then expected "`\x7d`"
      else
        let first ← item
        return first :: (← inBlock skip item) := by
  have enough : NeverExhausted State.rounds (blockItems skip item) := fun state _ =>
    (ends_blockItems _ state skips (fun state' _ => takes state') (Nat.lt_succ_self _)).ne_exhausted
  refine enough.eq_of_approximates ?_
  intro depth
  cases depth with
  | zero => exact .exhausted _
  | succ depth =>
      refine .after fun _ => .after fun _ => .ite (.refl _) (.after fun _ => .ite (.refl _) ?_)
      refine .after ?_
      intro _
      refine .bind (enough.approximates (approximates_blockItems_succ skip item) depth) ?_
      intro _
      exact .refl _

theorem block_eq (skip : Parse Unit) (item : Parse α) :
    block skip item = (do
      let _ ← expect .delimiter "\x7b"
      inBlock skip item) := rfl

/-! ### Paths and programs -/

theorem approximates_segmentsWithin_succ (depth : Nat) (path : String) :
    Approximates (segmentsWithin path depth) (segmentsWithin path (depth + 1)) := by
  induction depth generalizing path with
  | zero => exact .exhausted _
  | succ depth ih =>
      exact .after fun _ => .ite (.after fun _ => .after fun _ => ih _) (.refl _)

/-- The path of a used module, after a part of it. -/
def segments (path : String) : Parse String := deepEnough State.rounds (segmentsWithin path)

theorem segments_eq (path : String) : segments path = do
    if (← current).isOperator "/" then
      consume
      let segment ← identifier "module path segment after `/`"
      segments (path ++ "/" ++ segment)
    else return path := by
  have enough (path : String) : NeverExhausted State.rounds (segmentsWithin path) :=
    fun state _ => (ends_segmentsWithin path _ state (Nat.lt_succ_self _)).ne_exhausted
  refine (enough path).eq_of_approximates ?_
  intro depth
  cases depth with
  | zero => exact .exhausted _
  | succ depth =>
      refine .after ?_
      intro _
      exact .ite (.after fun _ => .after fun _ =>
        (enough _).approximates (fun depth => approximates_segmentsWithin_succ depth _) depth)
        (.refl _)

theorem approximates_programWithin_succ (depth : Nat) :
    Approximates (programWithin depth) (programWithin (depth + 1)) := by
  induction depth with
  | zero => exact .exhausted _
  | succ depth ih =>
      refine .after fun _ => .after fun _ => .ite (.refl _) ?_
      exact .after fun _ => .after fun _ => .bind ih fun _ => .refl _

theorem program_eq : program = do
    skipNewlines
    if (← get).atEnd then return []
    else
      let first ← statement
      statementEnd
      return first :: (← program) := by
  have enough : NeverExhausted State.rounds programWithin :=
    fun state _ => (ends_programWithin _ state (Nat.lt_succ_self _)).ne_exhausted
  refine enough.eq_of_approximates ?_
  intro depth
  cases depth with
  | zero => exact .exhausted _
  | succ depth =>
      refine .after fun _ => .after fun _ => .ite (.refl _) ?_
      refine .after ?_
      intro _
      refine .after ?_
      intro _
      refine .bind (enough.approximates approximates_programWithin_succ depth) ?_
      intro _
      exact .refl _

end SmallLang.Parse
