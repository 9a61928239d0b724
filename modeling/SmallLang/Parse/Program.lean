import SmallLang.Parse.Depth.Stmt

/-!
# Parsing whole programs

Tokens are parsed from the first to the end of input. The parser always ends by itself, so
that it gives a program or an error.
-/

set_option autoImplicit false

namespace SmallLang

/-- What a parser that ends by itself makes of a state. -/
def Parse.result {α : Type} (parser : Parse α) (state : Parse.State) (bound : Nat)
    (ends : Parse.Ends parser state bound) : Except Error α :=
  match result : parser state with
  | .ok value _ => .ok value
  | .error (.error error) _ => .error error
  | .error .exhausted _ => absurd result ends.ne_exhausted

def Program.parse (tokens : List Token) : Except Error Program :=
  Parse.program.result _ _ (Parse.ends_program (.ofTokens tokens))

theorem Program.parse_eq_ok_iff {tokens : List Token} {program : Program} :
    Program.parse tokens = .ok program ↔
      ∃ after, Parse.program (.ofTokens tokens) = .ok program after := by
  unfold Program.parse Parse.result
  split
  · next result =>
      rw [result]
      simp
  · next result =>
      rw [result]
      simp
  · next result =>
      exact absurd result (Parse.Ends.ne_exhausted (Parse.ends_program (.ofTokens tokens)))

theorem Program.parse_eq_error_iff {tokens : List Token} {error : Error} :
    Program.parse tokens = .error error ↔
      ∃ after, Parse.program (.ofTokens tokens) = .error (.error error) after := by
  unfold Program.parse Parse.result
  split
  · next result =>
      rw [result]
      simp
  · next result =>
      rw [result]
      simp
  · next result =>
      exact absurd result (Parse.Ends.ne_exhausted (Parse.ends_program (.ofTokens tokens)))

end SmallLang
