import SmallLang.Proofs.Comment.Statements
import SmallLang.Proofs.Token.Tiled

/-!
# Comments carry no meaning

Tokens with comments spell a program if they do without them, and the same program but for the
comments in it. Only a comment in the way of the parser makes a difference: one between a branch and
its `else`, or one behind a semicolon between the arms of a switch.
-/

set_option autoImplicit false

namespace SmallLang

open Parse

section Front

variable {front : List Token} {stop : Token}

/-- What is read are the tokens in front of the first end of the input. -/
theorem Parse.State.ofTokens_append (more : ∀ token ∈ front, token.kind ≠ .endOfInput)
    (isStop : stop.kind = .endOfInput) :
    State.ofTokens (front ++ [stop]) = ⟨front, stop, [], isStop⟩ := by
  have rest : (front ++ [stop]).takeWhile (·.kind != .endOfInput) = front := by
    rw [List.takeWhile_append_of_pos (by simpa using more),
      List.takeWhile_cons_of_neg (by simp [isStop]), List.append_nil]
  have finds : State.stopOf (front ++ [stop]) = stop := by
    have nowhere : front.find? (·.kind == .endOfInput) = none :=
      List.find?_eq_none.mpr (by simpa using more)
    simp [State.stopOf, nowhere, isStop]
  simp only [State.ofTokens, rest, finds]

end Front

section Scanned

variable {source file : String} {tokens : List Token}
  (scans : Token.scan source file = .ok tokens)

include scans

/-- Behind every comment that is scanned, the line ends. -/
theorem Token.commented_of_scan : Token.Commented (State.ofTokens tokens).rest := by
  have accounts := Token.scan_accounts scans
  obtain ⟨front, rfl, more⟩ := accounts.finished
  rw [State.ofTokens_append more rfl]
  refine accounts.next.left_of_append.imp_of_mem_imp ?_
  intro first second _ present next comment
  exact (next.2 comment).resolve_right (more second present)

/-- Without the comments, a program is read from the same place but for a gap in front of it. -/
theorem Parse.program_ofTokens_uncommented :
    program (.ofTokens (Token.uncommented tokens)) = program (State.ofTokens tokens).cleared := by
  obtain ⟨front, rfl, more⟩ := (Token.scan_accounts scans).finished
  have more' : ∀ token ∈ Token.cleared false front, token.kind ≠ .endOfInput :=
    fun token present => more token ((Token.cleared_sublist _ _).mem present)
  rw [Token.uncommented, Token.cleared_append false front Token.Kind.noConfusion
    Token.Kind.noConfusion, State.ofTokens_append more' rfl, State.ofTokens_append more rfl,
    program_eq_round]
  refine round_congr ?_
  simp only [State.skipNewlines, State.cleared, State.dropWhile_isSeparator_cleared]

/-- The tokens of a source spell the same program without their comments, but for the comments in
it. Where they spell none, they spell none without the comments either, unless a comment is in the
way. -/
theorem Program.parse_uncommented :
    (∀ program, Program.parse tokens = .ok program →
      Program.parse (Token.uncommented tokens) = .ok program.uncommented) ∧
    ∀ error, Program.parse tokens = .error error →
      (∃ error', Program.parse (Token.uncommented tokens) = .error error') ∨
        Token.Obstructs tokens error := by
  have mirrors := mirrors_program _ (Token.commented_of_scan scans)
  have same := program_ofTokens_uncommented scans
  unfold MirrorsAt at mirrors
  rw [← same] at mirrors
  constructor
  · intro program parsed
    obtain ⟨after, result⟩ := parse_eq_ok_iff.mp parsed
    rw [result] at mirrors
    obtain ⟨_, result' | never⟩ := mirrors
    · exact parse_eq_ok_iff.mpr ⟨_, result'⟩
    · exact never.elim
  · intro error failed
    obtain ⟨after, result⟩ := parse_eq_error_iff.mp failed
    rw [result] at mirrors
    rcases mirrors with ⟨halt, after', result'⟩ | obstructs
    · refine .inl ?_
      cases halt with
      | error error' => exact ⟨error', parse_eq_error_iff.mpr ⟨after', result'⟩⟩
      | exhausted => exact absurd result' (ends_program _).ne_exhausted
    · exact .inr (obstructs.of_infix (List.takeWhile_prefix _).isInfix)

end Scanned

namespace Commented

/-- Comments in a block and behind it. -/
def source : String := "if x \x7b // a\n// b\n\x7d\n\n// c\ny"

/-- The tokens of the source. -/
def tokens : List Token :=
  [⟨.keyword, "if", ⟨"f", 0, 2⟩⟩, ⟨.identifier, "x", ⟨"f", 3, 4⟩⟩,
   ⟨.delimiter, "\x7b", ⟨"f", 5, 6⟩⟩, ⟨.comment, "a", ⟨"f", 7, 11⟩⟩,
   ⟨.endOfLine, "\n", ⟨"f", 11, 12⟩⟩, ⟨.comment, "b", ⟨"f", 12, 16⟩⟩,
   ⟨.endOfLine, "\n", ⟨"f", 16, 17⟩⟩, ⟨.delimiter, "\x7d", ⟨"f", 17, 18⟩⟩,
   ⟨.endOfLine, "\n", ⟨"f", 18, 20⟩⟩, ⟨.comment, "c", ⟨"f", 20, 24⟩⟩,
   ⟨.endOfLine, "\n", ⟨"f", 24, 25⟩⟩, ⟨.identifier, "y", ⟨"f", 25, 26⟩⟩,
   Token.finish ⟨"f", 26, 26⟩]

/-- The program that they spell. -/
def program : Program :=
  [.branch (.identifier "x" ⟨"f", 3⟩) [.comment "a", .comment "b"] .none, .comment "c",
   .expr (.identifier "y" ⟨"f", 25⟩)]

/-- A comment between a branch and its `else`. -/
def alternate : List Token :=
  [⟨.keyword, "if", ⟨"f", 0, 2⟩⟩, ⟨.identifier, "x", ⟨"f", 3, 4⟩⟩,
   ⟨.delimiter, "\x7b", ⟨"f", 5, 6⟩⟩, ⟨.delimiter, "\x7d", ⟨"f", 6, 7⟩⟩,
   ⟨.comment, "c", ⟨"f", 8, 12⟩⟩, ⟨.endOfLine, "\n", ⟨"f", 12, 13⟩⟩,
   ⟨.keyword, "else", ⟨"f", 13, 17⟩⟩, ⟨.delimiter, "\x7b", ⟨"f", 18, 19⟩⟩,
   ⟨.delimiter, "\x7d", ⟨"f", 19, 20⟩⟩, Token.finish ⟨"f", 20, 20⟩]

/-- A comment behind a semicolon in a switch. -/
def arm : List Token :=
  [⟨.keyword, "switch", ⟨"f", 0, 6⟩⟩, ⟨.identifier, "x", ⟨"f", 7, 8⟩⟩,
   ⟨.delimiter, "\x7b", ⟨"f", 9, 10⟩⟩, ⟨.delimiter, ";", ⟨"f", 10, 11⟩⟩,
   ⟨.comment, "c", ⟨"f", 11, 15⟩⟩, ⟨.endOfLine, "\n", ⟨"f", 15, 16⟩⟩,
   ⟨.delimiter, "\x7d", ⟨"f", 16, 17⟩⟩, Token.finish ⟨"f", 17, 17⟩]

end Commented

open Commented in
/-- Comments that are read as statements, and two that are in the way. -/
theorem Program.parse_uncommented_statements :
    (Token.scan source "f" = .ok tokens ∧ Program.parse tokens = .ok program ∧
      Program.parse (Token.uncommented tokens) = .ok
        [.branch (.identifier "x" ⟨"f", 3⟩) [] .none, .expr (.identifier "y" ⟨"f", 25⟩)]) ∧
    (Token.scan "if x \x7b\x7d // c\nelse \x7b\x7d" "f" = .ok alternate ∧
      Program.parse alternate = .error ⟨.unexpectedToken "else", ⟨"f", 13⟩⟩ ∧
      Program.parse (Token.uncommented alternate) =
        .ok [.branch (.identifier "x" ⟨"f", 3⟩) [] (.otherwise [])] ∧
      Token.Obstructs alternate ⟨.unexpectedToken "else", ⟨"f", 13⟩⟩) ∧
    Token.scan "switch x \x7b;// c\n\x7d" "f" = .ok arm ∧
      Program.parse arm = .error ⟨.expectedToken "expression" "c", ⟨"f", 11⟩⟩ ∧
      Program.parse (Token.uncommented arm) = .ok [.switch (.identifier "x" ⟨"f", 7⟩) []] ∧
      Token.Obstructs arm ⟨.expectedToken "expression" "c", ⟨"f", 11⟩⟩ := by
  have scans : Token.scan source "f" = .ok tokens := by decide +kernel
  have parsed : Program.parse tokens = .ok program := by rfl
  have scans' : Token.scan "if x \x7b\x7d // c\nelse \x7b\x7d" "f" = .ok alternate := by
    decide +kernel
  have failed' : Program.parse alternate = .error ⟨.unexpectedToken "else", ⟨"f", 13⟩⟩ := by rfl
  have parsed' : Program.parse (Token.uncommented alternate) =
      .ok [.branch (.identifier "x" ⟨"f", 3⟩) [] (.otherwise [])] := by rfl
  have scans'' : Token.scan "switch x \x7b;// c\n\x7d" "f" = .ok arm := by decide +kernel
  have failed'' : Program.parse arm = .error ⟨.expectedToken "expression" "c", ⟨"f", 11⟩⟩ := by rfl
  have parsed'' : Program.parse (Token.uncommented arm) =
      .ok [.switch (.identifier "x" ⟨"f", 7⟩) []] := by rfl
  refine ⟨⟨scans, parsed, (parse_uncommented scans).1 program parsed⟩,
    ⟨scans', failed', parsed', ?_⟩, scans'', failed'', parsed'', ?_⟩
  · exact ((parse_uncommented scans').2 _ failed').resolve_left fun ⟨_, failed⟩ => by
      rw [parsed'] at failed
      cases failed
  · exact ((parse_uncommented scans'').2 _ failed'').resolve_left fun ⟨_, failed⟩ => by
      rw [parsed''] at failed
      cases failed

end SmallLang
