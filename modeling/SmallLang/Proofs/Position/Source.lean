import SmallLang.Analysis
import SmallLang.Proofs.Position.Check
import SmallLang.Proofs.Position.Parse
import SmallLang.Proofs.Token.Tiled

/-!
# Positions that an analysis blames

Whatever an analysis complains of stands in the source: where a token begins, or where the source
cannot be read on. Both lie between two characters, or at one of the ends.
-/

set_option autoImplicit false

namespace SmallLang

namespace Token

/-- Where the reading of a text comes to a halt: behind the lexemes at its head, in front of what
begins none. The text begins at a byte, and the halt is one. -/
inductive Stops : Nat → List Char → Nat → Prop where
  | here {offset : Nat} {first : Char} {rest : List Char} {unread : String} :
      Lexeme.read first rest = .error unread → Stops offset (first :: rest) offset
  | later {offset stop : Nat} {first : Char} {rest : List Char} {lexeme : Lexeme} :
      Lexeme.read first rest = .ok lexeme →
      Stops (offset + Text.byteLength (first :: rest.take lexeme.more))
        (rest.drop lexeme.more) stop →
      Stops offset (first :: rest) stop

variable {file : String} {offset stop : Nat} {open? : Bool} {text : List Char}
  {tokens : List Token} {error : Error}

theorem Stops.boundary (stops : Stops offset text stop) :
    ∃ before after, text = before ++ after ∧ stop = offset + Text.byteLength before := by
  induction stops with
  | here => exact ⟨[], _, rfl, rfl⟩
  | @later _ _ first rest lexeme _ _ ih =>
      obtain ⟨before, after, splits, reaches⟩ := ih
      refine ⟨first :: rest.take lexeme.more ++ before, after, ?_, ?_⟩
      · rw [List.append_assoc, ← splits, List.cons_append, List.take_append_drop]
      · rw [reaches, Text.byteLength_append, Nat.add_assoc]

/-- The error of a scan stands where the reading comes to a halt. -/
theorem stops_of_scanFrom : ∀ {offset : Nat} {open? : Bool} (text : List Char),
    scanFrom file offset open? text = .error error →
      ∃ stop, error.position = ⟨file, stop⟩ ∧ Stops offset text stop
  | offset, open?, [], fails => by
      rw [scanFrom] at fails
      cases fails
  | offset, open?, first :: rest, fails => by
      have goesOn {lexeme : Lexeme} (reads : Lexeme.read first rest = .ok lexeme) {open? : Bool}
          (fails : scanFrom file (offset + Text.byteLength (first :: rest.take lexeme.more)) open?
            (rest.drop lexeme.more) = .error error) :
          ∃ stop, error.position = ⟨file, stop⟩ ∧ Stops offset (first :: rest) stop := by
        obtain ⟨stop, stands, stops⟩ := stops_of_scanFrom _ fails
        exact ⟨stop, stands, .later reads stops⟩
      have unmapped {scanned : Except Error (List Token)} {token : Token}
          (fails : scanned.map (token :: ·) = .error error) : scanned = .error error := by
        cases scanned with
        | ok tokens => cases fails
        | error error => exact fails
      rw [scanFrom] at fails
      split at fails
      · next unread reads =>
          cases fails
          exact ⟨offset, rfl, .here reads⟩
      · next lexeme reads =>
          dsimp only at fails
          split at fails
          · exact goesOn reads (unmapped fails)
          · split at fails
            · exact goesOn reads (unmapped fails)
            · exact goesOn reads fails
          · exact goesOn reads fails
termination_by _ _ text => text.length
decreasing_by all_goals simp only [List.length_cons, List.length_drop]; omega

/-- Every token begins between two characters, or at one of the ends. -/
theorem Tiles.boundary (tiles : Tiles file offset open? text tokens) : ∀ token ∈ tokens,
    ∃ before after, text = before ++ after ∧
      token.position = ⟨file, offset + Text.byteLength before⟩ := by
  induction tiles with
  | finish =>
      intro token present
      obtain rfl := List.mem_singleton.mp present
      exact ⟨[], [], rfl, rfl⟩
  | @token _ _ _ _ text later _ _ _ ih =>
      refine List.forall_mem_cons.mpr ⟨⟨[], text ++ later, rfl, rfl⟩, fun token present => ?_⟩
      obtain ⟨before, after, rfl, stands⟩ := ih token present
      refine ⟨text ++ before, after, (List.append_assoc _ _ _).symm, ?_⟩
      rw [stands, Text.byteLength_append, Nat.add_assoc]
  | @gap _ _ text _ _ _ _ _ ih =>
      intro token present
      obtain ⟨before, after, rfl, stands⟩ := ih token present
      refine ⟨text ++ before, after, (List.append_assoc _ _ _).symm, ?_⟩
      rw [stands, Text.byteLength_append, Nat.add_assoc]

/-- The end of the input is one of the tokens of a source. -/
theorem stopOf_mem {source : String} (scans : scan source file = .ok tokens) :
    Parse.State.stopOf tokens ∈ tokens := by
  obtain ⟨front, rfl, _⟩ := (tiles_of_scanFrom source.toList scans).finished
  unfold Parse.State.stopOf
  cases found : List.find? (·.kind == .endOfInput) (front ++ [_]) with
  | some token => exact List.mem_of_find?_eq_some found
  | none =>
      have ends :=
        List.find?_eq_none.mp found _ (List.mem_append_right _ (List.mem_singleton_self _))
      exact absurd rfl ends

end Token

/-- A position points into a source: to where a token of it begins or, if there are none, to where
the reading comes to a halt. The end of the input is a token. -/
def Position.PointsInto (source file : String) (position : Position) : Prop :=
  ∃ before after, source.toList = before ++ after ∧ position = ⟨file, Text.byteLength before⟩ ∧
    match Token.scan source file with
    | .ok tokens => ∃ token ∈ tokens, token.position = position
    | .error _ => Token.Stops 0 source.toList position.offset

section Source

variable {source file : String} {tokens : List Token} {error : Error}

theorem Token.pointsInto_of_scan (scans : Token.scan source file = .ok tokens) :
    ∀ token ∈ tokens, token.position.PointsInto source file := by
  intro token present
  obtain ⟨before, after, splits, stands⟩ :=
    (Token.tiles_of_scanFrom source.toList scans).boundary token present
  rw [Nat.zero_add] at stands
  refine ⟨before, after, splits, stands, ?_⟩
  rw [scans]
  exact ⟨token, present, rfl⟩

theorem Error.pointsInto_of_scan (fails : Token.scan source file = .error error) :
    error.position.PointsInto source file := by
  obtain ⟨stop, stands, stops⟩ := Token.stops_of_scanFrom source.toList fails
  obtain ⟨before, after, splits, reaches⟩ := stops.boundary
  rw [Nat.zero_add] at reaches
  refine ⟨before, after, splits, by rw [stands, reaches], ?_⟩
  rw [fails, stands]
  exact stops

end Source

namespace Analysis

/-- The positions that an analysis blames: that of the error that ends it, or those of its
complaints. -/
def blamed : Except Error Analysis → List Position
  | .ok analysis => analysis.reports.map (·.position)
  | .error error => [error.position]

variable {place : Position → Prop} {program : Program} {tokens : List Token} {order : ForwardOrder}

theorem places_ofProgram (placed : Stmt.AllPlaced place program) (null : place .null) :
    ∀ position ∈ blamed (ofProgram order program), place position := by
  unfold ofProgram
  cases infers : program.infer order with
  | error error => exact List.forall_mem_singleton.mpr (Program.place_of_infer placed null infers)
  | ok typed =>
      have checks := Program.places_check (Program.allPlaced_of_infer placed infers) null
      change ∀ position ∈ blamed (do return ⟨typed, ← typed.check⟩), place position
      cases ends : typed.check with
      | error error =>
          rw [ends] at checks
          exact List.forall_mem_singleton.mpr checks
      | ok reports =>
          rw [ends] at checks
          exact List.forall_mem_map.mpr checks

theorem places_ofTokens (stand : ∀ token ∈ tokens, place token.position)
    (stop : Parse.State.stopOf tokens ∈ tokens) (null : place .null) :
    ∀ position ∈ blamed (Program.parse tokens >>= ofProgram order), place position := by
  cases parses : Program.parse tokens with
  | error error =>
      exact List.forall_mem_singleton.mpr (Program.place_of_parse stand (stand _ stop) parses)
  | ok program =>
      exact places_ofProgram (Program.placed_of_parse stand (stand _ stop) parses) null

/-- Whatever an analysis of a source blames stands nowhere, or points into the source. -/
theorem blamed_pointsInto (order : ForwardOrder) (source file : String) :
    ∀ position ∈ blamed (ofSource order source file),
      position = .null ∨ position.PointsInto source file := by
  unfold ofSource Program.read
  cases scans : Token.scan source file with
  | error error => exact List.forall_mem_singleton.mpr (.inr (Error.pointsInto_of_scan scans))
  | ok tokens =>
      have stand : ∀ token ∈ tokens,
          token.position = .null ∨ token.position.PointsInto source file :=
        fun token present => .inr (Token.pointsInto_of_scan scans token present)
      exact places_ofTokens stand (Token.stopOf_mem scans) (.inl rfl)

/-- A complaint behind a letter of two bytes, a letter that begins no token, and a complaint of an
expression without a name, in front of any declaration. -/
theorem blamed_pointsInto_letter :
    blamed (ofSource .byUse "let s := \"é\"\ns++" "main") = [⟨"main", 14⟩] ∧
      Position.PointsInto "let s := \"é\"\ns++" "main" ⟨"main", 14⟩ ∧
      blamed (ofSource .byUse "let é" "main") = [⟨"main", 4⟩] ∧
      Position.PointsInto "let é" "main" ⟨"main", 4⟩ ∧
      blamed (ofSource .byUse "return -\"a\"" "main") = [.null] := by
  have complains : blamed (ofSource .byUse "let s := \"é\"\ns++" "main") = [⟨"main", 14⟩] := by
    decide +kernel
  have halts : blamed (ofSource .byUse "let é" "main") = [⟨"main", 4⟩] := by decide +kernel
  refine ⟨complains, ?_, halts, ?_, by decide +kernel⟩
  · have blamed := complains ▸ List.mem_singleton_self _
    exact (blamed_pointsInto .byUse _ "main" ⟨"main", 14⟩ blamed).resolve_left (by decide)
  · have blamed := halts ▸ List.mem_singleton_self _
    exact (blamed_pointsInto .byUse _ "main" ⟨"main", 4⟩ blamed).resolve_left (by decide)

end Analysis

end SmallLang
