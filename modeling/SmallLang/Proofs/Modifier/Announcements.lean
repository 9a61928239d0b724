import Mathlib.Data.List.DropRight
import SmallLang.Proofs.Parse.Spelled
import SmallLang.Proofs.Tree.Declarations

/-!
# Announced functions

A `fn` among tokens announces a function, and the modifiers directly in front of it are meant for
that function alone. Seen from a parser that goes from one token to the next, they wait until it
comes to the `fn`.
-/

set_option autoImplicit false

namespace SmallLang

/-! ### Among tokens -/

namespace Token

/-- The modifier that a token is. -/
def modifier? (token : Token) : Option Modifier :=
  if token.isKeyword "pub" then some .pub
  else if token.isKeyword "extern" then some .external
  else none

/-- Whether a token can stand where a function is announced. -/
def announces (token : Token) : Bool :=
  token.isKeyword "fn" || token.isKeyword "pub" || token.isKeyword "extern"

/-- The modifiers that tokens end with. -/
def lastModifiers (tokens : List Token) : List Modifier :=
  (tokens.rtakeWhile (·.modifier?.isSome)).filterMap modifier?

/-- Where each `fn` stands among tokens, with the modifiers directly in front of it. -/
def announcements (tokens : List Token) : List (Position × List Modifier) :=
  (tokens.zipIdx.filter (·.1.isKeyword "fn")).map fun (token, index) =>
    (token.position, lastModifiers (tokens.take index))

/-- What is announced from here on, while some modifiers wait for their function. -/
def announcedAfter (waiting : List Modifier) : List Token → List (Position × List Modifier)
  | [] => []
  | first :: rest =>
      match first.modifier? with
      | some modifier => announcedAfter (waiting ++ [modifier]) rest
      | none =>
          if first.isKeyword "fn" then (first.position, waiting) :: announcedAfter [] rest
          else announcedAfter [] rest

section Keyword

variable {token : Token} {text other : String}

/-- A keyword is no other one. -/
theorem isKeyword_eq_of_isKeyword (keyword : token.isKeyword text = true) :
    token.isKeyword other = (text == other) := by
  simp only [isKeyword, is, Bool.and_eq_true, beq_iff_eq] at keyword
  rw [isKeyword, is, keyword.1, keyword.2]
  rfl

theorem announces_eq_of_isKeyword (keyword : token.isKeyword text = true) :
    token.announces = (text == "fn" || text == "pub" || text == "extern") := by
  simp only [announces, isKeyword_eq_of_isKeyword keyword]

theorem announces_of_kind (kind : token.kind ≠ .keyword) : token.announces = false := by
  simp [announces, isKeyword, is, kind]

theorem announces_of_beq {kind : Kind} (found : (token.kind == kind) = true)
    (proper : kind ≠ .keyword) : token.announces = false :=
  announces_of_kind (beq_iff_eq.mp found ▸ proper)

theorem announces_of_is {kind : Kind} (found : token.is kind text = true)
    (proper : kind ≠ .keyword) : token.announces = false :=
  announces_of_kind (kind_of_is found ▸ proper)

theorem modifier?_eq_of_isKeyword (keyword : token.isKeyword text = true) :
    token.modifier? =
      if text == "pub" then some .pub else if text == "extern" then some .external else none := by
  simp only [modifier?, isKeyword_eq_of_isKeyword keyword]

theorem modifier?_of_function (function : token.isKeyword "fn" = true) :
    token.modifier? = none :=
  modifier?_eq_of_isKeyword function

theorem modifier?_of_plain (plain : token.announces = false) : token.modifier? = none := by
  simp only [announces, Bool.or_eq_false_iff] at plain
  simp [modifier?, plain]

end Keyword

theorem lastModifiers_concat (front : List Token) (last : Token) :
    lastModifiers (front ++ [last]) =
      match last.modifier? with
      | some modifier => lastModifiers front ++ [modifier]
      | none => [] := by
  rw [lastModifiers, List.rtakeWhile_concat]
  cases found : last.modifier? with
  | some modifier => simp [lastModifiers, found]
  | none => rfl

section AnnouncedAfter

variable {first : Token} (waiting : List Modifier) (rest : List Token)

theorem announcedAfter_function (function : first.isKeyword "fn" = true) :
    announcedAfter waiting (first :: rest) =
      (first.position, waiting) :: announcedAfter [] rest := by
  rw [announcedAfter, modifier?_of_function function]
  exact if_pos function

theorem announcedAfter_modifier {modifier : Modifier} (found : first.modifier? = some modifier) :
    announcedAfter waiting (first :: rest) = announcedAfter (waiting ++ [modifier]) rest := by
  rw [announcedAfter, found]

/-- In front of any other token, modifiers announce nothing. -/
theorem announcedAfter_other (found : first.modifier? = none)
    (other : ¬ first.isKeyword "fn" = true) :
    announcedAfter waiting (first :: rest) = announcedAfter [] rest := by
  rw [announcedAfter, found]
  exact if_neg other

theorem announcedAfter_plain (plain : first.announces = false) :
    announcedAfter waiting (first :: rest) = announcedAfter [] rest := by
  refine announcedAfter_other waiting rest (modifier?_of_plain plain) ?_
  simp only [announces, Bool.or_eq_false_iff] at plain
  simp [plain]

/-- While nothing waits, tokens that announce nothing may be skipped. -/
theorem announcedAfter_dropWhile {skipped : Token → Bool}
    (plain : ∀ token, skipped token = true → token.announces = false) :
    announcedAfter [] (rest.dropWhile skipped) = announcedAfter [] rest := by
  induction rest with
  | nil => rfl
  | cons first rest ih =>
      rw [List.dropWhile_cons]
      split
      · next skips => rw [ih, announcedAfter_plain [] rest (plain first skips)]
      · rfl

end AnnouncedAfter

/-- Behind tokens that were passed, the modifiers wait that those end with. -/
theorem announcedAfter_lastModifiers (front back : List Token) :
    announcedAfter (lastModifiers front) back =
      ((back.zipIdx front.length).filter (·.1.isKeyword "fn")).map fun (token, index) =>
        (token.position, lastModifiers ((front ++ back).take index)) := by
  induction back generalizing front with
  | nil => rfl
  | cons first back ih =>
      have later := ih (front ++ [first])
      rw [lastModifiers_concat, List.length_append, List.length_singleton, List.append_assoc,
        List.singleton_append] at later
      rw [List.zipIdx_cons]
      by_cases function : first.isKeyword "fn" = true
      · rw [modifier?_of_function function] at later
        rw [announcedAfter_function _ _ function, List.filter_cons_of_pos (by exact function),
          List.map_cons, ← later]
        dsimp only
        rw [List.take_left]
      · rw [List.filter_cons_of_neg (by exact function), ← later]
        cases found : first.modifier? with
        | some modifier => exact announcedAfter_modifier _ _ found
        | none => exact announcedAfter_other _ _ found function

theorem announcements_eq (tokens : List Token) :
    announcements tokens = announcedAfter [] tokens :=
  (announcedAfter_lastModifiers [] tokens).symm

end Token

/-! ### In a tree -/

/-- The function that a statement declares, with its body. -/
def Stmt.function? : Stmt → Option (FunctionHeader × Option (List Stmt))
  | .function header body => some (header, body)
  | _ => none

/-- The functions of a program, at any depth, each before those in its body. -/
def Program.functions (program : Program) : List (FunctionHeader × Option (List Stmt)) :=
  (Stmt.allDeclarations program).filterMap Stmt.function?

/-- What a function was announced with. -/
def FunctionHeader.announcement (header : FunctionHeader) : Position × List Modifier :=
  (header.position, header.modifiers)

/-- The functions among declarations, as they were announced. -/
def Stmt.announcements (declarations : List Stmt) : List (Position × List Modifier) :=
  (declarations.filterMap Stmt.function?).map (·.1.announcement)

namespace Stmt

@[simp] theorem announcements_append (front back : List Stmt) :
    announcements (front ++ back) = announcements front ++ announcements back := by
  simp [announcements]

theorem announcements_function (header : FunctionHeader) (body : Option (List Stmt))
    (rest : List Stmt) :
    announcements (.function header body :: rest) = header.announcement :: announcements rest :=
  rfl

theorem announcements_allDeclarations (body : List Stmt) :
    announcements (allDeclarations body) = body.flatMap fun s => announcements s.declarations := by
  induction body with
  | nil => rfl
  | cons first rest ih => rw [allDeclarations, announcements_append, ih, List.flatMap_cons]

end Stmt

theorem Arm.announcements_allDeclarations (arms : List Arm) :
    Stmt.announcements (Arm.allDeclarations arms) =
      arms.flatMap fun arm => Stmt.announcements arm.declarations := by
  induction arms with
  | nil => rfl
  | cons first rest ih => rw [Arm.allDeclarations, Stmt.announcements_append, ih, List.flatMap_cons]

/-! ### Spelled declarations -/

mutual

/-- What is declared somewhere in a program that can be spelled can be spelled too. -/
theorem Stmt.Spelled.declarations : ∀ {s : Stmt}, s.Spelled → ∀ d ∈ s.declarations, d.Spelled
  | .declare decl, spelled, d, present => by
      rw [Stmt.declarations, List.mem_singleton] at present
      rwa [present]
  | .function header none, spelled, d, present => by
      rw [Stmt.declarations, List.mem_singleton] at present
      rwa [present]
  | .function header (some body), spelled, d, present => by
      rw [Stmt.declarations, List.mem_cons] at present
      rcases present with rfl | inside
      · exact spelled
      · exact Stmt.AllSpelled.declarations spelled.2.2 d inside
  | .branch condition body alternate, spelled, d, present => by
      rw [Stmt.declarations, List.mem_append] at present
      rcases present with inside | behind
      · exact Stmt.AllSpelled.declarations spelled.2.1 d inside
      · exact Alternate.Spelled.declarations spelled.2.2 d behind
  | .loop condition body, spelled, d, present => Stmt.AllSpelled.declarations spelled.2 d present
  | .switch subject arms, spelled, d, present => Arm.AllSpelled.declarations spelled.2 d present

theorem Alternate.Spelled.declarations : ∀ {alternate : Alternate}, alternate.Spelled →
    ∀ d ∈ alternate.declarations, d.Spelled
  | .elseBranch condition body alternate, spelled, d, present => by
      rw [Alternate.declarations, List.mem_append] at present
      rcases present with inside | behind
      · exact Stmt.AllSpelled.declarations spelled.2.1 d inside
      · exact Alternate.Spelled.declarations spelled.2.2 d behind
  | .otherwise body, spelled, d, present => Stmt.AllSpelled.declarations spelled d present

theorem Arm.Spelled.declarations : ∀ {arm : Arm}, arm.Spelled → ∀ d ∈ arm.declarations, d.Spelled
  | .value pattern body, spelled, d, present => Stmt.AllSpelled.declarations spelled.2 d present
  | .otherwise body, spelled, d, present => Stmt.AllSpelled.declarations spelled d present

theorem Stmt.AllSpelled.declarations : ∀ {body : List Stmt}, Stmt.AllSpelled body →
    ∀ d ∈ Stmt.allDeclarations body, d.Spelled
  | first :: rest, spelled, d, present => by
      rw [Stmt.allDeclarations, List.mem_append] at present
      rcases present with inside | later
      · exact Stmt.Spelled.declarations spelled.1 d inside
      · exact Stmt.AllSpelled.declarations spelled.2 d later

theorem Arm.AllSpelled.declarations : ∀ {arms : List Arm}, Arm.AllSpelled arms →
    ∀ d ∈ Arm.allDeclarations arms, d.Spelled
  | first :: rest, spelled, d, present => by
      rw [Arm.allDeclarations, List.mem_append] at present
      rcases present with inside | later
      · exact Arm.Spelled.declarations spelled.1 d inside
      · exact Arm.AllSpelled.declarations spelled.2 d later

end

/-- In a program that can be spelled, no function has a modifier twice, and those without a body are
those that are defined elsewhere. -/
theorem Stmt.AllSpelled.functions {program : Program} (spelled : Stmt.AllSpelled program)
    {header : FunctionHeader} {body : Option (List Stmt)}
    (present : (header, body) ∈ program.functions) :
    header.modifiers.Nodup ∧ (body = none ↔ .external ∈ header.modifiers) := by
  obtain ⟨d, declared, isFunction⟩ := List.mem_filterMap.mp present
  have spelled := spelled.declarations d declared
  have external : header.isExternal = true ↔ .external ∈ header.modifiers := List.contains_iff_mem
  rw [← external]
  cases d <;> cases isFunction
  cases body with
  | none => exact ⟨spelled.1.modifiers, iff_of_true rfl spelled.2⟩
  | some body => exact ⟨spelled.1.modifiers, iff_of_false nofun (by simp [spelled.2.1])⟩

end SmallLang
