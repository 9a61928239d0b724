import SmallLang.Proofs.Module.Replaces
import SmallLang.Proofs.Parse.Built
import SmallLang.Proofs.Token.Tiled

/-!
# Names without dots

The scanner leaves no dot in a word. So the names that a file declares at its top have none, nor
have those under which it reaches modules, and a qualified name can be taken apart at its first
dot.
-/

set_option autoImplicit false

namespace SmallLang

/-- A name without a dot. -/
def Undotted (name : String) : Prop := '.' ∉ name.toList

section Qualified

variable {space space' name name' : String}

theorem Expr.toList_qualifiedName (space name : String) :
    (Expr.qualifiedName space name).toList = space.toList ++ '.' :: name.toList := by
  unfold Expr.qualifiedName
  rw [String.toList_append, String.toList_append, List.append_assoc]
  rfl

/-- A qualified name has a dot. -/
theorem Undotted.ne_qualifiedName (undotted : Undotted name') :
    name' ≠ Expr.qualifiedName space name := by
  intro same
  apply undotted
  rw [same, Expr.toList_qualifiedName]
  exact List.mem_append_right _ List.mem_cons_self

private theorem takeWhile_undotted {before after : List Char} (undotted : '.' ∉ before) :
    (before ++ '.' :: after).takeWhile (· != '.') = before := by
  rw [List.takeWhile_append_of_pos]
  · exact List.append_nil before
  · intro c present
    exact bne_iff_ne.mpr fun same => undotted (same ▸ present)

/-- A name can be taken apart into its namespace and what is named there. -/
theorem Expr.qualifiedName_inj (undotted : Undotted space) (undotted' : Undotted space')
    (same : Expr.qualifiedName space name = Expr.qualifiedName space' name') :
    space = space' ∧ name = name' := by
  have texts := congrArg String.toList same
  rw [toList_qualifiedName, toList_qualifiedName] at texts
  have spaces := congrArg (List.takeWhile (· != '.')) texts
  rw [takeWhile_undotted undotted, takeWhile_undotted undotted'] at spaces
  rw [spaces, List.append_cancel_left_eq, List.cons.injEq] at texts
  exact ⟨String.toList_inj.mp spaces, String.toList_inj.mp texts.2⟩

end Qualified

section Scanning

/-- No word has a dot. -/
theorem Lexeme.IsWord.undotted {name : String} (word : IsWord name.toList) : Undotted name := by
  obtain ⟨first, rest, same, starts, parts⟩ := word
  intro dotted
  rw [same] at dotted
  cases dotted with
  | head => exact absurd starts (by decide)
  | tail _ later => exact absurd (parts '.' later) (by decide)

/-- Words alone are read as identifiers. -/
theorem Token.given_of_scan {source file : String} {tokens : List Token}
    (scans : scan source file = .ok tokens) :
    ∀ token ∈ tokens, token.Given Undotted fun _ => True := by
  refine fun token present => ⟨fun isWord => ?_, trivial⟩
  obtain ⟨_, _, _, _, _, spelling, _⟩ :=
    (tiles_of_scanFrom _ scans).exact token present (isWord ▸ rfl)
  exact (spelling.of_word (.inl isWord)).1.undotted

end Scanning

section Parsing

/-- A statement at the top of a file declares a name without a dot. It uses a module by such a path,
and gives such a name to it. -/
structure Stmt.Undotted (s : Stmt) : Prop where
  declared : ∀ name ∈ s.declared?, SmallLang.Undotted name
  used : ∀ used, s = .use used → SmallLang.Undotted used.namespaceName
  path : ∀ used, s = .use used → SmallLang.Undotted used.path

/-- A statement that names nothing at the top of a file. -/
theorem Stmt.undotted_of_nameless {s : Stmt} (declared : s.declared? = none)
    (notUse : ∀ used, s ≠ .use used) : s.Undotted where
  declared name same := by
    rw [declared] at same
    cases same
  used used same := absurd same (notUse used)
  path used same := absurd same (notUse used)

theorem Stmt.undotted_declare {decl : Variable} (undotted : SmallLang.Undotted decl.name) :
    Stmt.Undotted (.declare decl) where
  declared _ same := Option.some.inj same ▸ undotted
  used _ same := by cases same
  path _ same := by cases same

theorem Stmt.undotted_function {header : FunctionHeader} {body : Option (List Stmt)}
    (undotted : SmallLang.Undotted header.name) : Stmt.Undotted (.function header body) where
  declared _ same := Option.some.inj same ▸ undotted
  used _ same := by cases same
  path _ same := by cases same

theorem Stmt.undotted_use {used : Use} (path : SmallLang.Undotted used.path)
    (undotted : SmallLang.Undotted used.namespaceName) : Stmt.Undotted (.use used) where
  declared _ same := by cases same
  used _ same := Stmt.use.inj same ▸ undotted
  path _ same := Stmt.use.inj same ▸ path

theorem Use.undotted_namespaceName {path : String} {position : Position}
    (undotted : SmallLang.Undotted path) :
    SmallLang.Undotted (Use.namespaceName ⟨path, none, position⟩) := by
  intro dotted
  change '.' ∈ ((Text.parts '/' path).getLastD "").toList at dotted
  rw [List.getLastD_eq_getLast?] at dotted
  cases last : (Text.parts '/' path).getLast? with
  | none =>
      rw [last] at dotted
      cases dotted
  | some part =>
      obtain ⟨chars, found, rfl⟩ := List.mem_map.mp (List.mem_of_getLast? last)
      rw [last, Option.getD_some, String.toList_ofList] at dotted
      exact undotted (Text.mem_of_mem_split found dotted)

/-- A path of names without dots has no dot. -/
theorem Use.IsPath.undotted {path : String} (isPath : Use.IsPath SmallLang.Undotted path) :
    SmallLang.Undotted path := by
  induction isPath with
  | first undotted => exact undotted
  | step _ undotted ih =>
      intro dotted
      rw [String.toList_append, String.toList_append, List.mem_append, List.mem_append] at dotted
      exact dotted.elim (fun dotted => dotted.elim ih (by decide)) undotted

/-- A module that is used by a path without dots is reached under a name without a dot. -/
theorem Use.Formed.undotted {place : Position → Prop} {used : Use}
    (formed : used.Formed SmallLang.Undotted place) : Stmt.Undotted (.use used) := by
  obtain ⟨path, rename, position⟩ := used
  have undotted := formed.path.undotted
  cases rename with
  | none => exact Stmt.undotted_use undotted (Use.undotted_namespaceName undotted)
  | some name => exact Stmt.undotted_use undotted (formed.rename name rfl)

/-- From identifiers without dots the parser builds statements that name nothing with a dot. -/
theorem Parse.forms_undotted : Parse.Forms SmallLang.Undotted (fun _ => True) (fun _ => True)
    Stmt.Undotted (fun _ => True) fun _ => True where
  toExprForms := .anything _ _
  expr _ := Stmt.undotted_of_nameless rfl nofun
  comment _ := Stmt.undotted_of_nameless rfl nofun
  use formed := formed.undotted
  returns _ := Stmt.undotted_of_nameless rfl nofun
  declare formed := Stmt.undotted_declare formed.name
  prototype formed _ := Stmt.undotted_function formed.name
  function formed _ _ := Stmt.undotted_function formed.name
  branch _ _ _ := Stmt.undotted_of_nameless rfl nofun
  loop _ _ := Stmt.undotted_of_nameless rfl nofun
  switch _ _ := Stmt.undotted_of_nameless rfl nofun
  done := trivial
  elseBranch _ _ _ := trivial
  otherwise _ := trivial
  value _ _ := trivial
  default _ := trivial

/-- Nothing at the top of a file that was read has a dot in its name. -/
theorem Program.undotted_of_read {source file : String} {program : Program}
    (reads : Program.read source file = .ok program) : ∀ s ∈ program, s.Undotted := by
  obtain ⟨tokens, scans, parsed⟩ := exists_tokens_of_read reads
  exact Parse.forms_undotted.of_parse (Token.given_of_scan scans) trivial parsed

end Parsing

end SmallLang
