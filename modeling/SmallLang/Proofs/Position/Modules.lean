import SmallLang.Proofs.Module.Failed
import SmallLang.Proofs.Module.Words
import SmallLang.Proofs.Position.Source

/-!
# Positions that an analysis with modules blames

Resolving uses changes names and moves nothing. So whatever an analysis complains of stands in the
file at hand, or in one that was found under the path of a module.
-/

set_option autoImplicit false

namespace SmallLang

variable {place : Position → Prop}

theorem Expr.placed_map {change : Expr → Expr}
    (changes : ∀ {e : Expr}, e.Placed place → (change e).Placed place) :
    ∀ {value : Option Expr}, (∀ e ∈ value, e.Placed place) →
      ∀ e ∈ value.map change, e.Placed place
  | none, _ => nofun
  | some value, placed => by
      rintro _ ⟨⟩
      exact changes (placed value rfl)

section Access

variable {aliases : Aliases}

mutual

/-- An access to a module stands where its name for the module stood. -/
theorem Expr.Placed.access : ∀ {e : Expr}, e.Placed place → (e.access aliases).Placed place
  | .identifier _ _, placed | .number _, placed | .string _, placed | .boolean _, placed
  | .null, placed => placed
  | .member object property, placed => by
      have inner := Expr.Placed.access (e := object) placed
      cases object with
      | identifier name position =>
          rw [Expr.access]
          split
          · exact placed
          · exact placed
      | _ => exact inner
  | .call _ _, placed => ⟨placed.1.access, Expr.AllPlaced.access placed.2⟩
  | .binary _ _ _, placed => ⟨placed.1.access, placed.2.access⟩
  | .prefixed _ operand, placed => Expr.Placed.access (e := operand) placed
  | .postfixed _ operand, placed => Expr.Placed.access (e := operand) placed

theorem Expr.AllPlaced.access : ∀ {expressions : List Expr}, Expr.AllPlaced place expressions →
    Expr.AllPlaced place (Expr.accessAll aliases expressions)
  | [], _ => trivial
  | _ :: _, placed => ⟨placed.1.access, placed.2.access⟩

end

mutual

theorem Stmt.Placed.access : ∀ {s : Stmt}, s.Placed place → (s.access aliases).Placed place
  | .expr _, placed => Expr.Placed.access placed
  | .comment _, placed | .use _, placed | .parameter _, placed | .function _ none, placed
  | .merged _, placed => placed
  | .returns _, placed => Expr.placed_map Expr.Placed.access placed
  | .declare _, placed =>
      ⟨placed.position, placed.typeName, Expr.placed_map Expr.Placed.access placed.value⟩
  | .function _ (some _), placed => ⟨placed.1, Stmt.AllPlaced.access placed.2⟩
  | .branch _ _ _, placed =>
      ⟨placed.1.access, Stmt.AllPlaced.access placed.2.1, Alternate.Placed.access placed.2.2⟩
  | .loop _ _, placed => ⟨placed.1.access, Stmt.AllPlaced.access placed.2⟩
  | .switch _ _, placed => ⟨placed.1.access, Arm.AllPlaced.access placed.2⟩
  | .arm single, placed => Arm.Placed.access (a := single) placed

theorem Alternate.Placed.access : ∀ {alternate : Alternate}, alternate.Placed place →
    (alternate.access aliases).Placed place
  | .none, _ => trivial
  | .elseBranch _ _ _, placed =>
      ⟨placed.1.access, Stmt.AllPlaced.access placed.2.1, Alternate.Placed.access placed.2.2⟩
  | .otherwise body, placed => Stmt.AllPlaced.access (b := body) placed

theorem Arm.Placed.access : ∀ {a : Arm}, a.Placed place → (a.access aliases).Placed place
  | .value _ _, placed => ⟨placed.1.access, Stmt.AllPlaced.access placed.2⟩
  | .otherwise body, placed => Stmt.AllPlaced.access (b := body) placed

theorem Stmt.AllPlaced.access : ∀ {b : List Stmt}, Stmt.AllPlaced place b →
    Stmt.AllPlaced place (Stmt.accessAll aliases b)
  | [], _ => trivial
  | _ :: _, placed => ⟨Stmt.Placed.access placed.1, Stmt.AllPlaced.access placed.2⟩

theorem Arm.AllPlaced.access : ∀ {arms : List Arm}, Arm.AllPlaced place arms →
    Arm.AllPlaced place (Arm.accessAll aliases arms)
  | [], _ => trivial
  | _ :: _, placed => ⟨Arm.Placed.access placed.1, Arm.AllPlaced.access placed.2⟩

end

end Access

section Qualify

variable {qualifier : Qualifier}

mutual

/-- A name stands where it stood before it was qualified. -/
theorem Expr.Placed.qualify {hidden : List String} : ∀ {e : Expr}, e.Placed place →
    (e.qualify qualifier hidden).Placed place
  | .identifier _ _, placed | .number _, placed | .string _, placed | .boolean _, placed
  | .null, placed => placed
  | .member object _, placed => Expr.Placed.qualify (e := object) placed
  | .call _ _, placed => ⟨placed.1.qualify, Expr.AllPlaced.qualify placed.2⟩
  | .binary _ _ _, placed => ⟨placed.1.qualify, placed.2.qualify⟩
  | .prefixed _ operand, placed => Expr.Placed.qualify (e := operand) placed
  | .postfixed _ operand, placed => Expr.Placed.qualify (e := operand) placed

theorem Expr.AllPlaced.qualify {hidden : List String} : ∀ {expressions : List Expr},
    Expr.AllPlaced place expressions →
      Expr.AllPlaced place (Expr.qualifyAll qualifier hidden expressions)
  | [], _ => trivial
  | _ :: _, placed => ⟨placed.1.qualify, placed.2.qualify⟩

end

mutual

theorem Stmt.Placed.qualify : ∀ {s : Stmt} {hidden : List String}, s.Placed place →
    (s.qualify qualifier hidden).Placed place
  | .expr _, _, placed => Expr.Placed.qualify placed
  | .comment _, _, placed | .use _, _, placed | .parameter _, _, placed
  | .function _ none, _, placed | .merged _, _, placed => placed
  | .returns _, _, placed => Expr.placed_map Expr.Placed.qualify placed
  | .declare _, _, placed =>
      ⟨placed.position, placed.typeName, Expr.placed_map Expr.Placed.qualify placed.value⟩
  | .function _ (some _), _, placed => ⟨placed.1, Stmt.AllPlaced.qualify placed.2⟩
  | .branch _ _ _, _, placed =>
      ⟨placed.1.qualify, Stmt.AllPlaced.qualify placed.2.1, Alternate.Placed.qualify placed.2.2⟩
  | .loop _ _, _, placed => ⟨placed.1.qualify, Stmt.AllPlaced.qualify placed.2⟩
  | .switch _ _, _, placed => ⟨placed.1.qualify, Arm.AllPlaced.qualify placed.2⟩
  | .arm single, _, placed => Arm.Placed.qualify (a := single) placed

theorem Alternate.Placed.qualify : ∀ {alternate : Alternate} {hidden : List String},
    alternate.Placed place → (alternate.qualify qualifier hidden).Placed place
  | .none, _, _ => trivial
  | .elseBranch _ _ _, _, placed =>
      ⟨placed.1.qualify, Stmt.AllPlaced.qualify placed.2.1, Alternate.Placed.qualify placed.2.2⟩
  | .otherwise body, _, placed => Stmt.AllPlaced.qualify (b := body) placed

theorem Arm.Placed.qualify : ∀ {a : Arm} {hidden : List String}, a.Placed place →
    (a.qualify qualifier hidden).Placed place
  | .value _ _, _, placed => ⟨placed.1.qualify, Stmt.AllPlaced.qualify placed.2⟩
  | .otherwise body, _, placed => Stmt.AllPlaced.qualify (b := body) placed

theorem Stmt.AllPlaced.qualify : ∀ {b : List Stmt} {hidden : List String},
    Stmt.AllPlaced place b → Stmt.AllPlaced place (Stmt.qualifyAll qualifier hidden b)
  | [], _, _ => trivial
  | _ :: _, _, placed => ⟨Stmt.Placed.qualify placed.1, Stmt.AllPlaced.qualify placed.2⟩

theorem Arm.AllPlaced.qualify : ∀ {arms : List Arm} {hidden : List String},
    Arm.AllPlaced place arms → Arm.AllPlaced place (Arm.qualifyAll qualifier hidden arms)
  | [], _, _ => trivial
  | _ :: _, _, placed => ⟨Arm.Placed.qualify placed.1, Arm.AllPlaced.qualify placed.2⟩

end

theorem Stmt.Placed.qualifyTop : ∀ {s : Stmt}, s.Placed place →
    (s.qualifyTop qualifier).Placed place
  | .declare _, placed =>
      ⟨placed.position, placed.typeName, Expr.placed_map Expr.Placed.qualify placed.value⟩
  | .function _ none, placed => ⟨placed.position, placed.parameters, placed.returns⟩
  | .function _ (some _), placed =>
      ⟨⟨placed.1.position, placed.1.parameters, placed.1.returns⟩, Stmt.AllPlaced.qualify placed.2⟩
  | .expr _, placed | .comment _, placed | .use _, placed | .parameter _, placed
  | .merged _, placed | .returns _, placed | .branch _ _ _, placed | .loop _ _, placed
  | .switch _ _, placed | .arm _, placed => Stmt.Placed.qualify placed

theorem Program.placed_qualified {module : Program} (placed : Stmt.AllPlaced place module)
    (space : String) : Stmt.AllPlaced place (module.qualified space) := by
  rw [Stmt.allPlaced_iff] at placed ⊢
  exact List.forall_mem_map.mpr fun s present => (placed s present).qualifyTop

end Qualify

section Reading

variable {source file : String} {program : Program} {error : Error}

/-- Whatever was read from a file stands in it. -/
theorem Program.placed_of_read (reads : Program.read source file = .ok program)
    (inside : ∀ position, position.file = file → place position) :
    Stmt.AllPlaced place program := by
  obtain ⟨tokens, scans, parses⟩ := exists_tokens_of_read reads
  have stand : ∀ token ∈ tokens, place token.position := by
    intro token present
    obtain ⟨_, _, _, stands, _⟩ := Token.pointsInto_of_scan scans token present
    exact inside _ (by rw [stands])
  exact placed_of_parse stand (stand _ (Token.stopOf_mem scans)) parses

/-- What keeps a file from being read stands in it. -/
theorem Program.place_of_read (fails : Program.read source file = .error error)
    (inside : ∀ position, position.file = file → place position) : place error.position := by
  unfold Program.read at fails
  cases scans : Token.scan source file with
  | error other =>
      rw [scans] at fails
      cases fails
      obtain ⟨_, _, _, stands, _⟩ := Error.pointsInto_of_scan scans
      exact inside _ (by rw [stands])
  | ok tokens =>
      rw [scans] at fails
      have stand : ∀ token ∈ tokens, place token.position := by
        intro token present
        obtain ⟨_, _, _, stands, _⟩ := Token.pointsInto_of_scan scans token present
        exact inside _ (by rw [stands])
      exact place_of_parse stand (stand _ (Token.stopOf_mem scans)) fails

end Reading

namespace Workspace

variable {workspace : Workspace} {resolver resolver' : Resolver} {program body : Program}
  {aliases : Aliases} {error : Error} {used : Use} {file : String} {position : Position}

/-- The places in files of modules: in those that are there under the path of a module. -/
def InModule (workspace : Workspace) (position : Position) : Prop :=
  ∃ path source, Undotted path ∧
    workspace.files.read? (workspace.modulePath path) = some source ∧
    position.file = (workspace.modulePath path).text

/-- The places that an analysis of a file may blame: none, or one in the file or in a module. -/
def MayBlame (workspace : Workspace) (file : String) (position : Position) : Prop :=
  position = .null ∨ position.file = file ∨ workspace.InModule position

/-- What takes the place of uses stands in modules. -/
theorem Replaces.placed (replaces : workspace.Replaces resolver program body aliases resolver')
    (modules : ∀ position, workspace.InModule position → place position)
    (undotted : ∀ s ∈ program, s.Undotted) (placed : Stmt.AllPlaced place program) :
    Stmt.AllPlaced place body := by
  induction replaces with
  | nil => exact placed
  | dropped _ _ ih => exact ih (List.forall_mem_cons.mp undotted).2 placed.2
  | merged _ found reads _ _ inside later =>
      obtain ⟨first, rest⟩ := List.forall_mem_cons.mp undotted
      have module := Program.placed_of_read reads fun position stands =>
        modules position ⟨_, _, first.path _ rfl, found, stands⟩
      have body := inside (Program.undotted_of_read reads) module
      exact ⟨Program.placed_qualified body.access _, later rest placed.2⟩
  | kept _ _ ih => exact ⟨placed.1, ih (List.forall_mem_cons.mp undotted).2 placed.2⟩

/-- A use that fails is blamed itself, or its file is. -/
theorem Fails.stands (fails : workspace.Fails resolver program error used resolver')
    (modules : ∀ position, workspace.InModule position → place position)
    (undotted : ∀ s ∈ program, s.Undotted) (placed : Stmt.AllPlaced place program) :
    place error.position := by
  induction fails with
  | broken _ breaks =>
      have path := (undotted _ List.mem_cons_self).path _ rfl
      obtain ⟨_, rfl⟩ | ⟨source, found, fails⟩ := breaks
      · exact placed.1
      · refine Program.place_of_read fails ?_
        intro position stands
        exact modules position ⟨_, _, path, found, stands⟩
  | inside _ found reads _ ih =>
      have path := (undotted _ List.mem_cons_self).path _ rfl
      exact ih (Program.undotted_of_read reads) (Program.placed_of_read reads
        fun position stands => modules position ⟨_, _, path, found, stands⟩)
  | dropped _ _ ih | kept _ _ ih | merged _ _ _ _ _ ih =>
      exact ih (List.forall_mem_cons.mp undotted).2 placed.2

end Workspace

/-- Whatever an analysis blames stands nowhere, or in the file at hand, or in that of a module. -/
theorem Analysis.mayBlame (order : ForwardOrder) (workspace : Workspace) (resolver : Resolver)
    (source file : String) :
    ∀ position ∈ blamed (ofModules order workspace resolver source file),
      workspace.MayBlame file position := by
  have here : ∀ position, position.file = file → workspace.MayBlame file position :=
    fun _ stands => .inr (.inl stands)
  have modules : ∀ position, workspace.InModule position → workspace.MayBlame file position :=
    fun _ inside => .inr (.inr inside)
  cases reads : Program.read source file with
  | error error =>
      rw [ofModules, reads]
      exact List.forall_mem_singleton.mpr (Program.place_of_read reads here)
  | ok program =>
      have placed := Program.placed_of_read reads here
      have undotted := Program.undotted_of_read reads
      cases resolves : workspace.resolve program resolver with
      | error error later =>
          rw [ofModules_eq_error_of_resolve reads resolves]
          obtain ⟨_, fails⟩ := Workspace.fails_of_resolve resolves
          exact List.forall_mem_singleton.mpr (fails.stands modules undotted placed)
      | ok merged later =>
          rw [ofModules_of_resolve reads resolves]
          obtain ⟨body, aliases, replaces, rfl⟩ := Workspace.replaces_of_resolve resolves
          exact places_ofProgram (replaces.placed modules undotted placed).access (.inl rfl)

end SmallLang
