import SmallLang.Proofs.Module.Replaces
import SmallLang.Proofs.Parse.Loaded

/-!
# Resolved programs

Resolving the uses of a program that was parsed, or resolved before, changes names only. So no
declaration has its type yet, and parameters and arms stand where they belong.
-/

set_option autoImplicit false

namespace SmallLang

section Access

variable (aliases : Aliases)

mutual

theorem Stmt.Loaded.access : ∀ {s : Stmt}, s.Loaded → (s.access aliases).Loaded
  | .expr _, _ | .comment _, _ | .use _, _ | .returns _, _ => trivial
  | .parameter _, loaded | .arm _, loaded => by cases loaded
  | .declare _, unnoted => unnoted
  | .function _ none, loaded => loaded
  | .function _ (some _), loaded =>
      ⟨loaded.1, loaded.2.1, Stmt.AllLoaded.access loaded.2.2⟩
  | .branch .., loaded => ⟨Stmt.AllLoaded.access loaded.1, Alternate.Loaded.access loaded.2⟩
  | .loop .., loaded => Stmt.AllLoaded.access loaded
  | .switch .., loaded => Arm.AllLoaded.access loaded
  | .merged _, loaded => loaded

theorem Alternate.Loaded.access : ∀ {alternate : Alternate}, alternate.Loaded →
    (alternate.access aliases).Loaded
  | .none, _ => trivial
  | .elseBranch .., loaded => ⟨Stmt.AllLoaded.access loaded.1, Alternate.Loaded.access loaded.2⟩
  | .otherwise _, loaded => Stmt.AllLoaded.access loaded

theorem Arm.Loaded.access : ∀ {arm : Arm}, arm.Loaded → (arm.access aliases).Loaded
  | .value .., loaded => Stmt.AllLoaded.access loaded
  | .otherwise _, loaded => Stmt.AllLoaded.access loaded

theorem Stmt.AllLoaded.access : ∀ {body : List Stmt}, Stmt.AllLoaded body →
    Stmt.AllLoaded (Stmt.accessAll aliases body)
  | [], _ => trivial
  | _ :: _, loaded => ⟨Stmt.Loaded.access loaded.1, Stmt.AllLoaded.access loaded.2⟩

theorem Arm.AllLoaded.access : ∀ {arms : List Arm}, Arm.AllLoaded arms →
    Arm.AllLoaded (Arm.accessAll aliases arms)
  | [], _ => trivial
  | _ :: _, loaded => ⟨Arm.Loaded.access loaded.1, Arm.AllLoaded.access loaded.2⟩

end

end Access

section Qualify

variable (qualifier : Qualifier)

mutual

theorem Stmt.Loaded.qualify : ∀ {s : Stmt} {hidden : List String}, s.Loaded →
    (s.qualify qualifier hidden).Loaded
  | .expr _, _, _ | .comment _, _, _ | .use _, _, _ | .returns _, _, _ => trivial
  | .parameter _, _, loaded | .arm _, _, loaded => by cases loaded
  | .declare _, _, unnoted => unnoted
  | .function _ none, _, loaded => loaded
  | .function _ (some _), _, loaded =>
      ⟨loaded.1, loaded.2.1, Stmt.AllLoaded.qualify loaded.2.2⟩
  | .branch .., _, loaded =>
      ⟨Stmt.AllLoaded.qualify loaded.1, Alternate.Loaded.qualify loaded.2⟩
  | .loop .., _, loaded => Stmt.AllLoaded.qualify loaded
  | .switch .., _, loaded => Arm.AllLoaded.qualify loaded
  | .merged _, _, loaded => loaded

theorem Alternate.Loaded.qualify : ∀ {alternate : Alternate} {hidden : List String},
    alternate.Loaded → (alternate.qualify qualifier hidden).Loaded
  | .none, _, _ => trivial
  | .elseBranch .., _, loaded =>
      ⟨Stmt.AllLoaded.qualify loaded.1, Alternate.Loaded.qualify loaded.2⟩
  | .otherwise _, _, loaded => Stmt.AllLoaded.qualify loaded

theorem Arm.Loaded.qualify : ∀ {arm : Arm} {hidden : List String}, arm.Loaded →
    (arm.qualify qualifier hidden).Loaded
  | .value .., _, loaded => Stmt.AllLoaded.qualify loaded
  | .otherwise _, _, loaded => Stmt.AllLoaded.qualify loaded

theorem Stmt.AllLoaded.qualify : ∀ {body : List Stmt} {hidden : List String},
    Stmt.AllLoaded body → Stmt.AllLoaded (Stmt.qualifyAll qualifier hidden body)
  | [], _, _ => trivial
  | _ :: _, _, loaded => ⟨Stmt.Loaded.qualify loaded.1, Stmt.AllLoaded.qualify loaded.2⟩

theorem Arm.AllLoaded.qualify : ∀ {arms : List Arm} {hidden : List String}, Arm.AllLoaded arms →
    Arm.AllLoaded (Arm.qualifyAll qualifier hidden arms)
  | [], _, _ => trivial
  | _ :: _, _, loaded => ⟨Arm.Loaded.qualify loaded.1, Arm.AllLoaded.qualify loaded.2⟩

end

theorem Stmt.Loaded.qualifyTop : ∀ {s : Stmt}, s.Loaded → (s.qualifyTop qualifier).Loaded
  | .declare _, unnoted => unnoted
  | .function _ none, loaded => loaded
  | .function _ (some _), loaded =>
      ⟨loaded.1, loaded.2.1, Stmt.AllLoaded.qualify qualifier loaded.2.2⟩
  | .expr _, loaded | .comment _, loaded | .use _, loaded | .parameter _, loaded
  | .returns _, loaded | .branch .., loaded | .loop .., loaded | .switch .., loaded
  | .arm _, loaded | .merged _, loaded => Stmt.Loaded.qualify qualifier loaded

theorem Stmt.AllLoaded.map_qualifyTop : ∀ {body : List Stmt}, Stmt.AllLoaded body →
    Stmt.AllLoaded (body.map (Stmt.qualifyTop qualifier))
  | [], _ => trivial
  | _ :: _, loaded => ⟨loaded.1.qualifyTop qualifier, Stmt.AllLoaded.map_qualifyTop loaded.2⟩

end Qualify

theorem Program.allLoaded_of_read {source file : String} {program : Program}
    (reads : Program.read source file = .ok program) : Stmt.AllLoaded program := by
  obtain ⟨tokens, _, parsed⟩ := exists_tokens_of_read reads
  exact (allParsed_of_parse parsed).allLoaded

theorem Workspace.Replaces.allLoaded {workspace : Workspace} {resolver resolver' : Resolver}
    {program body : Program} {aliases : Aliases}
    (replaces : workspace.Replaces resolver program body aliases resolver')
    (loaded : Stmt.AllLoaded program) : Stmt.AllLoaded body := by
  induction replaces with
  | nil => exact loaded
  | dropped _ _ ih => exact ih loaded.2
  | merged _ _ parsed _ _ inside ih =>
      have module := inside (Program.allLoaded_of_read parsed)
      exact ⟨(module.access _).map_qualifyTop _, ih loaded.2⟩
  | kept _ _ ih => exact ⟨loaded.1, ih loaded.2⟩

/-- Programs as inference gets them: parsed, and after that possibly resolved. -/
inductive Program.Loaded : Program → Prop where
  | parsed {tokens : List Token} {program : Program} :
      Program.parse tokens = .ok program → Loaded program
  | resolved {workspace : Workspace} {resolver resolver' : Resolver} {program merged : Program} :
      Loaded program → workspace.resolve program resolver = .ok merged resolver' → Loaded merged

theorem Program.Loaded.allLoaded {program : Program} (loaded : Program.Loaded program) :
    Stmt.AllLoaded program := by
  induction loaded with
  | parsed parsed => exact (allParsed_of_parse parsed).allLoaded
  | resolved _ resolves ih =>
      obtain ⟨body, aliases, replaces, rfl⟩ := Workspace.replaces_of_resolve resolves
      exact (replaces.allLoaded ih).access aliases

end SmallLang
