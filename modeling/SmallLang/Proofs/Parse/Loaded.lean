import SmallLang.Inference
import SmallLang.Proofs.Parse.Shape

/-!
# Programs as inference finds them

A program that was parsed, with or without its uses resolved, has no types yet, and
parameters and arms stand where they belong. Nothing in it is known from an earlier run.
-/

set_option autoImplicit false

namespace SmallLang

mutual

/-- Statements that were parsed, or merged after that. -/
def Stmt.Loaded : Stmt → Prop
  | .expr _ | .comment _ | .use _ | .returns _ => True
  | .parameter _ | .arm _ => False
  | .declare decl => decl.resolved = none
  | .function header none => header.resolved = none ∧ header.isExternal = true
  | .function header (some body) =>
      header.resolved = none ∧ header.isExternal = false ∧ Stmt.AllLoaded body
  | .branch _ body alternate => Stmt.AllLoaded body ∧ alternate.Loaded
  | .loop _ body => Stmt.AllLoaded body
  | .switch _ arms => Arm.AllLoaded arms
  | .merged body => Stmt.AllLoaded body

def Alternate.Loaded : Alternate → Prop
  | .none => True
  | .elseBranch _ body alternate => Stmt.AllLoaded body ∧ alternate.Loaded
  | .otherwise body => Stmt.AllLoaded body

def Arm.Loaded : Arm → Prop
  | .value _ body => Stmt.AllLoaded body
  | .otherwise body => Stmt.AllLoaded body

def Stmt.AllLoaded : List Stmt → Prop
  | [] => True
  | first :: rest => first.Loaded ∧ Stmt.AllLoaded rest

def Arm.AllLoaded : List Arm → Prop
  | [] => True
  | first :: rest => first.Loaded ∧ Arm.AllLoaded rest

end

theorem Stmt.AllLoaded.append {first second : List Stmt} (loaded : Stmt.AllLoaded first)
    (loaded' : Stmt.AllLoaded second) : Stmt.AllLoaded (first ++ second) := by
  induction first with
  | nil => exact loaded'
  | cons head tail ih => exact ⟨loaded.1, ih loaded.2⟩

mutual

theorem Stmt.Parsed.loaded : ∀ {s : Stmt}, s.Parsed → s.Loaded
  | .expr _, _ | .comment _, _ | .use _, _ | .returns _, _ => trivial
  | .parameter _, parsed | .arm _, parsed | .merged _, parsed => by cases parsed
  | .declare _, parsed => parsed
  | .function _ none, parsed => parsed
  | .function _ (some _), ⟨bare, internal, parsed⟩ =>
      ⟨bare, internal, Stmt.AllParsed.allLoaded parsed⟩
  | .branch .., ⟨parsed, parsedRest⟩ =>
      ⟨Stmt.AllParsed.allLoaded parsed, Alternate.Parsed.loaded parsedRest⟩
  | .loop .., parsed => Stmt.AllParsed.allLoaded parsed
  | .switch .., parsed => Arm.AllParsed.allLoaded parsed

theorem Alternate.Parsed.loaded : ∀ {alternate : Alternate}, alternate.Parsed → alternate.Loaded
  | .none, _ => trivial
  | .elseBranch .., ⟨parsed, parsedRest⟩ =>
      ⟨Stmt.AllParsed.allLoaded parsed, Alternate.Parsed.loaded parsedRest⟩
  | .otherwise _, parsed => Stmt.AllParsed.allLoaded parsed

theorem Arm.Parsed.loaded : ∀ {arm : Arm}, arm.Parsed → arm.Loaded
  | .value .., parsed => Stmt.AllParsed.allLoaded parsed
  | .otherwise _, parsed => Stmt.AllParsed.allLoaded parsed

theorem Stmt.AllParsed.allLoaded : ∀ {body : List Stmt}, Stmt.AllParsed body → Stmt.AllLoaded body
  | [], _ => trivial
  | _ :: _, ⟨parsed, parsedRest⟩ => ⟨Stmt.Parsed.loaded parsed, Stmt.AllParsed.allLoaded parsedRest⟩

theorem Arm.AllParsed.allLoaded : ∀ {arms : List Arm}, Arm.AllParsed arms → Arm.AllLoaded arms
  | [], _ => trivial
  | _ :: _, ⟨parsed, parsedRest⟩ => ⟨Arm.Parsed.loaded parsed, Arm.AllParsed.allLoaded parsedRest⟩

end

mutual

/-- Nothing is noted in what was only loaded. -/
theorem Stmt.Loaded.bare_eq : ∀ {s : Stmt}, s.Loaded → s.bare = s
  | .expr _, _ | .comment _, _ | .use _, _ | .returns _, _ => rfl
  | .declare decl, loaded => by
      have none : decl.resolved = none := loaded
      rw [Stmt.bare, ← none]
  | .function header none, loaded => by
      have unnoted : header.resolved = none := loaded.1
      rw [Stmt.bare, ← unnoted]
  | .function header (some body), loaded => by
      have unnoted : header.resolved = none := loaded.1
      rw [Stmt.bare, ← unnoted, Stmt.AllLoaded.allBare_eq loaded.2.2]
  | .branch _ body alternate, loaded => by
      rw [Stmt.bare, Stmt.AllLoaded.allBare_eq loaded.1, Alternate.Loaded.bare_eq loaded.2]
  | .loop _ body, loaded => by rw [Stmt.bare, Stmt.AllLoaded.allBare_eq loaded]
  | .switch _ arms, loaded => by rw [Stmt.bare, Arm.AllLoaded.allBare_eq loaded]
  | .merged body, loaded => by rw [Stmt.bare, Stmt.AllLoaded.allBare_eq loaded]

theorem Alternate.Loaded.bare_eq : ∀ {alternate : Alternate}, alternate.Loaded →
    alternate.bare = alternate
  | .none, _ => rfl
  | .elseBranch _ body alternate, loaded => by
      rw [Alternate.bare, Stmt.AllLoaded.allBare_eq loaded.1, Alternate.Loaded.bare_eq loaded.2]
  | .otherwise body, loaded => by rw [Alternate.bare, Stmt.AllLoaded.allBare_eq loaded]

theorem Arm.Loaded.bare_eq : ∀ {arm : Arm}, arm.Loaded → arm.bare = arm
  | .value _ body, loaded | .otherwise body, loaded => by
      rw [Arm.bare, Stmt.AllLoaded.allBare_eq loaded]

theorem Stmt.AllLoaded.allBare_eq : ∀ {body : List Stmt}, Stmt.AllLoaded body →
    Stmt.allBare body = body
  | [], _ => rfl
  | _ :: _, loaded => by
      rw [Stmt.allBare, Stmt.Loaded.bare_eq loaded.1, Stmt.AllLoaded.allBare_eq loaded.2]

theorem Arm.AllLoaded.allBare_eq : ∀ {arms : List Arm}, Arm.AllLoaded arms →
    Arm.allBare arms = arms
  | [], _ => rfl
  | _ :: _, loaded => by
      rw [Arm.allBare, Arm.Loaded.bare_eq loaded.1, Arm.AllLoaded.allBare_eq loaded.2]

end

theorem Stmt.Parsed.bare {s : Stmt} (parsed : s.Parsed) : s.bare.Parsed :=
  parsed.loaded.bare_eq.symm ▸ parsed

mutual

/-- Every variable, at every depth, is declared with a type or a value. -/
def Stmt.Founded : Stmt → Prop
  | .declare decl => decl.typeName.isSome ∨ decl.value.isSome
  | .function _ none => True
  | .function _ (some body) => Stmt.AllFounded body
  | .branch _ body alternate => Stmt.AllFounded body ∧ alternate.Founded
  | .loop _ body => Stmt.AllFounded body
  | .switch _ arms => Arm.AllFounded arms
  | .arm single => single.Founded
  | .merged body => Stmt.AllFounded body
  | .expr _ | .comment _ | .use _ | .parameter _ | .returns _ => True

def Alternate.Founded : Alternate → Prop
  | .none => True
  | .elseBranch _ body alternate => Stmt.AllFounded body ∧ alternate.Founded
  | .otherwise body => Stmt.AllFounded body

def Arm.Founded : Arm → Prop
  | .value _ body => Stmt.AllFounded body
  | .otherwise body => Stmt.AllFounded body

def Stmt.AllFounded : List Stmt → Prop
  | [] => True
  | first :: rest => first.Founded ∧ Stmt.AllFounded rest

def Arm.AllFounded : List Arm → Prop
  | [] => True
  | first :: rest => first.Founded ∧ Arm.AllFounded rest

end

namespace Engine

mutual

/-- Nothing is settled in statements that were only loaded. -/
theorem noteSettled_of_loaded (scopes : Scopes) : ∀ (s : Stmt) (known : Scope), s.Loaded →
    noteSettled scopes known s = known
  | .declare decl, known, unnoted => by
      have missing : decl.resolvedType? = none := by
        rw [Variable.resolvedType?, show decl.resolved = none from unnoted]
        rfl
      rw [noteSettled, settledVariable?, missing]
      rfl
  | .function header body, known, loaded => by
      have unnoted : header.resolved = none := by
        cases body with
        | none => exact loaded.1
        | some body => exact loaded.1
      have missing : header.resolvedType? = none := by
        rw [FunctionHeader.resolvedType?, unnoted]
        rfl
      rw [noteSettled, settledFunction?, missing]
      rfl
  | .merged body, known, loaded => noteAllSettled_of_loaded scopes body known loaded
  | .expr _, _, _ | .comment _, _, _ | .use _, _, _ | .parameter _, _, _ | .returns _, _, _
  | .branch .., _, _ | .loop .., _, _ | .switch .., _, _ | .arm _, _, _ => rfl

theorem noteAllSettled_of_loaded (scopes : Scopes) : ∀ (body : List Stmt) (known : Scope),
    Stmt.AllLoaded body → noteAllSettled scopes known body = known
  | [], _, _ => rfl
  | first :: rest, known, loaded => by
      rw [noteAllSettled, noteSettled_of_loaded scopes first known loaded.1,
        noteAllSettled_of_loaded scopes rest known loaded.2]

end

theorem learn_of_loaded {program : Program} (engine : Engine) (loaded : Stmt.AllLoaded program) :
    engine.learn program = engine := by
  rw [learn, noteAllSettled_of_loaded engine.scopes program engine.known loaded]

end Engine

end SmallLang
