import SmallLang.Proofs.Order.Names
import SmallLang.Proofs.Tree.Alike
import SmallLang.Proofs.Typing.Rules

/-!
# Well-scoped programs

Whether the names in a program make sense, said without types: each name that is used is
visible, each declaration is new to its block, and each type that is written exists. What is
noted in declarations plays no role.
-/

set_option autoImplicit false

namespace SmallLang

namespace Env

/-- A name is visible if it is declared, or the name of a type. -/
def Sees (Γ : Env Unit) (name : String) : Prop :=
  Ty.isTypeName name = true ∨ Γ.lookup name = some ()

variable {Γ : Env Unit} {name other : String}

theorem sees_enter : Γ.enter.Sees name ↔ Γ.Sees name := by
  rw [Sees, Sees, lookup_enter]

theorem sees_declare : (Γ.declare name ()).Sees other ↔ other = name ∨ Γ.Sees other := by
  rw [Sees, Sees, lookup_declare]
  by_cases same : other = name
  · simp [same]
  · simp [same]

/-- Every name of some list is visible. -/
def SeesAll (Γ : Env Unit) (names : List String) : Prop := ∀ name ∈ names, Γ.Sees name

theorem seesAll_append {first second : List String} :
    Γ.SeesAll (first ++ second) ↔ Γ.SeesAll first ∧ Γ.SeesAll second :=
  List.forall_mem_append

end Env

mutual

/-- The names that a statement declares in the block around it. -/
def Stmt.declares : Stmt → List String
  | .declare decl => [decl.name]
  | .function header _ => [header.name]
  | .parameter param => [param.name]
  | .merged body => Stmt.allDeclares body
  | .expr _ | .comment _ | .use _ | .returns _ | .branch .. | .loop .. | .switch .. | .arm _ => []

def Stmt.allDeclares : List Stmt → List String
  | [] => []
  | first :: rest => first.declares ++ Stmt.allDeclares rest

end

/-- Parameters are declared from the left to the right. -/
inductive Parameter.Scoped : Env Unit → List Parameter → Env Unit → Prop where
  | nil {Γ : Env Unit} : Scoped Γ [] Γ
  | cons {Γ Γ' : Env Unit} {param : Parameter} {rest : List Parameter} :
      param.typeName.type?.isSome → Γ.Free param.name →
      Scoped (Γ.declare param.name ()) rest Γ' → Scoped Γ (param :: rest) Γ'

mutual

/-- Well-scoped statements, with the environments before and after. -/
inductive Stmt.Scoped : Env Unit → Stmt → Env Unit → Prop where
  | expr {Γ : Env Unit} {e : Expr} : Γ.SeesAll e.names → Stmt.Scoped Γ (.expr e) Γ
  | comment {Γ : Env Unit} (text : String) : Stmt.Scoped Γ (.comment text) Γ
  | use {Γ : Env Unit} (used : Use) : Stmt.Scoped Γ (.use used) Γ
  | returns {Γ : Env Unit} {value : Option Expr} :
      Γ.SeesAll (Expr.names? value) → Stmt.Scoped Γ (.returns value) Γ
  | declare {Γ : Env Unit} {decl : Variable} :
      decl.typeName.isSome ∨ decl.value.isSome →
      (∀ typeName ∈ decl.typeName, typeName.type?.isSome) →
      Γ.SeesAll (Expr.names? decl.value) → Γ.Free decl.name →
      Stmt.Scoped Γ (.declare decl) (Γ.declare decl.name ())
  | prototype {Γ : Env Unit} {header : FunctionHeader} :
      header.parameterTypes?.isSome → (∀ typeName ∈ header.returns, typeName.type?.isSome) →
      Γ.Free header.name → Stmt.Scoped Γ (.function header none) (Γ.declare header.name ())
  | function {Γ inside last : Env Unit} {header : FunctionHeader} {body : List Stmt} :
      header.parameterTypes?.isSome → (∀ typeName ∈ header.returns, typeName.type?.isSome) →
      Γ.Free header.name →
      Parameter.Scoped (Γ.declare header.name ()).enter header.parameters inside →
      Stmt.AllScoped inside body last →
      Stmt.Scoped Γ (.function header (some body)) (Γ.declare header.name ())
  | branch {Γ last : Env Unit} {condition : Expr} {body : List Stmt} {alternate : Alternate} :
      Γ.SeesAll condition.names → Stmt.AllScoped Γ.enter body last → Alternate.Scoped Γ alternate →
      Stmt.Scoped Γ (.branch condition body alternate) Γ
  | loop {Γ last : Env Unit} {condition : Expr} {body : List Stmt} :
      Γ.SeesAll condition.names → Stmt.AllScoped Γ.enter body last →
      Stmt.Scoped Γ (.loop condition body) Γ
  | switch {Γ : Env Unit} {subject : Expr} {arms : List Arm} :
      Γ.SeesAll subject.names → Arm.AllScoped Γ arms → Stmt.Scoped Γ (.switch subject arms) Γ
  | merged {Γ last : Env Unit} {body : List Stmt} :
      Stmt.AllScoped Γ body last → Stmt.Scoped Γ (.merged body) last

inductive Alternate.Scoped : Env Unit → Alternate → Prop where
  | none {Γ : Env Unit} : Alternate.Scoped Γ .none
  | elseBranch {Γ last : Env Unit} {condition : Expr} {body : List Stmt} {alternate : Alternate} :
      Γ.SeesAll condition.names → Stmt.AllScoped Γ.enter body last → Alternate.Scoped Γ alternate →
      Alternate.Scoped Γ (.elseBranch condition body alternate)
  | otherwise {Γ last : Env Unit} {body : List Stmt} :
      Stmt.AllScoped Γ.enter body last → Alternate.Scoped Γ (.otherwise body)

inductive Arm.Scoped : Env Unit → Arm → Prop where
  | value {Γ last : Env Unit} {pattern : Expr} {body : List Stmt} :
      Γ.SeesAll pattern.names → Stmt.AllScoped Γ.enter body last →
      Arm.Scoped Γ (.value pattern body)
  | otherwise {Γ last : Env Unit} {body : List Stmt} :
      Stmt.AllScoped Γ.enter body last → Arm.Scoped Γ (.otherwise body)

/-- Each statement sees what those before it have declared. -/
inductive Stmt.AllScoped : Env Unit → List Stmt → Env Unit → Prop where
  | nil {Γ : Env Unit} : Stmt.AllScoped Γ [] Γ
  | cons {Γ Γ' Γ'' : Env Unit} {first : Stmt} {rest : List Stmt} :
      Stmt.Scoped Γ first Γ' → Stmt.AllScoped Γ' rest Γ'' → Stmt.AllScoped Γ (first :: rest) Γ''

/-- The arms of a switch, one after the other. -/
inductive Arm.AllScoped : Env Unit → List Arm → Prop where
  | nil {Γ : Env Unit} : Arm.AllScoped Γ []
  | cons {Γ : Env Unit} {first : Arm} {rest : List Arm} :
      Arm.Scoped Γ first → Arm.AllScoped Γ rest → Arm.AllScoped Γ (first :: rest)

end

namespace Env

/-- What statements do to an environment: the names that they declare are in the block. -/
structure Widens (Γ Γ' : Env Unit) (names : List String) : Prop where
  outer : Γ'.outer = Γ.outer
  block : ∀ name, Γ'.block name = if name ∈ names then some () else Γ.block name

variable {Γ Γ' Γ'' : Env Unit} {names more : List String}

theorem Widens.refl (Γ : Env Unit) : Γ.Widens Γ [] where
  outer := rfl
  block _ := rfl

theorem widens_declare (Γ : Env Unit) (name : String) : Γ.Widens (Γ.declare name ()) [name] where
  outer := rfl
  block other := by simp only [block_declare, List.mem_singleton]

theorem Widens.trans (first : Γ.Widens Γ' names) (second : Γ'.Widens Γ'' more) :
    Γ.Widens Γ'' (names ++ more) where
  outer := second.outer.trans first.outer
  block name := by
    rw [second.block, first.block]
    by_cases early : name ∈ names <;> by_cases late : name ∈ more <;> simp [early, late]

theorem Widens.sees (widens : Γ.Widens Γ' names) {name : String} (sees : Γ.Sees name) :
    Γ'.Sees name := by
  cases sees with
  | inl isType => exact .inl isType
  | inr found =>
      right
      rw [lookup, widens.outer, widens.block]
      by_cases declared : name ∈ names
      · simp [declared]
      · rw [if_neg declared]
        exact found

end Env

mutual

theorem Stmt.Scoped.widens : ∀ {s : Stmt} {Γ Γ' : Env Unit}, s.Scoped Γ Γ' →
    Γ.Widens Γ' s.declares
  | _, Γ, _, .expr _ | _, Γ, _, .comment _ | _, Γ, _, .use _ | _, Γ, _, .returns _
  | _, Γ, _, .branch .. | _, Γ, _, .loop .. | _, Γ, _, .switch .. => .refl Γ
  | .declare decl, Γ, _, .declare .. => Env.widens_declare Γ decl.name
  | .function header _, Γ, _, .prototype .. => Env.widens_declare Γ header.name
  | .function header _, Γ, _, .function .. => Env.widens_declare Γ header.name
  | _, _, _, .merged valid => Stmt.AllScoped.widens valid

theorem Stmt.AllScoped.widens : ∀ {body : List Stmt} {Γ Γ' : Env Unit},
    Stmt.AllScoped Γ body Γ' → Γ.Widens Γ' (Stmt.allDeclares body)
  | _, Γ, _, .nil => .refl Γ
  | _, _, _, .cons first rest =>
      (Stmt.Scoped.widens first).trans (Stmt.AllScoped.widens rest)

end

/-- The names of a list are declared outside of every block. -/
def Env.announcingNames (names : List String) : Env Unit :=
  ⟨fun name => if name ∈ names then some () else none, fun _ => none⟩

/-- A program is well scoped if its statements are, where all that they declare is visible. -/
def Program.WellScoped (program : Program) : Prop :=
  ∃ last, Stmt.AllScoped (.announcingNames (Stmt.allDeclares program)) program last

section Notes

variable {related : Option Term → Option Term → Prop}

mutual

theorem Stmt.Alike.declares_eq : ∀ {s s' : Stmt}, s.Alike related s' → s.declares = s'.declares
  | _, _, .expr _ | _, _, .comment _ | _, _, .use _ | _, _, .parameter _ | _, _, .returns _
  | _, _, .declare _ | _, _, .prototype _ | _, _, .function .. | _, _, .branch .. | _, _, .loop _
  | _, _, .switch _ | _, _, .arm _ => rfl
  | _, _, .merged alike => Stmt.AllAlike.allDeclares_eq alike

theorem Stmt.AllAlike.allDeclares_eq : ∀ {body body' : List Stmt},
    Stmt.AllAlike related body body' → Stmt.allDeclares body = Stmt.allDeclares body'
  | _, _, .nil => rfl
  | _, _, .cons first rest => by
      rw [Stmt.allDeclares, Stmt.allDeclares, Stmt.Alike.declares_eq first,
        Stmt.AllAlike.allDeclares_eq rest]

end

mutual

/-- Notes are of no account for scopes. -/
theorem Stmt.Scoped.alike : ∀ {s s' : Stmt} {Γ Γ' : Env Unit}, s.Scoped Γ Γ' →
    s.Alike related s' → s'.Scoped Γ Γ'
  | _, _, _, _, .expr sees, .expr _ => .expr sees
  | _, _, _, _, .comment text, .comment _ => .comment text
  | _, _, _, _, .use used, .use _ => .use used
  | _, _, _, _, .returns sees, .returns _ => .returns sees
  | .declare decl, _, _, _, .declare founded known sees free, @Stmt.Alike.declare _ _ note _ =>
      @Stmt.Scoped.declare _ { decl with resolved := note } founded known sees free
  | .function header none, _, _, _, .prototype known written free,
      @Stmt.Alike.prototype _ _ note _ =>
      @Stmt.Scoped.prototype _ { header with resolved := note } known written free
  | .function header (some _), _, _, _, .function known written free taken body,
      @Stmt.Alike.function _ _ note _ _ _ body' =>
      @Stmt.Scoped.function _ _ _ { header with resolved := note } _ known written free taken
        (Stmt.AllScoped.alike body body')
  | _, _, _, _, .branch sees body alternate, .branch body' alternate' =>
      .branch sees (Stmt.AllScoped.alike body body') (Alternate.Scoped.alike alternate alternate')
  | _, _, _, _, .loop sees body, .loop body' => .loop sees (Stmt.AllScoped.alike body body')
  | _, _, _, _, .switch sees arms, .switch arms' =>
      .switch sees (Arm.AllScoped.alike arms arms')
  | _, _, _, _, .merged body, .merged body' => .merged (Stmt.AllScoped.alike body body')

theorem Alternate.Scoped.alike : ∀ {alternate alternate' : Alternate} {Γ : Env Unit},
    alternate.Scoped Γ → alternate.Alike related alternate' → alternate'.Scoped Γ
  | _, _, _, .none, .none => .none
  | _, _, _, .elseBranch sees body alternate, .elseBranch body' alternate' =>
      .elseBranch sees (Stmt.AllScoped.alike body body')
        (Alternate.Scoped.alike alternate alternate')
  | _, _, _, .otherwise body, .otherwise body' => .otherwise (Stmt.AllScoped.alike body body')

theorem Arm.Scoped.alike : ∀ {arm arm' : Arm} {Γ : Env Unit}, arm.Scoped Γ →
    arm.Alike related arm' → arm'.Scoped Γ
  | _, _, _, .value sees body, .value body' => .value sees (Stmt.AllScoped.alike body body')
  | _, _, _, .otherwise body, .otherwise body' => .otherwise (Stmt.AllScoped.alike body body')

theorem Stmt.AllScoped.alike : ∀ {body body' : List Stmt} {Γ Γ' : Env Unit},
    Stmt.AllScoped Γ body Γ' → Stmt.AllAlike related body body' → Stmt.AllScoped Γ body' Γ'
  | _, _, _, _, .nil, .nil => .nil
  | _, _, _, _, .cons first rest, .cons first' rest' =>
      .cons (Stmt.Scoped.alike first first') (Stmt.AllScoped.alike rest rest')

theorem Arm.AllScoped.alike : ∀ {arms arms' : List Arm} {Γ : Env Unit}, Arm.AllScoped Γ arms →
    Arm.AllAlike related arms arms' → Arm.AllScoped Γ arms'
  | _, _, _, .nil, .nil => .nil
  | _, _, _, .cons first rest, .cons first' rest' =>
      .cons (Arm.Scoped.alike first first') (Arm.AllScoped.alike rest rest')

end

theorem Program.WellScoped.alike {program program' : Program} (valid : program.WellScoped)
    (alike : Stmt.AllAlike related program program') : program'.WellScoped := by
  obtain ⟨last, valid⟩ := valid
  exact ⟨last, alike.allDeclares_eq ▸ valid.alike alike⟩

end Notes

end SmallLang
