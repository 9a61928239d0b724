import SmallLang.Module.Qualifier
import SmallLang.Proofs.Tree.Alike

/-!
# The names that a program needs

Which names have to be declared before a statement, so that it and what follows it find every
name that they use. Nothing has to be declared before a program in order.
-/

set_option autoImplicit false

namespace SmallLang

mutual

/-- The names that an expression uses. -/
def Expr.names : Expr → List String
  | .identifier name _ => [name]
  | .member (.identifier space _) property => [qualifiedName space property]
  | .member object _ => object.names
  | .call callee arguments => callee.names ++ Expr.allNames arguments
  | .binary _ left right => left.names ++ right.names
  | .prefixed _ operand => operand.names
  | .postfixed _ operand => operand.names
  | .number _ | .string _ | .boolean _ | .null => []

def Expr.allNames : List Expr → List String
  | [] => []
  | first :: rest => first.names ++ Expr.allNames rest

end

/-- The names that a value uses, if there is a value. -/
def Expr.names? : Option Expr → List String
  | none => []
  | some e => e.names

theorem Expr.names_of_symbol? {e : Expr} {name : String} (named : e.symbol? = some name) :
    e.names = [name] := by
  unfold Expr.symbol? at named
  split at named
  · cases named
    rfl
  · cases named
    rfl
  · cases named

mutual

/-- The names that are needed before a statement, if some are needed after it. -/
def Stmt.needs (later : List String) : Stmt → List String
  | .expr e => e.names ++ later
  | .comment _ | .use _ => later
  | .parameter param => later.filter (· != param.name)
  | .returns value => Expr.names? value ++ later
  | .declare decl => Expr.names? decl.value ++ later.filter (· != decl.name)
  | .function header none => later.filter (· != header.name)
  | .function header (some body) =>
      (Stmt.allNeeds [] body).filter (fun name =>
        name != header.name && !(header.parameters.map (·.name)).contains name) ++
        later.filter (· != header.name)
  | .branch condition body alternate =>
      condition.names ++ Stmt.allNeeds [] body ++ alternate.needs ++ later
  | .loop condition body => condition.names ++ Stmt.allNeeds [] body ++ later
  | .switch subject arms => subject.names ++ Arm.allNeeds arms ++ later
  | .arm single => single.needs ++ later
  | .merged body => Stmt.allNeeds later body

def Alternate.needs : Alternate → List String
  | .none => []
  | .elseBranch condition body alternate =>
      condition.names ++ Stmt.allNeeds [] body ++ alternate.needs
  | .otherwise body => Stmt.allNeeds [] body

def Arm.needs : Arm → List String
  | .value pattern body => pattern.names ++ Stmt.allNeeds [] body
  | .otherwise body => Stmt.allNeeds [] body

/-- The names that are needed before statements, if some are needed after them. -/
def Stmt.allNeeds (later : List String) : List Stmt → List String
  | [] => later
  | first :: rest => first.needs (Stmt.allNeeds later rest)

def Arm.allNeeds : List Arm → List String
  | [] => []
  | first :: rest => first.needs ++ Arm.allNeeds rest

end

mutual

/-- Notes do not change which names are needed. -/
theorem Stmt.needs_bare : ∀ (s : Stmt) (later : List String), s.bare.needs later = s.needs later
  | .expr _, _ | .comment _, _ | .use _, _ | .parameter _, _ | .returns _, _ | .declare _, _
  | .function _ none, _ => rfl
  | .function _ (some body), _ => by rw [Stmt.bare, Stmt.needs, Stmt.needs, Stmt.allNeeds_bare body]
  | .branch _ body alternate, _ => by
      rw [Stmt.bare, Stmt.needs, Stmt.needs, Stmt.allNeeds_bare body,
        Alternate.needs_bare alternate]
  | .loop _ body, _ => by rw [Stmt.bare, Stmt.needs, Stmt.needs, Stmt.allNeeds_bare body]
  | .switch _ arms, _ => by rw [Stmt.bare, Stmt.needs, Stmt.needs, Arm.allNeeds_bare arms]
  | .arm single, _ => by rw [Stmt.bare, Stmt.needs, Stmt.needs, Arm.needs_bare single]
  | .merged body, _ => by rw [Stmt.bare, Stmt.needs, Stmt.needs, Stmt.allNeeds_bare body]

theorem Alternate.needs_bare : ∀ alternate : Alternate, alternate.bare.needs = alternate.needs
  | .none => rfl
  | .elseBranch _ body alternate => by
      rw [Alternate.bare, Alternate.needs, Alternate.needs, Stmt.allNeeds_bare body,
        Alternate.needs_bare alternate]
  | .otherwise body => by
      rw [Alternate.bare, Alternate.needs, Alternate.needs, Stmt.allNeeds_bare body]

theorem Arm.needs_bare : ∀ arm : Arm, arm.bare.needs = arm.needs
  | .value _ body => by rw [Arm.bare, Arm.needs, Arm.needs, Stmt.allNeeds_bare body]
  | .otherwise body => by rw [Arm.bare, Arm.needs, Arm.needs, Stmt.allNeeds_bare body]

theorem Stmt.allNeeds_bare : ∀ (body : List Stmt) (later : List String),
    Stmt.allNeeds later (Stmt.allBare body) = Stmt.allNeeds later body
  | [], _ => rfl
  | first :: rest, _ => by
      rw [Stmt.allBare, Stmt.allNeeds, Stmt.allNeeds, Stmt.allNeeds_bare rest,
        Stmt.needs_bare first]

theorem Arm.allNeeds_bare : ∀ arms : List Arm, Arm.allNeeds (Arm.allBare arms) = Arm.allNeeds arms
  | [] => rfl
  | first :: rest => by
      rw [Arm.allBare, Arm.allNeeds, Arm.allNeeds, Arm.needs_bare first, Arm.allNeeds_bare rest]

end

/-- Every name is used only after it has been declared. A function may use itself. -/
def Program.InOrder (program : Program) : Prop := Stmt.allNeeds [] program = []

end SmallLang
