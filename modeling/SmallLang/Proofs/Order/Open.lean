import SmallLang.Proofs.Order.Names
import SmallLang.Proofs.Tree.Declarations
import SmallLang.Proofs.Typing.Rules

/-!
# What the types of names leave open

Some names are used before their types are known. An expression is open if its type follows from
such names alone, and so is a variable with an open value, or a function all of whose returns are
open. A literal or a name of a known type on one side of an operator is enough to know its type.
-/

set_option autoImplicit false

namespace SmallLang

/-- Whether the type of an expression follows only from names whose types are not known. -/
def Expr.isOpen (unknown : String → Bool) : Expr → Bool
  | .identifier name _ => unknown name
  | .member (.identifier space _) property => unknown (qualifiedName space property)
  | .member _ _ => false
  | .call callee _ => callee.isOpen unknown
  | .binary operator left right =>
      operator.fixedResult?.isNone && (left.isOpen unknown && right.isOpen unknown)
  | .prefixed .negate operand => operand.isOpen unknown
  | .prefixed .not _ => false
  | .postfixed _ operand => operand.isOpen unknown
  | .number _ | .string _ | .boolean _ | .null => false

/-- Whether a variable is declared without a type, and with an open value. -/
def Variable.isOpen (unknown : String → Bool) (decl : Variable) : Bool :=
  decl.typeName.isNone && decl.value.all (·.isOpen unknown)

/-- Whether a function is declared without a result, and returns something, but nothing that is not
open. -/
def FunctionHeader.isOpen (header : FunctionHeader) (returned : List Bool) : Bool :=
  header.returns.isNone && (!returned.isEmpty && returned.all id)

/-- Which names are not known inside of a function. Its own name is known there if its result is
written. -/
def FunctionHeader.unknownInside (header : FunctionHeader) (unknown : String → Bool)
    (name : String) : Bool :=
  if name ∈ header.parameters.map (·.name) then false
  else if name = header.name then header.returns.isNone
  else unknown name

mutual

/-- Which names are not known after a statement. -/
def Stmt.unknownAfter : Stmt → (String → Bool) → String → Bool
  | .parameter param, unknown => Function.update unknown param.name false
  | .declare decl, unknown => Function.update unknown decl.name (decl.isOpen unknown)
  | .function header none, unknown => Function.update unknown header.name false
  | .function header (some body), unknown =>
      Function.update unknown header.name
        (header.isOpen (Stmt.allOpenReturns body (header.unknownInside unknown)))
  | .merged body, unknown => Stmt.allUnknownAfter body unknown
  | _, unknown => unknown

/-- Which of the returns in a statement are open. -/
def Stmt.openReturns : Stmt → (String → Bool) → List Bool
  | .returns value, unknown => [value.any (·.isOpen unknown)]
  | .branch _ body alternate, unknown =>
      Stmt.allOpenReturns body unknown ++ alternate.openReturns unknown
  | .loop _ body, unknown => Stmt.allOpenReturns body unknown
  | .switch _ arms, unknown => Arm.allOpenReturns arms unknown
  | .arm single, unknown => single.openReturns unknown
  | .merged body, unknown => Stmt.allOpenReturns body unknown
  | _, _ => []

def Alternate.openReturns : Alternate → (String → Bool) → List Bool
  | .none, _ => []
  | .elseBranch _ body alternate, unknown =>
      Stmt.allOpenReturns body unknown ++ alternate.openReturns unknown
  | .otherwise body, unknown => Stmt.allOpenReturns body unknown

def Arm.openReturns : Arm → (String → Bool) → List Bool
  | .value _ body, unknown => Stmt.allOpenReturns body unknown
  | .otherwise body, unknown => Stmt.allOpenReturns body unknown

def Stmt.allUnknownAfter : List Stmt → (String → Bool) → String → Bool
  | [], unknown => unknown
  | first :: rest, unknown => Stmt.allUnknownAfter rest (first.unknownAfter unknown)

/-- Which of the returns in statements are open, one after the other. -/
def Stmt.allOpenReturns : List Stmt → (String → Bool) → List Bool
  | [], _ => []
  | first :: rest, unknown =>
      first.openReturns unknown ++ Stmt.allOpenReturns rest (first.unknownAfter unknown)

def Arm.allOpenReturns : List Arm → (String → Bool) → List Bool
  | [], _ => []
  | first :: rest, unknown => first.openReturns unknown ++ Arm.allOpenReturns rest unknown

end

mutual

/-- Notes do not change what is open behind a statement. -/
theorem Stmt.unknownAfter_bare : ∀ (s : Stmt) (unknown : String → Bool),
    s.bare.unknownAfter unknown = s.unknownAfter unknown
  | .expr _, _ | .comment _, _ | .use _, _ | .parameter _, _ | .returns _, _ | .declare _, _
  | .function _ none, _ | .branch .., _ | .loop .., _ | .switch .., _ | .arm _, _ => rfl
  | .function header (some body), unknown => by
      have same := Stmt.allOpenReturns_bare body (header.unknownInside unknown)
      rw [Stmt.bare, Stmt.unknownAfter, Stmt.unknownAfter, ← same]
      rfl
  | .merged body, unknown => Stmt.allUnknownAfter_bare body unknown

theorem Stmt.openReturns_bare : ∀ (s : Stmt) (unknown : String → Bool),
    s.bare.openReturns unknown = s.openReturns unknown
  | .expr _, _ | .comment _, _ | .use _, _ | .parameter _, _ | .returns _, _ | .declare _, _
  | .function _ none, _ | .function _ (some _), _ => rfl
  | .branch _ body alternate, unknown => by
      rw [Stmt.bare, Stmt.openReturns, Stmt.openReturns, Stmt.allOpenReturns_bare body,
        Alternate.openReturns_bare alternate]
  | .loop _ body, unknown => Stmt.allOpenReturns_bare body unknown
  | .switch _ arms, unknown => Arm.allOpenReturns_bare arms unknown
  | .arm single, unknown => Arm.openReturns_bare single unknown
  | .merged body, unknown => Stmt.allOpenReturns_bare body unknown

theorem Alternate.openReturns_bare : ∀ (alternate : Alternate) (unknown : String → Bool),
    alternate.bare.openReturns unknown = alternate.openReturns unknown
  | .none, _ => rfl
  | .elseBranch _ body alternate, unknown => by
      rw [Alternate.bare, Alternate.openReturns, Alternate.openReturns,
        Stmt.allOpenReturns_bare body, Alternate.openReturns_bare alternate]
  | .otherwise body, unknown => Stmt.allOpenReturns_bare body unknown

theorem Arm.openReturns_bare : ∀ (arm : Arm) (unknown : String → Bool),
    arm.bare.openReturns unknown = arm.openReturns unknown
  | .value _ body, unknown => Stmt.allOpenReturns_bare body unknown
  | .otherwise body, unknown => Stmt.allOpenReturns_bare body unknown

theorem Stmt.allUnknownAfter_bare : ∀ (body : List Stmt) (unknown : String → Bool),
    Stmt.allUnknownAfter (Stmt.allBare body) unknown = Stmt.allUnknownAfter body unknown
  | [], _ => rfl
  | first :: rest, unknown => by
      rw [Stmt.allBare, Stmt.allUnknownAfter, Stmt.allUnknownAfter, Stmt.unknownAfter_bare first,
        Stmt.allUnknownAfter_bare rest]

theorem Stmt.allOpenReturns_bare : ∀ (body : List Stmt) (unknown : String → Bool),
    Stmt.allOpenReturns (Stmt.allBare body) unknown = Stmt.allOpenReturns body unknown
  | [], _ => rfl
  | first :: rest, unknown => by
      rw [Stmt.allBare, Stmt.allOpenReturns, Stmt.allOpenReturns, Stmt.openReturns_bare first,
        Stmt.unknownAfter_bare first, Stmt.allOpenReturns_bare rest]

theorem Arm.allOpenReturns_bare : ∀ (arms : List Arm) (unknown : String → Bool),
    Arm.allOpenReturns (Arm.allBare arms) unknown = Arm.allOpenReturns arms unknown
  | [], _ => rfl
  | first :: rest, unknown => by
      rw [Arm.allBare, Arm.allOpenReturns, Arm.allOpenReturns, Arm.openReturns_bare first,
        Arm.allOpenReturns_bare rest]

end

/-- Whether all that a function returns comes down to calls of itself, where the types of all other
names are known. -/
def FunctionHeader.isCircular (header : FunctionHeader) (body : List Stmt) : Bool :=
  header.isOpen (Stmt.allOpenReturns body (header.unknownInside fun _ => false))

/-- No function among some declarations is circular. -/
def Stmt.NoneCircular (declarations : List Stmt) : Prop :=
  ∀ header body, .function header (some body) ∈ declarations → header.isCircular body = false

theorem Stmt.NoneCircular.append {declarations more : List Stmt}
    (decided : NoneCircular (declarations ++ more)) :
    NoneCircular declarations ∧ NoneCircular more :=
  ⟨fun header body present => decided header body (List.mem_append_left more present),
    fun header body present => decided header body (List.mem_append_right declarations present)⟩

theorem Stmt.NoneCircular.of_mem {body : List Stmt} {s : Stmt}
    (decided : NoneCircular (Stmt.allDeclarations body)) (present : s ∈ body) :
    NoneCircular s.declarations := by
  induction body with
  | nil => cases present
  | cons first rest ih =>
      obtain ⟨own, others⟩ := decided.append
      cases present with
      | head => exact own
      | tail _ present => exact ih others present

/-- Nothing is open where all names are known. -/
theorem Expr.isOpen_of_known : ∀ e : Expr, e.isOpen (fun _ => false) = false
  | .identifier _ _ => rfl
  | .member object _ => by cases object <;> rfl
  | .call callee _ => callee.isOpen_of_known
  | .binary operator left right => by
      rw [isOpen, left.isOpen_of_known, Bool.false_and, Bool.and_false]
  | .prefixed .negate operand => operand.isOpen_of_known
  | .prefixed .not _ => rfl
  | .postfixed _ operand => operand.isOpen_of_known
  | .number _ | .string _ | .boolean _ | .null => rfl

end SmallLang
