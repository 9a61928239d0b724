import Mathlib.Data.List.Forall2
import Mathlib.Logic.Function.Basic
import SmallLang.Operator.Typing
import SmallLang.Tree

/-!
# Typing rules

What it means for a program to be well typed, said without any check: names are looked up
in an environment, and each construct has one rule. Functions, and variables with a type of
their own, are visible in the whole root scope; every other name from its declaration on.
-/

set_option autoImplicit false

namespace SmallLang

/-- The names that are visible at a place: those of the block around it so far, and those of
everything outside the block. -/
structure Env (β : Type) where
  outer : String → Option β
  block : String → Option β

namespace Env

variable {β : Type}

/-- What a name stands for. The block hides what is outside. -/
def lookup (Γ : Env β) (name : String) : Option β := (Γ.block name).or (Γ.outer name)

/-- The environment inside a new block. -/
def enter (Γ : Env β) : Env β := ⟨Γ.lookup, fun _ => none⟩

/-- The environment after a declaration. -/
def declare (Γ : Env β) (name : String) (binding : β) : Env β :=
  { Γ with block := Function.update Γ.block name (some binding) }

/-- Whether a name can be declared: it is not the name of a type, and new to the block. -/
def Free (Γ : Env β) (name : String) : Prop :=
  Ty.isTypeName name = false ∧ Γ.block name = none

@[simp] theorem lookup_enter (Γ : Env β) : Γ.enter.lookup = Γ.lookup := by
  funext name
  simp [enter, lookup]

@[simp] theorem block_enter (Γ : Env β) (name : String) : Γ.enter.block name = none := rfl

@[simp] theorem outer_declare (Γ : Env β) (name : String) (binding : β) :
    (Γ.declare name binding).outer = Γ.outer := rfl

theorem block_declare (Γ : Env β) (name other : String) (binding : β) :
    (Γ.declare name binding).block other =
      if other = name then some binding else Γ.block other := by
  simp [declare, Function.update_apply]

theorem lookup_declare (Γ : Env β) (name other : String) (binding : β) :
    (Γ.declare name binding).lookup other =
      if other = name then some binding else Γ.lookup other := by
  unfold lookup
  rw [block_declare]
  split <;> rfl

end Env

/-- What a name stands for in a typed program. -/
inductive Binding where
  | value (type : Ty) (mutable : Bool)
  | function (parameters : List Ty) (result : Ty)
  deriving DecidableEq, Repr

namespace Binding

/-- The type of the bare name. That of a function has the type of what the function
returns. -/
def type : Binding → Ty
  | .value type _ => type
  | .function _ result => result

/-- Whether the name is that of a constant. -/
def isConstant : Binding → Bool
  | .value _ mutable => !mutable
  | .function _ _ => false

end Binding

/-- The type that a type name denotes. -/
def TypeName.type? (typeName : TypeName) : Option Ty := Ty.ofName? typeName.name

namespace FunctionHeader

/-- The types of the parameters. -/
def parameterTypes? (header : FunctionHeader) : Option (List Ty) :=
  header.parameters.mapM (·.typeName.type?)

/-- The type of the result: the one that is written, or else the one that inference found.
A function that is defined elsewhere returns nothing unless it says so. -/
def resultType? (header : FunctionHeader) : Option Ty :=
  match header.returns with
  | some typeName => typeName.type?
  | none => header.resolvedType?.or (if header.isExternal then some .void else none)

/-- What the name of a function stands for, if its types are known. -/
def binding? (header : FunctionHeader) : Option Binding :=
  match header.parameterTypes?, header.resultType? with
  | some parameters, some result => some (.function parameters result)
  | _, _ => none

end FunctionHeader

namespace Variable

/-- The type that is stated of a variable: the one that is written, or else the one that
inference found. -/
def statedType? (decl : Variable) : Option Ty :=
  match decl.typeName with
  | some typeName => typeName.type?
  | none => decl.resolvedType?

end Variable

mutual

/-- The names that a root statement announces to the whole root scope, with what they stand
for if that is known. -/
def Stmt.announced : Stmt → List (String × Option Binding)
  | .function header _ => [(header.name, header.binding?)]
  | .declare decl =>
      if decl.typeName.isSome || decl.resolvedType?.isSome then
        [(decl.name, decl.statedType?.map fun type => .value type decl.mutable)]
      else []
  | .merged body => Stmt.allAnnounced body
  | _ => []

/-- The names that root statements announce to the whole root scope. -/
def Stmt.allAnnounced : List Stmt → List (String × Option Binding)
  | [] => []
  | first :: rest => first.announced ++ Stmt.allAnnounced rest

end

/-- A restriction on well-typed programs, beyond those that all of them obey: on what is noted in a
declaration, given what follows from its parts. -/
structure Discipline where
  notes : Option Ty → Option Ty → Prop

namespace Discipline

/-- No restriction. -/
def plain : Discipline := ⟨fun _ _ => True⟩

/-- What is noted is exactly what follows, down to the width of integers. -/
def exact : Discipline := ⟨Eq⟩

end Discipline

mutual

/-- The types of expressions. -/
inductive Expr.HasType (Γ : Env Binding) : Expr → Ty → Prop where
  | symbol {e : Expr} {name : String} {binding : Binding} :
      e.symbol? = some name → Γ.lookup name = some binding → HasType Γ e binding.type
  | call {callee : Expr} {arguments : List Expr} {name : String} {parameters types : List Ty}
      {result : Ty} :
      callee.symbol? = some name → Γ.lookup name = some (.function parameters result) →
      HaveTypes Γ arguments types →
      List.Forall₂ (fun parameter type => parameter.kind = type.kind) parameters types →
      HasType Γ (.call callee arguments) result
  | arithmetic {operator : BinaryOperator} {left right : Expr} {first second : Ty} :
      operator.isArithmetic = true → operator ≠ .divide →
      HasType Γ left first → HasType Γ right second →
      first.isNumeric = true → first.kind = second.kind →
      HasType Γ (.binary operator left right) first
  | divide {left right : Expr} {first second : Ty} :
      HasType Γ left first → HasType Γ right second →
      first.isNumeric = true → second.isNumeric = true →
      HasType Γ (.binary .divide left right) .float
  | comparison {operator : BinaryOperator} {left right : Expr} {first second : Ty} :
      operator.isComparison = true →
      HasType Γ left first → HasType Γ right second →
      first.kind = second.kind → first.kind ≠ .null →
      HasType Γ (.binary operator left right) .bool
  | connective {operator : BinaryOperator} {left right : Expr} {first second : Ty} :
      operator.isLogical = true →
      HasType Γ left first → HasType Γ right second →
      first.kind = .bool → second.kind = .bool →
      HasType Γ (.binary operator left right) .bool
  | negate {operand : Expr} {type : Ty} :
      HasType Γ operand type → type.isNumeric = true →
      HasType Γ (.prefixed .negate operand) type
  | not {operand : Expr} {type : Ty} :
      HasType Γ operand type → type.kind = .bool →
      HasType Γ (.prefixed .not operand) type
  | step {operator : PostfixOperator} {name : String} {position : Position}
      {binding : Binding} :
      Γ.lookup name = some binding → binding.isConstant = false →
      binding.type.isNumeric = true →
      HasType Γ (.postfixed operator (.identifier name position)) binding.type
  | number (text : String) : HasType Γ (.number text) (Expr.numberType text)
  | string (value : String) : HasType Γ (.string value) .string
  | boolean (value : Bool) : HasType Γ (.boolean value) .bool
  | null : HasType Γ .null .null

/-- The types of some expressions. -/
inductive Expr.HaveTypes (Γ : Env Binding) :
    List Expr → List Ty → Prop where
  | nil : HaveTypes Γ [] []
  | cons {first : Expr} {rest : List Expr} {type : Ty} {types : List Ty} :
      HasType Γ first type → HaveTypes Γ rest types →
      HaveTypes Γ (first :: rest) (type :: types)

end

/-- The type of a value, if there is a value. -/
inductive Expr.HasType? (Γ : Env Binding) :
    Option Expr → Option Ty → Prop where
  | none : HasType? Γ none none
  | some {e : Expr} {type : Ty} : e.HasType Γ type → HasType? Γ (some e) (some type)

/-- A variable is well typed: it has a type or a value, its type exists, and its value is of
the kind that is stated. -/
structure Variable.Typed (rules : Discipline) (Γ : Env Binding) (decl : Variable)
    (type : Ty) : Prop where
  founded : decl.typeName.isSome ∨ decl.value.isSome
  known : ∀ typeName ∈ decl.typeName, typeName.type?.isSome
  valued : ∃ value, Expr.HasType? Γ decl.value value ∧
    decl.statedType?.or value = some type ∧
    (∀ stated ∈ decl.statedType?, ∀ found ∈ value, stated.kind = found.kind) ∧
    rules.notes decl.resolvedType? ((decl.typeName.bind TypeName.type?).or value)

/-- Parameters are declared from the left to the right. -/
inductive Parameter.Declared : Env Binding → List Parameter → Env Binding → Prop where
  | nil {Γ : Env Binding} : Declared Γ [] Γ
  | cons {Γ Γ' : Env Binding} {param : Parameter} {rest : List Parameter} {type : Ty} :
      param.typeName.type? = some type → Γ.Free param.name →
      Declared (Γ.declare param.name (.value type true)) rest Γ' →
      Declared Γ (param :: rest) Γ'

mutual

/-- Well-typed statements, with the return type of the function around them and the
environments before and after. The types that they return are listed in order. -/
inductive Stmt.Typed (rules : Discipline) :
    Option Ty → Env Binding → Stmt → Env Binding → List Ty → Prop where
  | expr {ρ : Option Ty} {Γ : Env Binding} {e : Expr} {type : Ty} :
      e.HasType Γ type → Stmt.Typed rules ρ Γ (.expr e) Γ []
  | comment {ρ : Option Ty} {Γ : Env Binding} (text : String) :
      Stmt.Typed rules ρ Γ (.comment text) Γ []
  | use {ρ : Option Ty} {Γ : Env Binding} (used : Use) : Stmt.Typed rules ρ Γ (.use used) Γ []
  | parameter {ρ : Option Ty} {Γ : Env Binding} {param : Parameter} {type : Ty} :
      param.typeName.type? = some type → Γ.Free param.name →
      Stmt.Typed rules ρ Γ (.parameter param) (Γ.declare param.name (.value type true)) []
  | returns {ρ : Option Ty} {Γ : Env Binding} {value : Option Expr} {found : Option Ty} :
      Expr.HasType? Γ value found →
      (∀ result ∈ ρ, result.kind = (found.getD .void).kind) →
      Stmt.Typed rules ρ Γ (.returns value) Γ [found.getD .void]
  | declare {ρ : Option Ty} {Γ : Env Binding} {decl : Variable} {type : Ty} :
      decl.Typed rules Γ type → Γ.Free decl.name →
      Stmt.Typed rules ρ Γ (.declare decl) (Γ.declare decl.name (.value type decl.mutable)) []
  | prototype {ρ : Option Ty} {Γ : Env Binding} {header : FunctionHeader}
      {parameters : List Ty} {result : Ty} :
      header.parameterTypes? = some parameters → header.resultType? = some result →
      Γ.Free header.name →
      rules.notes header.resolvedType? ((header.returns.bind TypeName.type?).or
        (if header.isExternal then some .void else header.resolvedType?)) →
      Stmt.Typed rules ρ Γ (.function header none)
        (Γ.declare header.name (.function parameters result)) []
  | function {ρ : Option Ty} {Γ inside last : Env Binding} {header : FunctionHeader}
      {body : List Stmt} {parameters returned : List Ty} {result : Ty} :
      header.parameterTypes? = some parameters → header.resultType? = some result →
      Γ.Free header.name →
      Parameter.Declared (Γ.declare header.name (.function parameters result)).enter
        header.parameters inside →
      Stmt.TypedAll rules (some result) inside body last returned →
      rules.notes header.resolvedType?
        ((header.returns.bind TypeName.type?).or (some (returned.headD .void))) →
      Stmt.Typed rules ρ Γ (.function header (some body))
        (Γ.declare header.name (.function parameters result)) []
  | branch {ρ : Option Ty} {Γ last : Env Binding} {condition : Expr} {body : List Stmt}
      {alternate : Alternate} {type : Ty} {returned more : List Ty} :
      condition.HasType Γ type → type.kind = .bool →
      Stmt.TypedAll rules ρ Γ.enter body last returned →
      Alternate.Typed rules ρ Γ alternate more →
      Stmt.Typed rules ρ Γ (.branch condition body alternate) Γ (returned ++ more)
  | loop {ρ : Option Ty} {Γ last : Env Binding} {condition : Expr} {body : List Stmt}
      {type : Ty} {returned : List Ty} :
      condition.HasType Γ type → type.kind = .bool →
      Stmt.TypedAll rules ρ Γ.enter body last returned →
      Stmt.Typed rules ρ Γ (.loop condition body) Γ returned
  | switch {ρ : Option Ty} {Γ : Env Binding} {subject : Expr} {arms : List Arm} {type : Ty}
      {returned : List Ty} :
      subject.HasType Γ type → Arm.TypedAll rules ρ (some type) Γ arms returned →
      Stmt.Typed rules ρ Γ (.switch subject arms) Γ returned
  | arm {ρ : Option Ty} {Γ : Env Binding} {single : Arm} {returned : List Ty} :
      Arm.Typed rules ρ none Γ single returned →
      Stmt.Typed rules ρ Γ (.arm single) Γ returned
  | merged {ρ : Option Ty} {Γ last : Env Binding} {body : List Stmt} {returned : List Ty} :
      Stmt.TypedAll rules ρ Γ body last returned →
      Stmt.Typed rules ρ Γ (.merged body) last returned

inductive Alternate.Typed (rules : Discipline) :
    Option Ty → Env Binding → Alternate → List Ty → Prop where
  | none {ρ : Option Ty} {Γ : Env Binding} : Alternate.Typed rules ρ Γ .none []
  | elseBranch {ρ : Option Ty} {Γ last : Env Binding} {condition : Expr} {body : List Stmt}
      {alternate : Alternate} {type : Ty} {returned more : List Ty} :
      condition.HasType Γ type → type.kind = .bool →
      Stmt.TypedAll rules ρ Γ.enter body last returned →
      Alternate.Typed rules ρ Γ alternate more →
      Alternate.Typed rules ρ Γ (.elseBranch condition body alternate) (returned ++ more)
  | otherwise {ρ : Option Ty} {Γ last : Env Binding} {body : List Stmt}
      {returned : List Ty} :
      Stmt.TypedAll rules ρ Γ.enter body last returned →
      Alternate.Typed rules ρ Γ (.otherwise body) returned

/-- An arm of a switch. Its pattern is of the kind of the subject, if there is one. -/
inductive Arm.Typed (rules : Discipline) :
    Option Ty → Option Ty → Env Binding → Arm → List Ty → Prop where
  | value {ρ subject : Option Ty} {Γ last : Env Binding} {pattern : Expr} {body : List Stmt}
      {type : Ty} {returned : List Ty} :
      pattern.HasType Γ type → (∀ wanted ∈ subject, wanted.kind = type.kind) →
      Stmt.TypedAll rules ρ Γ.enter body last returned →
      Arm.Typed rules ρ subject Γ (.value pattern body) returned
  | otherwise {ρ subject : Option Ty} {Γ last : Env Binding} {body : List Stmt}
      {returned : List Ty} :
      Stmt.TypedAll rules ρ Γ.enter body last returned →
      Arm.Typed rules ρ subject Γ (.otherwise body) returned

/-- Each statement sees what those before it have declared. -/
inductive Stmt.TypedAll (rules : Discipline) :
    Option Ty → Env Binding → List Stmt → Env Binding → List Ty → Prop where
  | nil {ρ : Option Ty} {Γ : Env Binding} : Stmt.TypedAll rules ρ Γ [] Γ []
  | cons {ρ : Option Ty} {Γ Γ' Γ'' : Env Binding} {first : Stmt} {rest : List Stmt}
      {returned more : List Ty} :
      Stmt.Typed rules ρ Γ first Γ' returned → Stmt.TypedAll rules ρ Γ' rest Γ'' more →
      Stmt.TypedAll rules ρ Γ (first :: rest) Γ'' (returned ++ more)

/-- The arms of a switch, one after the other. -/
inductive Arm.TypedAll (rules : Discipline) :
    Option Ty → Option Ty → Env Binding → List Arm → List Ty → Prop where
  | nil {ρ subject : Option Ty} {Γ : Env Binding} : Arm.TypedAll rules ρ subject Γ [] []
  | cons {ρ subject : Option Ty} {Γ : Env Binding} {first : Arm} {rest : List Arm}
      {returned more : List Ty} :
      Arm.Typed rules ρ subject Γ first returned →
      Arm.TypedAll rules ρ subject Γ rest more →
      Arm.TypedAll rules ρ subject Γ (first :: rest) (returned ++ more)

end

/-- An environment that knows what is announced, and has an empty block. -/
def Env.announcing (announced : List (String × Option Binding)) : Env Binding :=
  ⟨fun name => (announced.lookup name).join, fun _ => none⟩

/-- A program is well typed if its statements are, one after the other, where all that they
announce is known. -/
def Program.WellTyped (rules : Discipline) (program : Program) : Prop :=
  ∃ last returned,
    Stmt.TypedAll rules none (.announcing (Stmt.allAnnounced program)) program last returned

end SmallLang
