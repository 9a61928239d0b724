import SmallLang.Proofs.Order.Open

/-!
# Kinds that a walk agrees with

The walk over a program ties types to each other, and some of them to known ones. The rules here
say which kinds it agrees with: whatever it ties together is of one kind, unless both sides are
known by then. The order of the declarations does not show in the rules.
-/

set_option autoImplicit false

namespace SmallLang

/-- The kind of what an operator yields. -/
def BinaryOperator.resultKind (operator : BinaryOperator) (left : Kind) : Kind :=
  match operator.fixedResult? with
  | some type => type.kind
  | none => left

/-- What a name means where it is used: the kind of its type, and what is known of it by then, that
is the parameters of a function, and whether the type follows from names that are not known. -/
structure Meaning where
  parameters : Option (List Ty)
  kind : Kind
  isOpen : Bool

/-- Which names are not known, given what they mean. -/
def Meaning.unknown (look : String → Option Meaning) (name : String) : Bool :=
  (look name).all Meaning.isOpen

namespace Env

variable {Δ : Env Meaning}

/-- Which names are not known in an environment. -/
def unknown (Δ : Env Meaning) : String → Bool := Meaning.unknown Δ.lookup

theorem unknown_enter (Δ : Env Meaning) : Δ.enter.unknown = Δ.unknown := by
  rw [unknown, unknown, lookup_enter]

theorem unknown_declare (Δ : Env Meaning) (name : String) (meaning : Meaning) :
    (Δ.declare name meaning).unknown = Function.update Δ.unknown name meaning.isOpen := by
  funext other
  rw [unknown, Meaning.unknown, lookup_declare, Function.update_apply]
  split
  · rfl
  · rfl

end Env

mutual

/-- The kind of an expression. The arguments of a call are tied to parameters that are known, and
the operands of an operator to each other, unless they are known. -/
inductive Expr.Worth (look : String → Option Meaning) : Expr → Kind → Prop where
  | symbol {e : Expr} {name : String} {meaning : Meaning} :
      e.symbol? = some name → look name = some meaning → Worth look e meaning.kind
  | call {callee : Expr} {arguments : List Expr} {name : String} {meaning : Meaning}
      {kinds : List Kind} :
      callee.symbol? = some name → look name = some meaning →
      AllWorth look arguments kinds →
      (∀ parameters ∈ meaning.parameters, kinds = parameters.map Ty.kind) →
      Worth look (.call callee arguments) meaning.kind
  | binary {operator : BinaryOperator} {left right : Expr} {kind : Kind} :
      Worth look left kind → Worth look right kind →
      Worth look (.binary operator left right) (operator.resultKind kind)
  | divide {left right : Expr} {first second : Kind} :
      Worth look left first → Worth look right second →
      left.isOpen (Meaning.unknown look) = false → right.isOpen (Meaning.unknown look) = false →
      Worth look (.binary .divide left right) .float
  | negate {operand : Expr} {kind : Kind} :
      Worth look operand kind → Worth look (.prefixed .negate operand) kind
  | not {operand : Expr} :
      Worth look operand .bool → Worth look (.prefixed .not operand) .bool
  | step {operator : PostfixOperator} {operand : Expr} {kind : Kind} :
      Worth look operand kind → Worth look (.postfixed operator operand) kind
  | number (text : String) : Worth look (.number text) (Expr.numberType text).kind
  | string (value : String) : Worth look (.string value) .string
  | boolean (value : Bool) : Worth look (.boolean value) .bool
  | null : Worth look .null .null

inductive Expr.AllWorth (look : String → Option Meaning) : List Expr → List Kind → Prop where
  | nil : AllWorth look [] []
  | cons {first : Expr} {rest : List Expr} {kind : Kind} {kinds : List Kind} :
      Worth look first kind → AllWorth look rest kinds →
      AllWorth look (first :: rest) (kind :: kinds)

end

/-- The kind of a value, if there is a value. -/
inductive Expr.Worth? (look : String → Option Meaning) : Option Expr → Option Kind → Prop where
  | none : Worth? look none none
  | some {e : Expr} {kind : Kind} : e.Worth look kind → Worth? look (some e) (some kind)

/-- Parameters have the kinds of their types. -/
inductive Parameter.Worth : Env Meaning → List Parameter → Env Meaning → Prop where
  | nil {Δ : Env Meaning} : Worth Δ [] Δ
  | cons {Δ Δ' : Env Meaning} {param : Parameter} {rest : List Parameter} {type : Ty} :
      param.typeName.type? = some type → Δ.Free param.name →
      Worth (Δ.declare param.name ⟨none, type.kind, false⟩) rest Δ' →
      Worth Δ (param :: rest) Δ'

/-- The kind of a function's result: that of the type that is written, or else that of all
returns. -/
def FunctionHeader.Concludes (header : FunctionHeader) (returned : List Kind) (kind : Kind) :
    Prop :=
  match header.returns.bind TypeName.type? with
  | some type => kind = type.kind
  | none => (∀ other ∈ returned, other = kind) ∧ (returned = [] → kind = .void)

mutual

/-- The kinds in a statement in which nothing is noted yet: those of what it returns, and those of
its declarations, in order. -/
inductive Stmt.Worth : Env Meaning → Stmt → Env Meaning → List Kind → List Kind → Prop where
  | expr {Δ : Env Meaning} {e : Expr} {kind : Kind} :
      e.Worth Δ.lookup kind → Stmt.Worth Δ (.expr e) Δ [] []
  | comment {Δ : Env Meaning} (text : String) : Stmt.Worth Δ (.comment text) Δ [] []
  | use {Δ : Env Meaning} (used : Use) : Stmt.Worth Δ (.use used) Δ [] []
  | returns {Δ : Env Meaning} {value : Option Expr} {found : Option Kind} :
      Expr.Worth? Δ.lookup value found →
      Stmt.Worth Δ (.returns value) Δ [found.getD .void] []
  | declare {Δ : Env Meaning} {decl : Variable} {found : Option Kind} {kind : Kind} :
      (∀ typeName ∈ decl.typeName, typeName.type?.isSome) →
      Expr.Worth? Δ.lookup decl.value found →
      ((decl.typeName.bind TypeName.type?).map Ty.kind).or found = some kind →
      Δ.Free decl.name →
      Stmt.Worth Δ (.declare decl) (Δ.declare decl.name ⟨none, kind, decl.isOpen Δ.unknown⟩) []
        [kind]
  | prototype {Δ : Env Meaning} {header : FunctionHeader} {parameters : List Ty} :
      header.parameterTypes? = some parameters →
      (∀ typeName ∈ header.returns, typeName.type?.isSome) → header.isExternal = true →
      Δ.Free header.name →
      Stmt.Worth Δ (.function header none)
        (Δ.declare header.name
          ⟨some parameters, ((header.returns.bind TypeName.type?).getD .void).kind, false⟩)
        [] [((header.returns.bind TypeName.type?).getD .void).kind]
  | function {Δ inside last : Env Meaning} {header : FunctionHeader} {body : List Stmt}
      {parameters : List Ty} {kind : Kind} {returned notes : List Kind} :
      header.parameterTypes? = some parameters →
      (∀ typeName ∈ header.returns, typeName.type?.isSome) → header.isExternal = false →
      header.resolved = none → Δ.Free header.name →
      Parameter.Worth
        (Δ.declare header.name ⟨some parameters, kind, header.returns.isNone⟩).enter
        header.parameters inside →
      Stmt.AllWorth inside body last returned notes →
      header.Concludes returned kind →
      Stmt.Worth Δ (.function header (some body))
        (Δ.declare header.name ⟨some parameters, kind,
          header.isOpen (Stmt.allOpenReturns body (header.unknownInside Δ.unknown))⟩)
        [] (kind :: notes)
  | branch {Δ last : Env Meaning} {condition : Expr} {body : List Stmt} {alternate : Alternate}
      {returned more notes others : List Kind} :
      condition.Worth Δ.lookup .bool →
      Stmt.AllWorth Δ.enter body last returned notes →
      Alternate.Worth Δ alternate more others →
      Stmt.Worth Δ (.branch condition body alternate) Δ (returned ++ more) (notes ++ others)
  | loop {Δ last : Env Meaning} {condition : Expr} {body : List Stmt}
      {returned notes : List Kind} :
      condition.Worth Δ.lookup .bool →
      Stmt.AllWorth Δ.enter body last returned notes →
      Stmt.Worth Δ (.loop condition body) Δ returned notes
  | switch {Δ : Env Meaning} {subject : Expr} {arms : List Arm} {kind : Kind}
      {returned notes : List Kind} :
      subject.Worth Δ.lookup kind → Arm.AllWorth kind Δ arms returned notes →
      Stmt.Worth Δ (.switch subject arms) Δ returned notes

inductive Alternate.Worth : Env Meaning → Alternate → List Kind → List Kind → Prop where
  | none {Δ : Env Meaning} : Alternate.Worth Δ .none [] []
  | elseBranch {Δ last : Env Meaning} {condition : Expr} {body : List Stmt}
      {alternate : Alternate} {returned more notes others : List Kind} :
      condition.Worth Δ.lookup .bool →
      Stmt.AllWorth Δ.enter body last returned notes →
      Alternate.Worth Δ alternate more others →
      Alternate.Worth Δ (.elseBranch condition body alternate) (returned ++ more)
        (notes ++ others)
  | otherwise {Δ last : Env Meaning} {body : List Stmt} {returned notes : List Kind} :
      Stmt.AllWorth Δ.enter body last returned notes →
      Alternate.Worth Δ (.otherwise body) returned notes

/-- The kinds in an arm. Its pattern is tied to the subject. -/
inductive Arm.Worth : Kind → Env Meaning → Arm → List Kind → List Kind → Prop where
  | value {subject : Kind} {Δ last : Env Meaning} {pattern : Expr} {body : List Stmt}
      {returned notes : List Kind} :
      pattern.Worth Δ.lookup subject →
      Stmt.AllWorth Δ.enter body last returned notes →
      Arm.Worth subject Δ (.value pattern body) returned notes
  | otherwise {subject : Kind} {Δ last : Env Meaning} {body : List Stmt}
      {returned notes : List Kind} :
      Stmt.AllWorth Δ.enter body last returned notes →
      Arm.Worth subject Δ (.otherwise body) returned notes

/-- The kinds in statements, one after the other. -/
inductive Stmt.AllWorth :
    Env Meaning → List Stmt → Env Meaning → List Kind → List Kind → Prop where
  | nil {Δ : Env Meaning} : Stmt.AllWorth Δ [] Δ [] []
  | cons {Δ Δ' Δ'' : Env Meaning} {first : Stmt} {rest : List Stmt}
      {returned more notes others : List Kind} :
      Stmt.Worth Δ first Δ' returned notes →
      Stmt.AllWorth Δ' rest Δ'' more others →
      Stmt.AllWorth Δ (first :: rest) Δ'' (returned ++ more) (notes ++ others)

/-- The kinds in the arms of a switch, one after the other. -/
inductive Arm.AllWorth : Kind → Env Meaning → List Arm → List Kind → List Kind → Prop where
  | nil {subject : Kind} {Δ : Env Meaning} : Arm.AllWorth subject Δ [] [] []
  | cons {subject : Kind} {Δ : Env Meaning} {first : Arm} {rest : List Arm}
      {returned more notes others : List Kind} :
      Arm.Worth subject Δ first returned notes →
      Arm.AllWorth subject Δ rest more others →
      Arm.AllWorth subject Δ (first :: rest) (returned ++ more) (notes ++ others)

end

section Unknown

variable {Δ Δ' : Env Meaning}

/-- Parameters are known. -/
theorem Parameter.Worth.unknown_eq {parameters : List Parameter}
    (worth : Parameter.Worth Δ parameters Δ') :
    Δ'.unknown = fun name =>
      if name ∈ parameters.map (·.name) then false else Δ.unknown name := by
  induction worth with
  | nil => rfl
  | cons _ _ _ ih =>
      rw [ih, Env.unknown_declare]
      funext name
      simp only [Function.update_apply, List.map_cons, List.mem_cons]
      split <;> split <;> simp_all

/-- The environment in which the body of a function is walked. -/
theorem FunctionHeader.unknown_inside {header : FunctionHeader} {meaning : Meaning}
    (worth : Parameter.Worth (Δ.declare header.name meaning).enter header.parameters Δ')
    (own : meaning.isOpen = header.returns.isNone) :
    Δ'.unknown = header.unknownInside Δ.unknown := by
  rw [worth.unknown_eq, Env.unknown_enter, Env.unknown_declare, own]
  funext name
  simp only [unknownInside, Function.update_apply]

/-- What is unknown after a statement follows from what is unknown before. -/
theorem Stmt.Worth.unknown_eq {s : Stmt} {returned notes : List Kind}
    (worth : Stmt.Worth Δ s Δ' returned notes) : Δ'.unknown = s.unknownAfter Δ.unknown := by
  cases worth with
  | declare | prototype | function => exact Env.unknown_declare ..
  | _ => rfl

end Unknown

end SmallLang
