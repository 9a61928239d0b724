import SmallLang.Proofs.Order.Open
import SmallLang.Proofs.Typing.Places

/-!
# Numbers of different kinds

Numbers of different kinds can be divided by each other. Where that is the case in a program, and
the types of both numbers are known, neither of them has a say in the other.
-/

set_option autoImplicit false

namespace SmallLang

/-- The kind of the type that a name has in an environment. -/
def Env.kindOf (Γ : Env Binding) (name : String) : Option Kind :=
  (Γ.lookup name).map fun binding => binding.type.kind

/-- The kind of a typed expression. -/
def Expr.kind? (Γ : Env Binding) : Expr → Option Kind
  | .identifier name _ => Γ.kindOf name
  | .member (.identifier space _) property => Γ.kindOf (qualifiedName space property)
  | .member _ _ => none
  | .call callee _ => callee.kind? Γ
  | .binary operator left _ =>
      match operator.fixedResult? with
      | some type => some type.kind
      | none => left.kind? Γ
  | .prefixed .negate operand => operand.kind? Γ
  | .prefixed .not _ => some .bool
  | .postfixed _ operand => operand.kind? Γ
  | .number text => some (numberType text).kind
  | .string _ => some .string
  | .boolean _ => some .bool
  | .null => some .null

/-- In every division among some expressions the operands are of one kind, or neither of them is
open. -/
def Expr.DividesKnown (Γ : Env Binding) (unknown : String → Bool) (parts : List Expr) : Prop :=
  ∀ left right, .binary .divide left right ∈ parts → left.kind? Γ = right.kind? Γ ∨
    left.isOpen unknown = false ∧ right.isOpen unknown = false

mutual

/-- Every division in a statement is one of numbers of one kind, or of numbers that are not open,
given which names are not known before the statement. -/
def Stmt.DividesKnown : Stmt → Env Binding → (String → Bool) → Prop
  | .expr e, Γ, unknown => Expr.DividesKnown Γ unknown e.parts
  | .comment _, _, _ | .use _, _, _ | .parameter _, _, _ | .function _ none, _, _ => True
  | .returns value, Γ, unknown => Expr.DividesKnown Γ unknown (Expr.allParts value.toList)
  | .declare decl, Γ, unknown => Expr.DividesKnown Γ unknown (Expr.allParts decl.value.toList)
  | .function header (some body), Γ, unknown =>
      Stmt.AllDivideKnown body
        ((Γ.declare? header.name header.binding?).enter.afterParameters header.parameters)
        (header.unknownInside unknown)
  | .branch condition body alternate, Γ, unknown =>
      Expr.DividesKnown Γ unknown condition.parts ∧ Stmt.AllDivideKnown body Γ.enter unknown ∧
        alternate.DividesKnown Γ unknown
  | .loop condition body, Γ, unknown =>
      Expr.DividesKnown Γ unknown condition.parts ∧ Stmt.AllDivideKnown body Γ.enter unknown
  | .switch subject arms, Γ, unknown =>
      Expr.DividesKnown Γ unknown subject.parts ∧ Arm.AllDivideKnown arms Γ unknown
  | .arm single, Γ, unknown => single.DividesKnown Γ unknown
  | .merged body, Γ, unknown => Stmt.AllDivideKnown body Γ unknown

def Alternate.DividesKnown : Alternate → Env Binding → (String → Bool) → Prop
  | .none, _, _ => True
  | .elseBranch condition body alternate, Γ, unknown =>
      Expr.DividesKnown Γ unknown condition.parts ∧ Stmt.AllDivideKnown body Γ.enter unknown ∧
        alternate.DividesKnown Γ unknown
  | .otherwise body, Γ, unknown => Stmt.AllDivideKnown body Γ.enter unknown

def Arm.DividesKnown : Arm → Env Binding → (String → Bool) → Prop
  | .value pattern body, Γ, unknown =>
      Expr.DividesKnown Γ unknown pattern.parts ∧ Stmt.AllDivideKnown body Γ.enter unknown
  | .otherwise body, Γ, unknown => Stmt.AllDivideKnown body Γ.enter unknown

/-- Each of some statements divides numbers of different kinds only if they are not open behind
the statements before it. -/
def Stmt.AllDivideKnown : List Stmt → Env Binding → (String → Bool) → Prop
  | [], _, _ => True
  | first :: rest, Γ, unknown =>
      first.DividesKnown Γ unknown ∧
        Stmt.AllDivideKnown rest (Γ.after first) (first.unknownAfter unknown)

def Arm.AllDivideKnown : List Arm → Env Binding → (String → Bool) → Prop
  | [], _, _ => True
  | first :: rest, Γ, unknown =>
      first.DividesKnown Γ unknown ∧ Arm.AllDivideKnown rest Γ unknown

end

/-- Each declaration of a program divides numbers of different kinds only if their types are known
inside of it, whatever is known of other names of the root scope. -/
def Program.DividesKnown (typed : Program) : Prop :=
  ∀ s ∈ typed, s.DividesKnown (.announcing (Stmt.allAnnounced typed)) fun _ => true

section Expressions

variable {Γ : Env Binding} {unknown : String → Bool}

theorem Expr.DividesKnown.mono {parts more : List Expr} (divides : DividesKnown Γ unknown more)
    (subset : parts ⊆ more) : DividesKnown Γ unknown parts :=
  fun left right present => divides left right (subset present)

theorem Expr.DividesKnown.operands {operator : BinaryOperator} {left right : Expr}
    (divides : DividesKnown Γ unknown (Expr.binary operator left right).parts) :
    DividesKnown Γ unknown left.parts ∧ DividesKnown Γ unknown right.parts := by
  have inside := divides.mono (List.subset_cons_self ..)
  exact ⟨inside.mono (List.subset_append_left ..), inside.mono (List.subset_append_right ..)⟩

theorem Expr.kind?_of_symbol? {e : Expr} {name : String} (symbol : e.symbol? = some name) :
    e.kind? Γ = Γ.kindOf name := by
  unfold Expr.symbol? at symbol
  split at symbol
  · cases symbol
    rfl
  · cases symbol
    rfl
  · cases symbol

theorem Env.kindOf_eq {name : String} {binding : Binding} (inScope : Γ.lookup name = some binding) :
    Γ.kindOf name = some binding.type.kind := by
  rw [kindOf, inScope, Option.map_some]

/-- The kind of an expression is that of its type. -/
theorem Expr.HasType.kind?_eq : ∀ {e : Expr} {type : Ty}, e.HasType Γ type →
    e.kind? Γ = some type.kind
  | _, _, .symbol named inScope =>
      (Expr.kind?_of_symbol? named).trans (Env.kindOf_eq inScope)
  | .call _ _, _, .call named inScope _ _ =>
      (Expr.kind?_of_symbol? named).trans (Env.kindOf_eq inScope)
  | .binary operator _ _, _, .arithmetic isArithmetic notDivide typed _ _ _ => by
      rw [Expr.kind?, BinaryOperator.fixedResult?_of_isArithmetic isArithmetic notDivide]
      exact Expr.HasType.kind?_eq typed
  | _, _, .divide _ _ _ _ => rfl
  | .binary operator _ _, _, .comparison isComparison _ _ _ _ => by
      rw [Expr.kind?, BinaryOperator.fixedResult?_of_isComparison isComparison]
  | .binary operator _ _, _, .connective isLogical _ _ _ _ => by
      rw [Expr.kind?, BinaryOperator.fixedResult?_of_isLogical isLogical]
  | .prefixed _ _, _, .negate typed _ => by
      rw [Expr.kind?]
      exact Expr.HasType.kind?_eq typed
  | .prefixed _ _, _, .not _ isBool => by rw [Expr.kind?, isBool]
  | .postfixed _ _, _, .step inScope _ _ => Env.kindOf_eq inScope
  | _, _, .number _ => rfl
  | _, _, .string _ => rfl
  | _, _, .boolean _ => rfl
  | _, _, .null => rfl

end Expressions

section Lookup

variable {Γ Γ' : Env Binding}

theorem Env.lookup_declare?_congr (same : Γ.lookup = Γ'.lookup) (name : String) :
    ∀ binding? : Option Binding,
      (Γ.declare? name binding?).lookup = (Γ'.declare? name binding?).lookup
  | none => same
  | some binding => by
      funext other
      rw [declare?, declare?, lookup_declare, lookup_declare, same]

theorem Env.lookup_afterParameters_congr (parameters : List Parameter) :
    ∀ {Γ Γ' : Env Binding}, Γ.lookup = Γ'.lookup →
      (Γ.afterParameters parameters).lookup = (Γ'.afterParameters parameters).lookup := by
  induction parameters with
  | nil => exact id
  | cons first rest ih => exact fun same => ih (lookup_declare?_congr same _ _)

mutual

theorem Env.lookup_after_congr : ∀ (s : Stmt) {Γ Γ' : Env Binding}, Γ.lookup = Γ'.lookup →
    (Γ.after s).lookup = (Γ'.after s).lookup
  | .declare _, _, _, same | .function _ _, _, _, same | .parameter _, _, _, same =>
      Env.lookup_declare?_congr same _ _
  | .merged body, _, _, same => Env.lookup_afterAll_congr body same
  | .expr _, _, _, same | .comment _, _, _, same | .use _, _, _, same | .returns _, _, _, same
  | .branch .., _, _, same | .loop .., _, _, same | .switch .., _, _, same
  | .arm _, _, _, same => same

theorem Env.lookup_afterAll_congr : ∀ (body : List Stmt) {Γ Γ' : Env Binding},
    Γ.lookup = Γ'.lookup → (Γ.afterAll body).lookup = (Γ'.afterAll body).lookup
  | [], _, _, same => same
  | first :: rest, _, _, same =>
      Env.lookup_afterAll_congr rest (Env.lookup_after_congr first same)

end

theorem Env.lookup_enter_congr (same : Γ.lookup = Γ'.lookup) :
    Γ.enter.lookup = Γ'.enter.lookup := by
  rw [lookup_enter, lookup_enter, same]

theorem Expr.kind?_congr (same : Γ.lookup = Γ'.lookup) : ∀ e : Expr, e.kind? Γ = e.kind? Γ'
  | .identifier _ _ => by rw [kind?, kind?, Env.kindOf, Env.kindOf, same]
  | .member object _ => by
      cases object with
      | identifier => rw [kind?, kind?, Env.kindOf, Env.kindOf, same]
      | _ => rfl
  | .call callee _ => callee.kind?_congr same
  | .binary operator left _ => by rw [kind?, kind?, left.kind?_congr same]
  | .prefixed .negate operand => operand.kind?_congr same
  | .postfixed _ operand => operand.kind?_congr same
  | .prefixed .not _ | .number _ | .string _ | .boolean _ | .null => rfl

theorem Expr.DividesKnown.congr {unknown : String → Bool} {parts : List Expr}
    (same : Γ.lookup = Γ'.lookup) (divides : DividesKnown Γ unknown parts) :
    DividesKnown Γ' unknown parts := by
  intro left right present
  rw [← left.kind?_congr same, ← right.kind?_congr same]
  exact divides left right present

mutual

/-- The order in which the names of the root scope were declared does not matter. -/
theorem Stmt.DividesKnown.congr : ∀ {s : Stmt} {Γ Γ' : Env Binding} {unknown : String → Bool},
    Γ.lookup = Γ'.lookup → s.DividesKnown Γ unknown → s.DividesKnown Γ' unknown
  | .expr _, _, _, _, same, divides | .returns _, _, _, _, same, divides
  | .declare _, _, _, _, same, divides => Expr.DividesKnown.congr same divides
  | .comment _, _, _, _, _, _ | .use _, _, _, _, _, _ | .parameter _, _, _, _, _, _
  | .function _ none, _, _, _, _, _ => trivial
  | .function header (some _), _, _, _, same, divides => by
      have inside := Env.lookup_enter_congr
        (Env.lookup_declare?_congr same header.name header.binding?)
      exact Stmt.AllDivideKnown.congr
        (Env.lookup_afterParameters_congr header.parameters inside) divides
  | .branch _ _ _, _, _, _, same, ⟨condition, body, alternate⟩ =>
      ⟨condition.congr same, body.congr (Env.lookup_enter_congr same), alternate.congr same⟩
  | .loop _ _, _, _, _, same, ⟨condition, body⟩ =>
      ⟨condition.congr same, body.congr (Env.lookup_enter_congr same)⟩
  | .switch _ _, _, _, _, same, ⟨subject, arms⟩ => ⟨subject.congr same, arms.congr same⟩
  | .arm _, _, _, _, same, divides => Arm.DividesKnown.congr same divides
  | .merged _, _, _, _, same, divides => Stmt.AllDivideKnown.congr same divides

theorem Alternate.DividesKnown.congr : ∀ {alternate : Alternate} {Γ Γ' : Env Binding}
    {unknown : String → Bool}, Γ.lookup = Γ'.lookup → alternate.DividesKnown Γ unknown →
      alternate.DividesKnown Γ' unknown
  | .none, _, _, _, _, _ => trivial
  | .elseBranch _ _ _, _, _, _, same, ⟨condition, body, alternate⟩ =>
      ⟨condition.congr same, body.congr (Env.lookup_enter_congr same), alternate.congr same⟩
  | .otherwise _, _, _, _, same, divides =>
      Stmt.AllDivideKnown.congr (Env.lookup_enter_congr same) divides

theorem Arm.DividesKnown.congr : ∀ {arm : Arm} {Γ Γ' : Env Binding} {unknown : String → Bool},
    Γ.lookup = Γ'.lookup → arm.DividesKnown Γ unknown → arm.DividesKnown Γ' unknown
  | .value _ _, _, _, _, same, ⟨pattern, body⟩ =>
      ⟨pattern.congr same, body.congr (Env.lookup_enter_congr same)⟩
  | .otherwise _, _, _, _, same, divides =>
      Stmt.AllDivideKnown.congr (Env.lookup_enter_congr same) divides

theorem Stmt.AllDivideKnown.congr : ∀ {body : List Stmt} {Γ Γ' : Env Binding}
    {unknown : String → Bool}, Γ.lookup = Γ'.lookup → Stmt.AllDivideKnown body Γ unknown →
      Stmt.AllDivideKnown body Γ' unknown
  | [], _, _, _, _, _ => trivial
  | first :: _, _, _, _, same, ⟨divides, others⟩ =>
      ⟨divides.congr same, others.congr (Env.lookup_after_congr first same)⟩

theorem Arm.AllDivideKnown.congr : ∀ {arms : List Arm} {Γ Γ' : Env Binding}
    {unknown : String → Bool}, Γ.lookup = Γ'.lookup → Arm.AllDivideKnown arms Γ unknown →
      Arm.AllDivideKnown arms Γ' unknown
  | [], _, _, _, _, _ => trivial
  | _ :: _, _, _, _, same, ⟨divides, others⟩ => ⟨divides.congr same, others.congr same⟩

end

end Lookup

end SmallLang
