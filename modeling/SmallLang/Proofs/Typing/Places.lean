import SmallLang.Proofs.Inference.Program
import SmallLang.Proofs.Typing.Program

/-!
# Where expressions stand

Each expression of a program stands somewhere in the scope of names. In a typed program whose types
are known each is typed there, and so is each expression inside it that changes a variable. What
`++` and `--` change is known by its name, and has a number to change.
-/

set_option autoImplicit false

namespace SmallLang

mutual

/-- An expression and all expressions inside it. -/
def Expr.parts (e : Expr) : List Expr :=
  e :: match e with
    | .member object _ => object.parts
    | .call callee arguments => callee.parts ++ Expr.allParts arguments
    | .binary _ left right => left.parts ++ right.parts
    | .prefixed _ operand => operand.parts
    | .postfixed _ operand => operand.parts
    | .identifier .. | .number _ | .string _ | .boolean _ | .null => []

def Expr.allParts : List Expr → List Expr
  | [] => []
  | first :: rest => first.parts ++ Expr.allParts rest

end

/-- An expression, and the names that are visible where it stands. -/
structure Place where
  scope : Env Binding
  expression : Expr

/-- The environment after a declaration, if it is known what is declared. -/
def Env.declare? (Γ : Env Binding) (name : String) : Option Binding → Env Binding
  | some binding => Γ.declare name binding
  | none => Γ

/-- What the name of a variable stands for, if its type is stated. -/
def Variable.binding? (decl : Variable) : Option Binding :=
  decl.statedType?.map fun type => .value type decl.mutable

/-- What the name of a parameter stands for, if its type exists. -/
def Parameter.binding? (param : Parameter) : Option Binding :=
  param.typeName.type?.map fun type => .value type true

/-- The environment after parameters. -/
def Env.afterParameters (Γ : Env Binding) (parameters : List Parameter) : Env Binding :=
  parameters.foldl (fun Γ param => Γ.declare? param.name param.binding?) Γ

mutual

/-- The environment after a statement. -/
def Env.after (Γ : Env Binding) : Stmt → Env Binding
  | .declare decl => Γ.declare? decl.name decl.binding?
  | .function header _ => Γ.declare? header.name header.binding?
  | .parameter param => Γ.declare? param.name param.binding?
  | .merged body => Γ.afterAll body
  | .expr _ | .comment _ | .use _ | .returns _ | .branch .. | .loop .. | .switch .. | .arm _ => Γ

def Env.afterAll (Γ : Env Binding) : List Stmt → Env Binding
  | [] => Γ
  | first :: rest => (Γ.after first).afterAll rest

end

mutual

/-- The places in a statement that stands in an environment. -/
def Stmt.places (Γ : Env Binding) : Stmt → List Place
  | .expr e => [⟨Γ, e⟩]
  | .comment _ | .use _ | .parameter _ | .function _ none => []
  | .returns value => value.toList.map (⟨Γ, ·⟩)
  | .declare decl => decl.value.toList.map (⟨Γ, ·⟩)
  | .function header (some body) =>
      Stmt.allPlaces
        ((Γ.declare? header.name header.binding?).enter.afterParameters header.parameters) body
  | .branch condition body alternate =>
      ⟨Γ, condition⟩ :: (Stmt.allPlaces Γ.enter body ++ alternate.places Γ)
  | .loop condition body => ⟨Γ, condition⟩ :: Stmt.allPlaces Γ.enter body
  | .switch subject arms => ⟨Γ, subject⟩ :: Arm.allPlaces Γ arms
  | .arm single => single.places Γ
  | .merged body => Stmt.allPlaces Γ body

def Alternate.places (Γ : Env Binding) : Alternate → List Place
  | .none => []
  | .elseBranch condition body alternate =>
      ⟨Γ, condition⟩ :: (Stmt.allPlaces Γ.enter body ++ alternate.places Γ)
  | .otherwise body => Stmt.allPlaces Γ.enter body

def Arm.places (Γ : Env Binding) : Arm → List Place
  | .value pattern body => ⟨Γ, pattern⟩ :: Stmt.allPlaces Γ.enter body
  | .otherwise body => Stmt.allPlaces Γ.enter body

/-- The places in statements, each of which sees what those before it have declared. -/
def Stmt.allPlaces (Γ : Env Binding) : List Stmt → List Place
  | [] => []
  | first :: rest => first.places Γ ++ Stmt.allPlaces (Γ.after first) rest

def Arm.allPlaces (Γ : Env Binding) : List Arm → List Place
  | [] => []
  | first :: rest => first.places Γ ++ Arm.allPlaces Γ rest

end

/-- The places in a program. What it announces is visible everywhere. -/
def Program.places (program : Program) : List Place :=
  Stmt.allPlaces (.announcing (Stmt.allAnnounced program)) program

section Scopes

variable {rules : Discipline} {Γ Γ' : Env Binding}

theorem Variable.Typed.binding?_eq {decl : Variable} {type : Ty} (typed : decl.Typed rules Γ type)
    (noted : (Stmt.declare decl).Noted Term.IsType) :
    decl.binding? = some (.value type decl.mutable) := by
  obtain ⟨founded, known, _, _, stated, _, _⟩ := typed
  have isStated : decl.statedType?.isSome := by
    unfold Variable.statedType?
    cases written : decl.typeName with
    | some typeName => exact known typeName written
    | none =>
        rw [written] at founded
        obtain ⟨term, resolved, isType⟩ := noted.2 (founded.resolve_left nofun)
        cases term with
        | concrete other => simp [resolvedType?, resolved, Term.type?]
        | pending => cases isType
  obtain ⟨other, same⟩ := Option.isSome_iff_exists.mp isStated
  rw [same, Option.some_or] at stated
  rw [binding?, same, stated, Option.map_some]

theorem Parameter.Declared.afterParameters_eq {parameters : List Parameter}
    (declared : Parameter.Declared Γ parameters Γ') : Γ.afterParameters parameters = Γ' := by
  induction declared with
  | nil => rfl
  | cons isType _ _ ih =>
      rw [← ih, Env.afterParameters, List.foldl_cons, Parameter.binding?, isType]
      rfl

mutual

/-- A typed statement whose types are known leaves the environment that its declarations give. -/
theorem Stmt.Typed.after_eq : ∀ {s : Stmt} {ρ : Option Ty} {Γ Γ' : Env Binding}
    {returned : List Ty}, s.Typed rules ρ Γ Γ' returned → s.Noted Term.IsType → Γ.after s = Γ'
  | _, _, _, _, _, .expr _, _ | _, _, _, _, _, .comment _, _ | _, _, _, _, _, .use _, _
  | _, _, _, _, _, .returns .., _ | _, _, _, _, _, .branch .., _ | _, _, _, _, _, .loop .., _
  | _, _, _, _, _, .switch .., _ | _, _, _, _, _, .arm _, _ => rfl
  | _, _, _, _, _, .parameter isType _, _ => by
      rw [Env.after, Parameter.binding?, isType]
      rfl
  | _, _, _, _, _, .declare typed _, noted => by
      rw [Env.after, typed.binding?_eq noted]
      rfl
  | _, _, _, _, _, .prototype known known' _ _, _
  | _, _, _, _, _, .function known known' _ _ _ _, _ => by
      rw [Env.after, FunctionHeader.binding?_eq_some known known']
      rfl
  | _, _, _, _, _, .merged typed, noted => Stmt.TypedAll.afterAll_eq typed noted
termination_by structural s => s

theorem Stmt.TypedAll.afterAll_eq : ∀ {body : List Stmt} {ρ : Option Ty} {Γ Γ' : Env Binding}
    {returned : List Ty}, Stmt.TypedAll rules ρ Γ body Γ' returned →
      Stmt.AllNoted Term.IsType body → Γ.afterAll body = Γ'
  | _, _, _, _, _, .nil, _ => rfl
  | _, _, _, _, _, .cons typed typedRest, noted => by
      rw [Env.afterAll, Stmt.Typed.after_eq typed noted.1,
        Stmt.TypedAll.afterAll_eq typedRest noted.2]
termination_by structural body => body

end

end Scopes

section Parts

variable {Γ : Env Binding} {operator : PostfixOperator} {operand : Expr}

theorem Expr.postfixed_not_mem_parts {e : Expr} {name : String} (symbol : e.symbol? = some name) :
    Expr.postfixed operator operand ∉ e.parts := by
  unfold Expr.symbol? at symbol
  split at symbol
  · simp [Expr.parts]
  · simp [Expr.parts]
  · cases symbol

mutual

/-- In a typed expression each `++` and `--` is typed. -/
theorem Expr.HasType.of_postfixed : ∀ {e : Expr} {type : Ty}, e.HasType Γ type →
    .postfixed operator operand ∈ e.parts →
    ∃ type', (Expr.postfixed operator operand).HasType Γ type'
  | _, _, .symbol symbol _, present => absurd present (Expr.postfixed_not_mem_parts symbol)
  | .call _ _, _, .call symbol _ typed _, present => by
      rw [Expr.parts, List.mem_cons] at present
      obtain present | present := List.mem_append.mp (present.resolve_left nofun)
      · exact absurd present (Expr.postfixed_not_mem_parts symbol)
      · exact Expr.HaveTypes.of_postfixed typed present
  | .binary _ _ _, _, .arithmetic _ _ typed typed' _ _, present
  | .binary _ _ _, _, .divide typed typed' _ _, present
  | .binary _ _ _, _, .comparison _ typed typed' _ _, present
  | .binary _ _ _, _, .connective _ typed typed' _ _, present => by
      rw [Expr.parts, List.mem_cons] at present
      obtain present | present := List.mem_append.mp (present.resolve_left nofun)
      · exact Expr.HasType.of_postfixed typed present
      · exact Expr.HasType.of_postfixed typed' present
  | .prefixed _ _, _, .negate typed _, present | .prefixed _ _, _, .not typed _, present => by
      rw [Expr.parts, List.mem_cons] at present
      exact Expr.HasType.of_postfixed typed (present.resolve_left nofun)
  | .postfixed _ (.identifier _ _), _, .step found notConstant isNumeric, present => by
      rw [Expr.parts, List.mem_cons] at present
      obtain same | present := present
      · rw [same]
        exact ⟨_, .step found notConstant isNumeric⟩
      · simp [Expr.parts] at present
  | _, _, .number _, present | _, _, .string _, present | _, _, .boolean _, present
  | _, _, .null, present => by simp [Expr.parts] at present
termination_by structural e => e

theorem Expr.HaveTypes.of_postfixed : ∀ {expressions : List Expr} {types : List Ty},
    Expr.HaveTypes Γ expressions types →
      .postfixed operator operand ∈ Expr.allParts expressions →
      ∃ type', (Expr.postfixed operator operand).HasType Γ type'
  | _, _, .nil, present => nomatch present
  | _, _, .cons typed typedRest, present => by
      obtain present | present := List.mem_append.mp present
      · exact Expr.HasType.of_postfixed typed present
      · exact Expr.HaveTypes.of_postfixed typedRest present
termination_by structural expressions => expressions

end

/-- What is changed is known by its name. It is a variable, or a function that returns a number. -/
theorem Expr.HasType.operand_of_postfixed {type : Ty}
    (typed : (Expr.postfixed operator operand).HasType Γ type) :
    ∃ name position binding, operand = .identifier name position ∧
      Γ.lookup name = some binding ∧ binding.isConstant = false ∧
      binding.type.isNumeric = true := by
  cases typed with
  | symbol symbol _ => cases symbol
  | step found notConstant isNumeric =>
      exact ⟨_, _, _, rfl, found, notConstant, isNumeric⟩

end Parts

section Typed

variable {rules : Discipline}

/-- Every expression at some places is typed there. -/
def AllTyped (places : List Place) : Prop :=
  ∀ place ∈ places, ∃ type, place.expression.HasType place.scope type

theorem AllTyped.append {first second : List Place} (typed : AllTyped first)
    (typed' : AllTyped second) : AllTyped (first ++ second) := by
  intro place present
  obtain present | present := List.mem_append.mp present
  · exact typed place present
  · exact typed' place present

theorem AllTyped.cons {Γ : Env Binding} {e : Expr} {type : Ty} {rest : List Place}
    (typed : e.HasType Γ type) (typedRest : AllTyped rest) :
    AllTyped (⟨Γ, e⟩ :: rest) := by
  intro place present
  obtain rfl | present := List.mem_cons.mp present
  · exact ⟨type, typed⟩
  · exact typedRest place present

theorem Expr.HasType?.allTyped {Γ : Env Binding} {value : Option Expr} {found : Option Ty}
    (typed : Expr.HasType? Γ value found) :
    AllTyped (value.toList.map (⟨Γ, ·⟩)) := by
  cases typed with
  | none => nofun
  | some typed => exact .cons typed nofun

mutual

/-- In a typed statement whose types are known every expression is typed where it stands. -/
theorem Stmt.Typed.allTyped : ∀ {s : Stmt} {ρ : Option Ty} {Γ Γ' : Env Binding}
    {returned : List Ty}, s.Typed rules ρ Γ Γ' returned → s.Noted Term.IsType →
      AllTyped (s.places Γ)
  | _, _, _, _, _, .expr typed, _ => .cons typed nofun
  | _, _, _, _, _, .comment _, _ | _, _, _, _, _, .use _, _ | _, _, _, _, _, .parameter .., _
  | _, _, _, _, _, .prototype .., _ => nofun
  | _, _, _, _, _, .returns typed _, _ => typed.allTyped
  | _, _, _, _, _, .declare typed _, _ => by
      obtain ⟨_, _, _, valued, _, _, _⟩ := typed
      exact valued.allTyped
  | _, _, _, _, _, .function known known' _ declared typed _, noted => by
      rw [Stmt.places, FunctionHeader.binding?_eq_some known known', Env.declare?,
        declared.afterParameters_eq]
      exact Stmt.TypedAll.allTyped typed noted.2.2.2
  | _, _, _, _, _, .branch typed _ typedBody typedRest, noted =>
      .cons typed ((Stmt.TypedAll.allTyped typedBody noted.1).append
        (Alternate.Typed.allTyped typedRest noted.2))
  | _, _, _, _, _, .loop typed _ typedBody, noted =>
      .cons typed (Stmt.TypedAll.allTyped typedBody noted)
  | _, _, _, _, _, .switch typed typedArms, noted =>
      .cons typed (Arm.TypedAll.allTyped typedArms noted)
  | _, _, _, _, _, .arm typed, noted => Arm.Typed.allTyped typed noted
  | _, _, _, _, _, .merged typed, noted => Stmt.TypedAll.allTyped typed noted
termination_by structural s => s

theorem Alternate.Typed.allTyped : ∀ {alternate : Alternate} {ρ : Option Ty} {Γ : Env Binding}
    {returned : List Ty}, alternate.Typed rules ρ Γ returned → alternate.Noted Term.IsType →
      AllTyped (alternate.places Γ)
  | _, _, _, _, .none, _ => nofun
  | _, _, _, _, .elseBranch typed _ typedBody typedRest, noted =>
      .cons typed ((Stmt.TypedAll.allTyped typedBody noted.1).append
        (Alternate.Typed.allTyped typedRest noted.2))
  | _, _, _, _, .otherwise typed, noted => Stmt.TypedAll.allTyped typed noted
termination_by structural alternate => alternate

theorem Arm.Typed.allTyped : ∀ {arm : Arm} {ρ subject : Option Ty} {Γ : Env Binding}
    {returned : List Ty}, arm.Typed rules ρ subject Γ returned → arm.Noted Term.IsType →
      AllTyped (arm.places Γ)
  | _, _, _, _, _, .value typed _ typedBody, noted =>
      .cons typed (Stmt.TypedAll.allTyped typedBody noted)
  | _, _, _, _, _, .otherwise typed, noted => Stmt.TypedAll.allTyped typed noted
termination_by structural arm => arm

theorem Stmt.TypedAll.allTyped : ∀ {body : List Stmt} {ρ : Option Ty} {Γ Γ' : Env Binding}
    {returned : List Ty}, Stmt.TypedAll rules ρ Γ body Γ' returned →
      Stmt.AllNoted Term.IsType body → AllTyped (Stmt.allPlaces Γ body)
  | _, _, _, _, _, .nil, _ => nofun
  | _, _, _, _, _, .cons typed typedRest, noted => by
      rw [Stmt.allPlaces, typed.after_eq noted.1]
      exact (Stmt.Typed.allTyped typed noted.1).append (Stmt.TypedAll.allTyped typedRest noted.2)
termination_by structural body => body

theorem Arm.TypedAll.allTyped : ∀ {arms : List Arm} {ρ subject : Option Ty} {Γ : Env Binding}
    {returned : List Ty}, Arm.TypedAll rules ρ subject Γ arms returned →
      Arm.AllNoted Term.IsType arms → AllTyped (Arm.allPlaces Γ arms)
  | _, _, _, _, _, .nil, _ => nofun
  | _, _, _, _, _, .cons typed typedRest, noted =>
      (Arm.Typed.allTyped typed noted.1).append (Arm.TypedAll.allTyped typedRest noted.2)
termination_by structural arms => arms

end

end Typed

/-- In a program that was inferred and passes its check, `++` and `--` are applied to names alone,
each of which stands for a variable or a parameter that is a number and no constant, or for a
function that returns a number. -/
theorem Program.operands_of_postfixed {program typed : Program} {order : ForwardOrder}
    (inferred : program.infer order = .ok typed) (passes : typed.check = .ok []) :
    ∀ place ∈ typed.places, ∀ operator operand,
      .postfixed operator operand ∈ place.expression.parts →
      ∃ name position binding, operand = .identifier name position ∧
        place.scope.lookup name = some binding ∧
        ((∃ type, binding = .value type true ∧ type.isNumeric = true) ∨
          ∃ parameters result, binding = .function parameters result ∧
            result.isNumeric = true) := by
  intro place present operator operand changed
  obtain ⟨last, returned, wellTyped⟩ := (check_eq_ok_nil_iff typed).mp passes
  obtain ⟨type, hasType⟩ := wellTyped.allTyped (allNoted_of_infer inferred) place present
  obtain ⟨type', changes⟩ := hasType.of_postfixed changed
  obtain ⟨name, position, binding, isName, found, notConstant, isNumeric⟩ :=
    changes.operand_of_postfixed
  refine ⟨name, position, binding, isName, found, ?_⟩
  cases binding with
  | value type mutable =>
      obtain rfl : mutable = true := by simpa [Binding.isConstant] using notConstant
      exact .inl ⟨type, rfl, isNumeric⟩
  | function parameters result => exact .inr ⟨parameters, result, rfl, isNumeric⟩

namespace SteppedFunction

/-- A program that changes a parameter, a variable, another one of its name, and a function. -/
def program (outer inner result : Option Term) : Program :=
  [.declare ⟨"x", true, none, some (.number "1"), .null, outer⟩,
    .function ⟨"f", [⟨"p", "float", .null⟩], some ⟨"int", .null⟩, [], .null, result⟩ (some
      [.expr (.postfixed .decrement (.identifier "p" .null)),
        .declare ⟨"x", true, some ⟨"i8", .null⟩, some (.number "2"), .null, inner⟩,
        .expr (.postfixed .increment (.identifier "x" .null)),
        .returns (some (.number "1"))]),
    .expr (.binary .add (.number "1") (.postfixed .increment (.identifier "x" .null))),
    .expr (.postfixed .increment (.identifier "f" .null))]

/-- The same program with the types of its declarations. -/
def typed : Program :=
  program (some (.concrete .int)) (some (.concrete (.sized .w8))) (some (.concrete .int))

end SteppedFunction

open SteppedFunction in
/-- A function that returns a number passes as what `++` changes. -/
theorem Program.operands_of_postfixed_function :
    (program none none none).infer .byUse = .ok typed ∧ typed.check = .ok [] ∧
      ∀ place ∈ typed.places, ∀ operator operand,
        .postfixed operator operand ∈ place.expression.parts →
        ∃ name position binding, operand = .identifier name position ∧
          place.scope.lookup name = some binding ∧
          ((∃ type, binding = .value type true ∧ type.isNumeric = true) ∨
            ∃ parameters result, binding = .function parameters result ∧
              result.isNumeric = true) := by
  have inferred : (program none none none).infer .byUse = .ok typed := by rfl
  have passes : typed.check = .ok [] := by decide +kernel
  exact ⟨inferred, passes, Program.operands_of_postfixed inferred passes⟩

end SmallLang
