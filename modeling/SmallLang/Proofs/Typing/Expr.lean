import SmallLang.Check.Expr
import SmallLang.Proofs.Scope.Lookup
import SmallLang.Proofs.Typing.Rules

/-!
# Typed expressions

The check of an expression finds a type without a complaint exactly if the expression has
that type. Without a complaint it never ends without a type.
-/

set_option autoImplicit false

namespace SmallLang

namespace Ty

@[simp] theorem sameKind_iff {first second : Ty} :
    first.sameKind second = true ↔ first.kind = second.kind := by
  simp [sameKind]

theorem isNumeric_of_kind_eq {first second : Ty} (same : first.kind = second.kind) :
    first.isNumeric = second.isNumeric := by
  simp [isNumeric, same]

theorem isTypeName_eq_false_iff {name : String} :
    isTypeName name = false ↔ ofName? name = none := by
  simp [isTypeName]

end Ty

namespace BinaryOperator

theorem accepts_of_isArithmetic {operator : BinaryOperator} {left right : Ty}
    (arithmetic : operator.isArithmetic = true) (notDivide : operator ≠ .divide) :
    operator.accepts left right = true ↔ left.isNumeric = true ∧ left.kind = right.kind := by
  have differs : (operator == .divide) = false := beq_eq_false_iff_ne.mpr notDivide
  simp only [accepts, arithmetic, if_true, differs, Bool.false_or, Bool.and_eq_true,
    Ty.sameKind_iff]
  constructor
  · rintro ⟨⟨numeric, _⟩, same⟩
    exact ⟨numeric, same⟩
  · rintro ⟨numeric, same⟩
    exact ⟨⟨numeric, Ty.isNumeric_of_kind_eq same ▸ numeric⟩, same⟩

theorem accepts_divide {left right : Ty} :
    accepts .divide left right = true ↔ left.isNumeric = true ∧ right.isNumeric = true := by
  simp [accepts, isArithmetic]

theorem accepts_of_isComparison {operator : BinaryOperator} {left right : Ty}
    (comparison : operator.isComparison = true) :
    operator.accepts left right = true ↔ left.kind = right.kind ∧ left.kind ≠ .null := by
  have notArithmetic : operator.isArithmetic = false := by
    cases operator <;> first | rfl | contradiction
  simp [accepts, notArithmetic, comparison]

theorem accepts_of_isLogical {operator : BinaryOperator} {left right : Ty}
    (logical : operator.isLogical = true) :
    operator.accepts left right = true ↔ left.kind = .bool ∧ right.kind = .bool := by
  have notArithmetic : operator.isArithmetic = false := by
    cases operator <;> first | rfl | contradiction
  have notComparison : operator.isComparison = false := by
    cases operator <;> first | rfl | contradiction
  simp [accepts, notArithmetic, notComparison]

theorem fixedResult?_of_isArithmetic {operator : BinaryOperator}
    (arithmetic : operator.isArithmetic = true) (notDivide : operator ≠ .divide) :
    operator.fixedResult? = none := by
  cases operator <;> first | rfl | contradiction

theorem fixedResult?_of_isComparison {operator : BinaryOperator}
    (comparison : operator.isComparison = true) : operator.fixedResult? = some .bool := by
  cases operator <;> first | rfl | contradiction

theorem fixedResult?_of_isLogical {operator : BinaryOperator}
    (logical : operator.isLogical = true) : operator.fixedResult? = some .bool := by
  cases operator <;> first | rfl | contradiction

/-- Every operator but division belongs to one of three families. -/
theorem family (operator : BinaryOperator) :
    operator = .divide ∨ (operator.isArithmetic = true ∧ operator ≠ .divide) ∨
      operator.isComparison = true ∨ operator.isLogical = true := by
  cases operator <;> decide

end BinaryOperator

namespace Binding

/-- The symbol that stands in a scope for a binding. -/
def symbol : Binding → Symbol
  | .value type mutable => .variable (.concrete type) mutable
  | .function parameters result => .function parameters (.concrete result)

end Binding

/-- An environment describes a way to look names up if it knows the same symbols but for the
names of types. -/
structure Env.Describes (Γ : Env Binding) (look : String → Option Symbol) : Prop where
  look_eq : ∀ name,
    look name = ((Ty.ofName? name).map Symbol.builtin).or ((Γ.lookup name).map Binding.symbol)
  apart : ∀ name, Ty.isTypeName name = true → Γ.lookup name = none

namespace Env.Describes

variable {Γ : Env Binding} {look : String → Option Symbol} {name : String}

theorem look_of_lookup (describes : Γ.Describes look) {binding : Binding}
    (found : Γ.lookup name = some binding) : look name = some binding.symbol := by
  have notType : Ty.ofName? name = none := by
    rw [← Ty.isTypeName_eq_false_iff, Bool.eq_false_iff]
    intro isType
    rw [describes.apart name isType] at found
    cases found
  rw [describes.look_eq, notType, found]
  rfl

theorem look_cases (describes : Γ.Describes look) {symbol : Symbol}
    (found : look name = some symbol) :
    (∃ type, symbol = .builtin type) ∨
      ∃ binding, Γ.lookup name = some binding ∧ symbol = binding.symbol := by
  rw [describes.look_eq] at found
  cases isType : Ty.ofName? name with
  | some type =>
      rw [isType] at found
      exact .inl ⟨type, (Option.some.inj found).symm⟩
  | none =>
      rw [isType] at found
      cases inScope : Γ.lookup name with
      | none =>
          rw [inScope] at found
          cases found
      | some binding =>
          rw [inScope] at found
          exact .inr ⟨binding, rfl, (Option.some.inj found).symm⟩

end Env.Describes

namespace Check

variable {α β : Type} {context : Context} {Γ : Env Binding}

/-- A check that finds a value and has nothing to complain of. -/
def Silent (check : Check α) (value : α) : Prop :=
  @Eq (Except Error (Checked α)) check (.ok ⟨value, []⟩)

@[simp] theorem silent_pure {value found : α} :
    Silent (pure value) found ↔ value = found := by
  constructor
  · intro silent
    exact congrArg Checked.value (Except.ok.inj silent)
  · rintro rfl
    rfl

@[simp] theorem silent_bind {first : Check α} {second : α → Check β} {found : β} :
    Silent (first >>= second) found ↔
      ∃ value, Silent first value ∧ Silent (second value) found := by
  show Check.andThen first second = _ ↔ _
  cases first with
  | error error => simp [andThen, Silent]
  | ok before =>
      obtain ⟨value, reports⟩ := before
      cases after : second value with
      | error error =>
          simp only [andThen, after, Silent, reduceCtorEq, false_iff, not_exists, not_and]
          rintro other same
          obtain ⟨rfl, rfl⟩ := Checked.mk.inj (Except.ok.inj same)
          simp [after]
      | ok last =>
          obtain ⟨value', reports'⟩ := last
          simp only [andThen, after, Silent]
          constructor
          · intro same
            obtain ⟨rfl, none⟩ := Checked.mk.inj (Except.ok.inj same)
            obtain ⟨rfl, rfl⟩ := List.append_eq_nil_iff.mp none
            exact ⟨value, rfl, after⟩
          · rintro ⟨other, same, same'⟩
            obtain ⟨rfl, rfl⟩ := Checked.mk.inj (Except.ok.inj same)
            rw [after] at same'
            obtain ⟨rfl, rfl⟩ := Checked.mk.inj (Except.ok.inj same')
            rfl

@[simp] theorem silent_ofExcept {result : Except Error α} {found : α} :
    Silent (ofExcept result) found ↔ result = .ok found := by
  cases result <;> simp [ofExcept, Silent]

@[simp] theorem silent_fail {error : Error} {found : α} :
    Silent (fail error : Check α) found ↔ False := by
  simp [fail, Silent]

@[simp] theorem silent_report {cause : Cause} {position : Position} {found : Unit} :
    Silent (report cause position) found ↔ False := by
  simp [report, Silent]

theorem silent_requireSame {cause : String → String → Cause} {expected received : Option Ty}
    {position : Position} {found : Unit} :
    Silent (requireSame cause expected received position) found ↔
      ∀ wanted ∈ expected, ∀ given ∈ received, wanted.kind = given.kind := by
  cases expected with
  | none => simp [requireSame]
  | some wanted =>
      cases received with
      | none => simp [requireSame]
      | some given =>
          by_cases same : wanted.sameKind given = true
          · simp [requireSame, same, Ty.sameKind_iff.mp same]
          · have differs : wanted.kind ≠ given.kind := fun equal =>
              same (Ty.sameKind_iff.mpr equal)
            simp [requireSame, same, differs]

theorem silent_name (describes : Γ.Describes context.scopes.resolve?) {name : String}
    {position : Position} {found : Option Ty} :
    Silent (Check.name context name position) found ↔
      ∃ binding, Γ.lookup name = some binding ∧ found = some binding.type := by
  simp only [Check.name, silent_bind, silent_ofExcept, Scopes.lookup]
  constructor
  · rintro ⟨symbol, looked, silent⟩
    cases resolved : context.scopes.resolve? name with
    | none =>
        rw [resolved] at looked
        cases looked
    | some other =>
        rw [resolved] at looked
        cases looked
        obtain ⟨type, rfl⟩ | ⟨binding, inScope, rfl⟩ := describes.look_cases resolved
        · simp at silent
        · refine ⟨binding, inScope, ?_⟩
          cases binding with
          | value => exact (silent_pure.mp silent).symm
          | function => exact (silent_pure.mp silent).symm
  · rintro ⟨binding, inScope, rfl⟩
    refine ⟨binding.symbol, ?_, ?_⟩
    · rw [describes.look_of_lookup inScope]
    · cases binding with
      | value => exact silent_pure.mpr rfl
      | function => exact silent_pure.mpr rfl

theorem silent_argumentKinds {parameters types : List Ty} {arguments : List Expr}
    (counts : arguments.length = types.length) (fits : parameters.length = types.length)
    {found : Unit} :
    Silent (argumentKinds context parameters arguments (types.map some)) found ↔
      List.Forall₂ (fun parameter type => parameter.kind = type.kind) parameters types := by
  induction types generalizing parameters arguments with
  | nil =>
      obtain rfl : parameters = [] := List.length_eq_zero_iff.mp fits
      simp [argumentKinds]
  | cons type types ih =>
      cases parameters with
      | nil => cases fits
      | cons parameter parameters =>
          cases arguments with
          | nil => cases counts
          | cons argument arguments =>
              have tail := ih (Nat.succ.inj counts) (Nat.succ.inj fits)
              simp only [List.map_cons, argumentKinds, silent_bind, silent_requireSame, tail,
                List.forall₂_cons]
              simp

theorem silent_arguments {parameters types : List Ty} {arguments : List Expr}
    {position : Position} (counts : arguments.length = types.length) {found : Unit} :
    Silent (Check.arguments context parameters arguments (types.map some) position) found ↔
      List.Forall₂ (fun parameter type => parameter.kind = type.kind) parameters types := by
  unfold Check.arguments
  by_cases many : parameters.length < arguments.length
  · simp only [many, if_true, silent_report, false_iff]
    intro pairs
    have := pairs.length_eq
    omega
  · by_cases few : arguments.length < parameters.length
    · simp only [many, few, if_false, if_true, silent_report, false_iff]
      intro pairs
      have := pairs.length_eq
      omega
    · simp only [many, few, if_false]
      exact silent_argumentKinds counts (by omega)

theorem silent_operation {operator : BinaryOperator} {left right : Ty} {position : Position}
    {found : Option Ty} :
    Silent (operation operator (some left) (some right) position) found ↔
      operator.accepts left right = true ∧ found = some (operator.fixedResult?.getD left) := by
  by_cases accepted : operator.accepts left right = true
  · simp [operation, accepted, eq_comm]
  · simp [operation, accepted]

theorem silent_requireOperand {accepted : Ty → Bool} {symbol : String} {type : Ty}
    {position : Position} {found : Option Ty} :
    Silent (requireOperand accepted symbol (some type) position) found ↔
      accepted type = true ∧ found = some type := by
  by_cases accepts : accepted type = true
  · simp [requireOperand, accepts, eq_comm]
  · simp [requireOperand, accepts]

theorem silent_requireMutable (describes : Γ.Describes context.scopes.resolve?) {name : String}
    {position : Position} {binding : Binding} (inScope : Γ.lookup name = some binding)
    {found : Unit} :
    Silent (requireMutable context name position) found ↔ binding.isConstant = false := by
  unfold requireMutable
  rw [describes.look_of_lookup inScope]
  cases binding with
  | value type mutable => cases mutable <;> simp [Binding.symbol, Binding.isConstant]
  | function => simp [Binding.symbol, Binding.isConstant]

end Check

namespace Expr

theorem HaveTypes.length_eq {Γ : Env Binding} {arguments : List Expr}
    {types : List Ty} (typed : HaveTypes Γ arguments types) :
    arguments.length = types.length := by
  induction arguments generalizing types with
  | nil =>
      cases typed
      rfl
  | cons first rest ih =>
      cases typed with
      | cons _ tail => exact congrArg Nat.succ (ih tail)

/-- All rules on binary operators in one. -/
theorem hasType_binary_iff {Γ : Env Binding} {operator : BinaryOperator} {left right : Expr}
    {type : Ty} :
    HasType Γ (.binary operator left right) type ↔
      ∃ first second, HasType Γ left first ∧ HasType Γ right second ∧
        operator.accepts first second = true ∧ type = operator.fixedResult?.getD first := by
  constructor
  · intro typed
    cases typed with
    | symbol named => cases named
    | arithmetic arithmetic notDivide first second numeric same =>
        refine ⟨_, _, first, second, ?_, ?_⟩
        · exact (BinaryOperator.accepts_of_isArithmetic arithmetic notDivide).mpr
            ⟨numeric, same⟩
        · rw [BinaryOperator.fixedResult?_of_isArithmetic arithmetic notDivide]
          rfl
    | divide first second numeric numeric' =>
        exact ⟨_, _, first, second, BinaryOperator.accepts_divide.mpr ⟨numeric, numeric'⟩, rfl⟩
    | comparison comparison first second same notNull =>
        refine ⟨_, _, first, second, ?_, ?_⟩
        · exact (BinaryOperator.accepts_of_isComparison comparison).mpr ⟨same, notNull⟩
        · rw [BinaryOperator.fixedResult?_of_isComparison comparison]
          rfl
    | connective logical first second isBool isBool' =>
        refine ⟨_, _, first, second, ?_, ?_⟩
        · exact (BinaryOperator.accepts_of_isLogical logical).mpr ⟨isBool, isBool'⟩
        · rw [BinaryOperator.fixedResult?_of_isLogical logical]
          rfl
  · rintro ⟨first, second, typed, typed', accepted, rfl⟩
    obtain rfl | ⟨arithmetic, notDivide⟩ | comparison | logical := operator.family
    · obtain ⟨numeric, numeric'⟩ := BinaryOperator.accepts_divide.mp accepted
      exact .divide typed typed' numeric numeric'
    · obtain ⟨numeric, same⟩ :=
        (BinaryOperator.accepts_of_isArithmetic arithmetic notDivide).mp accepted
      rw [BinaryOperator.fixedResult?_of_isArithmetic arithmetic notDivide]
      exact .arithmetic arithmetic notDivide typed typed' numeric same
    · obtain ⟨same, notNull⟩ := (BinaryOperator.accepts_of_isComparison comparison).mp accepted
      rw [BinaryOperator.fixedResult?_of_isComparison comparison]
      exact .comparison comparison typed typed' same notNull
    · obtain ⟨isBool, isBool'⟩ := (BinaryOperator.accepts_of_isLogical logical).mp accepted
      rw [BinaryOperator.fixedResult?_of_isLogical logical]
      exact .connective logical typed typed' isBool isBool'

private theorem hasType_symbol_iff {Γ : Env Binding} {e : Expr} {name : String} {type : Ty}
    (named : e.symbol? = some name) :
    HasType Γ e type ↔ ∃ binding, Γ.lookup name = some binding ∧ type = binding.type := by
  constructor
  · intro typed
    cases typed with
    | symbol named' inScope =>
        obtain rfl := Option.some.inj (named.symm.trans named')
        exact ⟨_, inScope, rfl⟩
    | _ => cases named
  · rintro ⟨binding, inScope, rfl⟩
    exact .symbol named inScope

section Check

variable {context : Check.Context} {Γ : Env Binding}

private theorem silent_name_iff (describes : Γ.Describes context.scopes.resolve?) {e : Expr}
    {name : String} (named : e.symbol? = some name) {position : Position} {found : Option Ty} :
    Check.Silent (Check.name context name position) found ↔
      ∃ type, found = some type ∧ e.HasType Γ type := by
  simp only [Check.silent_name describes, hasType_symbol_iff named]
  constructor
  · rintro ⟨binding, inScope, rfl⟩
    exact ⟨_, rfl, binding, inScope, rfl⟩
  · rintro ⟨_, rfl, binding, inScope, rfl⟩
    exact ⟨binding, inScope, rfl⟩

private theorem silent_call_iff (describes : Γ.Describes context.scopes.resolve?)
    {callee : Expr} {arguments : List Expr}
    (checked : ∀ {found}, Check.Silent (checkAll context arguments) found ↔
      ∃ types, found = types.map some ∧ HaveTypes Γ arguments types)
    {found : Option Ty} :
    Check.Silent ((Expr.call callee arguments).check context) found ↔
      ∃ type, found = some type ∧ (Expr.call callee arguments).HasType Γ type := by
  rw [Expr.check]
  simp only [Check.silent_bind, checked]
  constructor
  · rintro ⟨_, ⟨types, rfl, typed⟩, silent⟩
    cases named : callee.symbol? with
    | none => simp [named] at silent
    | some name =>
        simp only [named, Check.silent_bind, Check.silent_ofExcept, Scopes.lookup] at silent
        obtain ⟨symbol, looked, silent⟩ := silent
        cases resolved : context.scopes.resolve? name with
        | none =>
            rw [resolved] at looked
            cases looked
        | some other =>
            rw [resolved] at looked
            cases looked
            obtain ⟨type, rfl⟩ | ⟨binding, inScope, rfl⟩ := describes.look_cases resolved
            · simp at silent
            · cases binding with
              | value => simp [Binding.symbol] at silent
              | function parameters result =>
                  simp only [Binding.symbol, Check.silent_bind, Check.silent_pure,
                    Check.silent_arguments typed.length_eq] at silent
                  obtain ⟨_, fits, rfl⟩ := silent
                  exact ⟨result, rfl, .call named inScope typed fits⟩
  · rintro ⟨type, rfl, typed⟩
    cases typed with
    | symbol named => cases named
    | @call _ _ name parameters types _ named inScope typed fits =>
        refine ⟨_, ⟨types, rfl, typed⟩, ?_⟩
        simp only [named, Check.silent_bind, Check.silent_ofExcept, Scopes.lookup,
          describes.look_of_lookup inScope]
        refine ⟨_, rfl, ?_⟩
        simp only [Binding.symbol, Check.silent_bind, Check.silent_pure,
          Check.silent_arguments typed.length_eq]
        exact ⟨(), fits, rfl⟩

private theorem silent_binary_iff {operator : BinaryOperator} {left right : Expr}
    (checked : ∀ {found}, Check.Silent (left.check context) found ↔
      ∃ type, found = some type ∧ left.HasType Γ type)
    (checked' : ∀ {found}, Check.Silent (right.check context) found ↔
      ∃ type, found = some type ∧ right.HasType Γ type) {found : Option Ty} :
    Check.Silent ((Expr.binary operator left right).check context) found ↔
      ∃ type, found = some type ∧ (Expr.binary operator left right).HasType Γ type := by
  simp only [Expr.check, Check.silent_bind, checked, checked', hasType_binary_iff]
  constructor
  · rintro ⟨_, ⟨first, rfl, typed⟩, _, ⟨second, rfl, typed'⟩, silent⟩
    obtain ⟨accepted, rfl⟩ := Check.silent_operation.mp silent
    exact ⟨_, rfl, first, second, typed, typed', accepted, rfl⟩
  · rintro ⟨_, rfl, first, second, typed, typed', accepted, rfl⟩
    exact ⟨_, ⟨first, rfl, typed⟩, _, ⟨second, rfl, typed'⟩,
      Check.silent_operation.mpr ⟨accepted, rfl⟩⟩

private theorem silent_prefixed_iff {operator : PrefixOperator} {operand : Expr}
    (checked : ∀ {found}, Check.Silent (operand.check context) found ↔
      ∃ type, found = some type ∧ operand.HasType Γ type) {found : Option Ty} :
    Check.Silent ((Expr.prefixed operator operand).check context) found ↔
      ∃ type, found = some type ∧ (Expr.prefixed operator operand).HasType Γ type := by
  simp only [Expr.check, Check.silent_bind, checked]
  constructor
  · rintro ⟨_, ⟨type, rfl, typed⟩, silent⟩
    obtain ⟨accepted, rfl⟩ := Check.silent_requireOperand.mp silent
    cases operator with
    | negate => exact ⟨type, rfl, .negate typed accepted⟩
    | not => exact ⟨type, rfl, .not typed (beq_iff_eq.mp accepted)⟩
  · rintro ⟨type, rfl, typed⟩
    cases typed with
    | symbol named => cases named
    | negate typed numeric =>
        exact ⟨_, ⟨type, rfl, typed⟩, Check.silent_requireOperand.mpr ⟨numeric, rfl⟩⟩
    | not typed isBool =>
        exact ⟨_, ⟨type, rfl, typed⟩,
          Check.silent_requireOperand.mpr ⟨beq_iff_eq.mpr isBool, rfl⟩⟩

private theorem silent_step_iff (describes : Γ.Describes context.scopes.resolve?)
    {operator : PostfixOperator} {name : String} {position : Position} {found : Option Ty} :
    Check.Silent ((Expr.postfixed operator (.identifier name position)).check context) found ↔
      ∃ type, found = some type ∧
        (Expr.postfixed operator (.identifier name position)).HasType Γ type := by
  simp only [Expr.check, Check.silent_bind, Check.silent_name describes]
  constructor
  · rintro ⟨_, ⟨binding, inScope, rfl⟩, _, changes, silent⟩
    obtain ⟨numeric, rfl⟩ := Check.silent_requireOperand.mp silent
    exact ⟨_, rfl, .step inScope ((Check.silent_requireMutable describes inScope).mp changes)
      numeric⟩
  · rintro ⟨type, rfl, typed⟩
    cases typed with
    | symbol named => cases named
    | step inScope changes numeric =>
        exact ⟨_, ⟨_, inScope, rfl⟩, (),
          (Check.silent_requireMutable describes inScope).mpr changes,
          Check.silent_requireOperand.mpr ⟨numeric, rfl⟩⟩

mutual

/-- The check of an expression finds a type without a complaint exactly if the expression
has that type. -/
theorem silent_check_iff (describes : Γ.Describes context.scopes.resolve?) :
    ∀ (e : Expr) {found : Option Ty}, Check.Silent (e.check context) found ↔
      ∃ type, found = some type ∧ e.HasType Γ type
  | .identifier name position, found => by
      rw [Expr.check]
      exact silent_name_iff describes rfl
  | .member object property, found => by
      cases object with
      | identifier space position =>
          rw [Expr.check]
          exact silent_name_iff describes rfl
      | _ =>
          simp only [Expr.check, Check.silent_bind, Check.silent_report, false_and,
            exists_false, false_iff]
          rintro ⟨type, rfl, typed⟩
          cases typed with
          | symbol named => cases named
  | .call callee arguments, found =>
      silent_call_iff describes (silent_checkAll_iff describes arguments)
  | .binary operator left right, found =>
      silent_binary_iff (silent_check_iff describes left) (silent_check_iff describes right)
  | .prefixed operator operand, found =>
      silent_prefixed_iff (silent_check_iff describes operand)
  | .postfixed operator operand, found => by
      cases operand with
      | identifier name position => exact silent_step_iff describes
      | _ =>
          simp only [Expr.check, Check.silent_bind, Check.silent_report, false_and,
            exists_false, and_false, false_iff]
          rintro ⟨type, rfl, typed⟩
          cases typed with
          | symbol named => cases named
  | .number text, found => by
      simp only [Expr.check, Check.silent_pure]
      constructor
      · rintro rfl
        exact ⟨_, rfl, .number text⟩
      · rintro ⟨_, rfl, typed⟩
        cases typed with
        | symbol named => cases named
        | number => rfl
  | .string value, found => by
      simp only [Expr.check, Check.silent_pure]
      constructor
      · rintro rfl
        exact ⟨_, rfl, .string value⟩
      · rintro ⟨_, rfl, typed⟩
        cases typed with
        | symbol named => cases named
        | string => rfl
  | .boolean value, found => by
      simp only [Expr.check, Check.silent_pure]
      constructor
      · rintro rfl
        exact ⟨_, rfl, .boolean value⟩
      · rintro ⟨_, rfl, typed⟩
        cases typed with
        | symbol named => cases named
        | boolean => rfl
  | .null, found => by
      simp only [Expr.check, Check.silent_pure]
      constructor
      · rintro rfl
        exact ⟨_, rfl, .null⟩
      · rintro ⟨_, rfl, typed⟩
        cases typed with
        | symbol named => cases named
        | null => rfl

/-- The check of some expressions finds their types. -/
theorem silent_checkAll_iff (describes : Γ.Describes context.scopes.resolve?) :
    ∀ (expressions : List Expr) {found : List (Option Ty)},
      Check.Silent (checkAll context expressions) found ↔
        ∃ types, found = types.map some ∧ HaveTypes Γ expressions types
  | [], found => by
      simp only [checkAll, Check.silent_pure]
      constructor
      · rintro rfl
        exact ⟨[], rfl, .nil⟩
      · rintro ⟨types, rfl, typed⟩
        cases typed
        rfl
  | first :: rest, found => by
      simp only [checkAll, Check.silent_bind, Check.silent_pure,
        silent_check_iff describes first, silent_checkAll_iff describes rest]
      constructor
      · rintro ⟨_, ⟨type, rfl, typed⟩, _, ⟨types, rfl, typed'⟩, rfl⟩
        exact ⟨type :: types, rfl, .cons typed typed'⟩
      · rintro ⟨types, rfl, typed⟩
        cases typed with
        | cons typed typed' => exact ⟨_, ⟨_, rfl, typed⟩, _, ⟨_, rfl, typed'⟩, rfl⟩

end

/-- Without a complaint, the check of an expression never ends without a type. -/
theorem not_silent_check_none (describes : Γ.Describes context.scopes.resolve?) (e : Expr) :
    ¬ Check.Silent (e.check context) none := by
  intro silent
  obtain ⟨type, missing, _⟩ := (silent_check_iff describes e).mp silent
  cases missing

theorem silent_check?_iff (describes : Γ.Describes context.scopes.resolve?) (value : Option Expr)
    {found : Option Ty} :
    Check.Silent (check? context value) found ↔ HasType? Γ value found := by
  cases value with
  | none =>
      simp only [check?, Check.silent_pure]
      constructor
      · rintro rfl
        exact .none
      · intro typed
        cases typed
        rfl
  | some e =>
      simp only [check?, silent_check_iff describes e]
      constructor
      · rintro ⟨type, rfl, typed⟩
        exact .some typed
      · intro typed
        cases typed with
        | some typed => exact ⟨_, rfl, typed⟩

end Check

end Expr

end SmallLang
