import SmallLang.Check.Stmt
import SmallLang.Proofs.Typing.Expr
import SmallLang.Proofs.Typing.Names

/-!
# Typed statements

The check of a statement has nothing to complain of exactly if the statement is well typed
in the environment that its context stands for. In the root scope, the announced names are
in the scopes of the checker from the start, and in the block of the environment only once
their declarations are reached.
-/

set_option autoImplicit false

namespace SmallLang

/-- Scopes that an environment describes have the names of types for types. -/
theorem Env.Describes.sane {scopes : Scopes} {Γ : Env Binding}
    (describes : Γ.Describes scopes.resolve?) : scopes.Sane := by
  intro name type
  rw [describes.look_eq]
  cases Ty.ofName? name with
  | some other => simp
  | none =>
      cases Γ.lookup name with
      | none => simp
      | some binding => cases binding <;> simp [Binding.symbol]

namespace FunctionHeader

variable {scopes : Scopes} {Γ : Env Binding}

theorem returnType_eq_ok_iff (describes : Γ.Describes scopes.resolve?) {header : FunctionHeader}
    {result : Ty} :
    header.returnType scopes = .ok result ↔ header.resultType? = some result := by
  unfold returnType resultType?
  cases header.returns with
  | some typeName => exact describes.sane.typeOf_eq_ok_iff
  | none =>
      cases header.resolvedType? with
      | some type => simp
      | none => cases external : header.isExternal <;> simp

theorem symbol_eq_ok_iff (describes : Γ.Describes scopes.resolve?) {header : FunctionHeader}
    {symbol : Symbol} :
    header.symbol scopes = .ok symbol ↔
      ∃ parameters result, header.parameterTypes? = some parameters ∧
        header.resultType? = some result ∧
        symbol = (Binding.function parameters result).symbol := by
  unfold FunctionHeader.symbol parameterTypes?
  constructor
  · intro found
    cases known : scopes.typesOf (header.parameters.map (·.typeName)) with
    | error error =>
        rw [known] at found
        cases found
    | ok parameters =>
        cases known' : header.returnType scopes with
        | error error =>
            rw [known, known'] at found
            cases found
        | ok result =>
            rw [known, known'] at found
            cases found
            exact ⟨parameters, result, describes.sane.typesOf_eq_ok_iff.mp known,
              (returnType_eq_ok_iff describes).mp known', rfl⟩
  · rintro ⟨parameters, result, known, known', rfl⟩
    rw [describes.sane.typesOf_eq_ok_iff.mpr known,
      (returnType_eq_ok_iff describes).mpr known']
    rfl

end FunctionHeader

namespace Env.Describes

variable {scopes : Scopes} {Γ : Env Binding}

theorem enter (describes : Γ.Describes scopes.resolve?) :
    Γ.enter.Describes scopes.push.resolve? where
  look_eq := by
    intro name
    rw [Scopes.resolve?_push, Env.lookup_enter]
    exact describes.look_eq name
  apart := by
    intro name isType
    rw [Env.lookup_enter]
    exact describes.apart name isType

theorem declare {look look' : String → Option Symbol} (describes : Γ.Describes look)
    {name : String} (notType : Ty.isTypeName name = false) (binding : Binding)
    (changed : ∀ other, look' other = if other = name then some binding.symbol else look other) :
    (Γ.declare name binding).Describes look' where
  look_eq := by
    intro other
    rw [changed, Env.lookup_declare, describes.look_eq]
    by_cases same : other = name
    · rw [same, Ty.isTypeName_eq_false_iff.mp notType]
      simp
    · simp [same]
  apart := by
    intro other isType
    rw [Env.lookup_declare, if_neg, describes.apart other isType]
    rintro rfl
    rw [notType] at isType
    cases isType

theorem insert (describes : Γ.Describes scopes.resolve?) {name : String}
    (notType : Ty.isTypeName name = false) (binding : Binding) :
    (Γ.declare name binding).Describes (scopes.insert name binding.symbol).resolve? :=
  describes.declare notType binding fun other =>
    Scopes.resolve?_insert scopes name other binding.symbol

end Env.Describes

namespace Variable

theorem annotated_or_resolved {decl : Variable}
    (known : ∀ typeName ∈ decl.typeName, typeName.type?.isSome) :
    (decl.typeName.bind TypeName.type?).or decl.resolvedType? = decl.statedType? := by
  unfold statedType?
  cases written : decl.typeName with
  | none => rfl
  | some typeName =>
      obtain ⟨type, isType⟩ := Option.isSome_iff_exists.mp (known typeName written)
      simp [isType]

/-- The type of a variable with a type or a value follows from these. -/
theorem exists_follows {decl : Variable} {Γ : Env Binding}
    {value : Option Ty} (founded : decl.typeName.isSome ∨ decl.value.isSome)
    (known : ∀ typeName ∈ decl.typeName, typeName.type?.isSome)
    (valued : Expr.HasType? Γ decl.value value) :
    ∃ type, (decl.typeName.bind TypeName.type?).or value = some type := by
  cases written : decl.typeName with
  | some typeName =>
      obtain ⟨type, isType⟩ := Option.isSome_iff_exists.mp (known typeName written)
      exact ⟨type, by simp [isType]⟩
  | none =>
      rw [written] at founded
      generalize decl.value = expression at founded valued
      cases valued with
      | none => simp at founded
      | some typed => exact ⟨_, rfl⟩

/-- A variable with a type or a value has a type in the end. -/
theorem exists_stated_or {decl : Variable} {Γ : Env Binding}
    {value : Option Ty} (founded : decl.typeName.isSome ∨ decl.value.isSome)
    (known : ∀ typeName ∈ decl.typeName, typeName.type?.isSome)
    (valued : Expr.HasType? Γ decl.value value) :
    ∃ type, decl.statedType?.or value = some type := by
  obtain ⟨type, follows⟩ := exists_follows founded known valued
  rw [← annotated_or_resolved known, ← Option.isSome_iff_exists]
  cases written : decl.typeName.bind TypeName.type? with
  | some other => rfl
  | none =>
      rw [written, Option.none_or] at follows
      simp [follows]

end Variable

namespace Check

/-- A context stands for an environment: its scopes know the same symbols, and inside the
root scope also the innermost one does. -/
structure Context.Stands (context : Context) (root : Bool) (ρ : Option Ty)
    (Γ : Env Binding) : Prop where
  describes : Γ.Describes context.scopes.resolve?
  returns : context.returns = ρ
  isRoot : context.scopes.isRoot = root
  block : root = false → ∀ name,
    context.scopes.innermost.lookup name = (Γ.block name).map Binding.symbol

namespace Context.Stands

variable {context : Context} {root : Bool} {ρ : Option Ty} {Γ : Env Binding}
  {name : String} {binding : Binding}

theorem anchored (stands : context.Stands root ρ Γ) (anchor : Position) :
    { context with anchor }.Stands root ρ Γ :=
  ⟨stands.describes, stands.returns, stands.isRoot, stands.block⟩

theorem leave (stands : context.Stands root ρ Γ) (last : Context) :
    (context.leave last).Stands root ρ Γ :=
  stands.anchored last.anchor

theorem enter (stands : context.Stands root ρ Γ) : context.enter.Stands false ρ Γ.enter :=
  ⟨stands.describes.enter, stands.returns, Scopes.isRoot_push context.scopes, fun _ _ => rfl⟩

theorem inside (stands : context.Stands root ρ Γ) (result : Ty) :
    { context.enter with returns := some result }.Stands false (some result) Γ.enter :=
  ⟨stands.enter.describes, rfl, stands.enter.isRoot, stands.enter.block⟩

/-- Declaring a name in the scopes declares it in the environment. -/
theorem insert (stands : context.Stands root ρ Γ) (notType : Ty.isTypeName name = false) :
    { context with scopes := context.scopes.insert name binding.symbol }.Stands root ρ
      (Γ.declare name binding) where
  describes := stands.describes.insert notType binding
  returns := stands.returns
  isRoot := (Scopes.isRoot_insert context.scopes name binding.symbol).trans stands.isRoot
  block := by
    intro inner other
    rw [Scopes.lookup_innermost_insert, Env.block_declare, stands.block inner]
    by_cases same : other = name <;> simp [same]

/-- A name that the root scope knows already is declared only in the environment. -/
theorem announce (stands : context.Stands true ρ Γ) (announced : Γ.outer name = some binding)
    (unseen : Γ.block name = none) : context.Stands true ρ (Γ.declare name binding) := by
  have same : (Γ.declare name binding).lookup = Γ.lookup := by
    funext other
    rw [Env.lookup_declare]
    split
    · next equal =>
        rw [equal, Env.lookup, unseen, announced]
        rfl
    · rfl
  refine ⟨⟨?_, ?_⟩, stands.returns, stands.isRoot, fun inner => Bool.noConfusion inner⟩
  · intro other
    rw [same, stands.describes.look_eq]
  · intro other isType
    rw [same, stands.describes.apart other isType]

end Context.Stands

theorem silent_define {context last : Context} {name : String} {symbol : Symbol}
    {position : Position} :
    Silent (context.define name symbol position) last ↔
      Ty.isTypeName name = false ∧ context.scopes.innermost.lookup name = none ∧
        last = { context with scopes := context.scopes.insert name symbol } := by
  unfold Context.define
  cases defined : context.scopes.define name symbol position with
  | ok scopes =>
      obtain ⟨notType, unseen, rfl⟩ := Scopes.define_eq_ok_iff.mp defined
      simp [notType, unseen, eq_comm]
  | error error =>
      have fails : ∀ error : Error, Silent (reportAll [error]) () ↔ False := by
        simp [reportAll, Silent]
      simp only [silent_bind, silent_pure]
      constructor
      · rintro ⟨_, silent, _⟩
        cases (fails error).mp silent
      · rintro ⟨notType, unseen, _⟩
        rw [Scopes.define_eq_ok_iff.mpr ⟨notType, unseen, rfl⟩] at defined
        cases defined

section Inner

variable {context last : Context} {ρ : Option Ty} {Γ : Env Binding}

theorem free_iff (stands : context.Stands false ρ Γ) {name : String} :
    Γ.Free name ↔
      Ty.isTypeName name = false ∧ context.scopes.innermost.lookup name = none := by
  rw [stands.block rfl, Option.map_eq_none_iff]
  rfl

theorem silent_parameter (stands : context.Stands false ρ Γ) {param : Parameter} :
    Silent (parameter context param) last ↔
      ∃ type, param.typeName.type? = some type ∧ Γ.Free param.name ∧
        last = { context with scopes :=
          context.scopes.insert param.name (Binding.value type true).symbol } := by
  simp only [parameter, silent_bind, silent_ofExcept, silent_define, free_iff stands,
    stands.describes.sane.typeOf_eq_ok_iff, Binding.symbol, and_assoc]

theorem declared_of_silent_parameters {parameters : List Parameter}
    (stands : context.Stands false ρ Γ)
    (silent : Silent (Check.parameters context parameters) last) :
    ∃ Γ', Parameter.Declared Γ parameters Γ' ∧ last.Stands false ρ Γ' := by
  induction parameters generalizing context Γ with
  | nil =>
      obtain rfl := silent_pure.mp silent
      exact ⟨Γ, .nil, stands⟩
  | cons first rest ih =>
      obtain ⟨next, silent, silent'⟩ := silent_bind.mp silent
      obtain ⟨type, known, free, rfl⟩ := (silent_parameter stands).mp silent
      obtain ⟨Γ', declared, stands'⟩ := ih (stands.insert free.1) silent'
      exact ⟨Γ', .cons known free declared, stands'⟩

theorem silent_parameters_of_declared {parameters : List Parameter} {Γ' : Env Binding}
    (stands : context.Stands false ρ Γ) (declared : Parameter.Declared Γ parameters Γ') :
    ∃ last, Silent (Check.parameters context parameters) last ∧ last.Stands false ρ Γ' := by
  induction declared generalizing context with
  | nil => exact ⟨context, silent_pure.mpr rfl, stands⟩
  | cons known free _ ih =>
      obtain ⟨last, silent, stands'⟩ := ih (stands.insert free.1)
      exact ⟨last, silent_bind.mpr
        ⟨_, (silent_parameter stands).mpr ⟨_, known, free, rfl⟩, silent⟩, stands'⟩

end Inner

section Parts

variable {context last : Context} {root : Bool} {ρ : Option Ty} {Γ : Env Binding}

theorem silent_condition (describes : Γ.Describes context.scopes.resolve?) {e : Expr}
    {found : Unit} :
    Silent (condition context e) found ↔ ∃ type, e.HasType Γ type ∧ type.kind = .bool := by
  simp only [condition, silent_bind, Expr.silent_check_iff describes, silent_requireSame]
  constructor
  · rintro ⟨_, ⟨type, rfl, typed⟩, same⟩
    exact ⟨type, typed, (same .bool rfl type rfl).symm⟩
  · rintro ⟨type, typed, isBool⟩
    refine ⟨_, ⟨type, rfl, typed⟩, ?_⟩
    rintro _ ⟨⟩ _ ⟨⟩
    exact isBool.symm

theorem silent_pattern (describes : Γ.Describes context.scopes.resolve?) {subject : Option Ty}
    {e : Expr} {found : Unit} :
    Silent (pattern context subject e) found ↔
      ∃ type, e.HasType Γ type ∧ ∀ wanted ∈ subject, wanted.kind = type.kind := by
  simp only [pattern, silent_bind, Expr.silent_check_iff describes, silent_requireSame]
  constructor
  · rintro ⟨_, ⟨type, rfl, typed⟩, same⟩
    exact ⟨type, typed, fun wanted given => same wanted given type rfl⟩
  · rintro ⟨type, typed, same⟩
    refine ⟨_, ⟨type, rfl, typed⟩, ?_⟩
    rintro wanted given _ ⟨⟩
    exact same wanted given

theorem silent_returns (stands : context.Stands root ρ Γ) {value : Option Expr} {found : Unit} :
    Silent (returns context value) found ↔
      ∃ type, Expr.HasType? Γ value type ∧
        ∀ result ∈ ρ, result.kind = (type.getD .void).kind := by
  cases value with
  | none =>
      simp only [returns, silent_requireSame, stands.returns]
      constructor
      · intro same
        exact ⟨none, .none, fun result given => same result given .void rfl⟩
      · rintro ⟨type, typed, same⟩ result given _ ⟨⟩
        cases typed
        exact same result given
  | some e =>
      simp only [returns, silent_bind, Expr.silent_check_iff stands.describes,
        silent_requireSame, stands.returns]
      constructor
      · rintro ⟨_, ⟨type, rfl, typed⟩, same⟩
        exact ⟨some type, .some typed, fun result given => same result given type rfl⟩
      · rintro ⟨_, typed, same⟩
        cases typed with
        | some typed =>
            refine ⟨_, ⟨_, rfl, typed⟩, ?_⟩
            rintro result given _ ⟨⟩
            exact same result given

end Parts

section Declarations

variable {context last : Context} {root : Bool} {ρ : Option Ty} {Γ : Env Binding}

theorem silent_variable {name : String} {type : Ty} {mutable : Bool} {position : Position} :
    Silent (context.define name (.variable (.concrete type) mutable) position) last ↔
      Ty.isTypeName name = false ∧ context.scopes.innermost.lookup name = none ∧
        last = { context with scopes :=
          context.scopes.insert name (Binding.value type mutable).symbol } :=
  silent_define

theorem silent_declaration (stands : context.Stands root ρ Γ) {decl : Variable} :
    Silent (declaration context decl) last ↔
      ∃ type, decl.Typed .plain Γ type ∧
        if root = true ∧ decl.isTyped = true then
          last = { context with anchor := decl.position }
        else
          Ty.isTypeName decl.name = false ∧ context.scopes.innermost.lookup decl.name = none ∧
            last = { context with
              scopes := context.scopes.insert decl.name
                (Binding.value type decl.mutable).symbol
              anchor := decl.position } := by
  unfold declaration declareVariable
  simp only [stands.isRoot, Bool.and_eq_true, Option.isNone_iff_eq_none]
  have founded_iff : ¬ (decl.typeName = none ∧ decl.value = none) ↔
      decl.typeName.isSome ∨ decl.value.isSome := by
    simp only [Option.isSome_iff_ne_none]
    exact not_and_or
  by_cases unfounded : decl.typeName = none ∧ decl.value = none
  · rw [if_pos unfounded, silent_fail, false_iff]
    rintro ⟨type, typed, _⟩
    exact founded_iff.mpr typed.founded unfounded
  · rw [if_neg unfounded]
    have founded := founded_iff.mp unfounded
    simp only [silent_bind, silent_ofExcept, stands.describes.sane.typeOf?_eq_ok_iff,
      @Expr.silent_check?_iff { context with anchor := decl.position } _ stands.describes,
        silent_requireSame]
    constructor
    · rintro ⟨_, ⟨known, rfl⟩, value, valued, _, agrees, silent⟩
      rw [Variable.annotated_or_resolved known] at agrees silent
      obtain ⟨type, isType⟩ := Variable.exists_stated_or founded known valued
      refine ⟨type, ⟨founded, known, value, valued, isType, agrees, trivial⟩, ?_⟩
      split
      · next typed =>
          rw [if_pos typed, silent_pure] at silent
          exact silent.symm
      · next untyped =>
          rw [if_neg untyped] at silent
          simp only [variableType, isType, silent_bind, silent_ofExcept, Except.ok.injEq,
            exists_eq_left', silent_variable] at silent
          exact silent
    · rintro ⟨type, ⟨_, known, value, valued, isType, agrees, _⟩, ends⟩
      refine ⟨_, ⟨known, rfl⟩, value, valued, (), ?_, ?_⟩
      · rw [Variable.annotated_or_resolved known]
        exact agrees
      · rw [Variable.annotated_or_resolved known]
        split
        · next typed =>
            rw [if_pos typed] at ends
            exact silent_pure.mpr ends.symm
        · next untyped =>
            rw [if_neg untyped] at ends
            simp only [variableType, isType, silent_bind, silent_ofExcept, Except.ok.injEq,
              exists_eq_left', silent_variable]
            exact ends

theorem silent_function (stands : context.Stands root ρ Γ) {header : FunctionHeader} :
    Silent (function context header) last ↔
      if root = true then last = { context with anchor := header.position }
      else ∃ parameters result, header.parameterTypes? = some parameters ∧
        header.resultType? = some result ∧ Ty.isTypeName header.name = false ∧
        context.scopes.innermost.lookup header.name = none ∧
        last = { context with
          scopes := context.scopes.insert header.name
            (Binding.function parameters result).symbol
          anchor := header.position } := by
  unfold function
  simp only [stands.isRoot]
  split
  · rw [silent_pure]
    exact eq_comm
  · simp only [silent_bind, silent_ofExcept, FunctionHeader.symbol_eq_ok_iff stands.describes,
      silent_define]
    constructor
    · rintro ⟨_, ⟨parameters, result, known, known', rfl⟩, notType, unseen, rfl⟩
      exact ⟨parameters, result, known, known', notType, unseen, rfl⟩
    · rintro ⟨parameters, result, known, known', notType, unseen, rfl⟩
      exact ⟨_, ⟨parameters, result, known, known', rfl⟩, notType, unseen, rfl⟩

theorem silent_functionBody (stands : context.Stands root ρ Γ) {header : FunctionHeader}
    {result : Ty} (known : header.resultType? = some result) :
    Silent (functionBody context header) last ↔
      Silent (parameters { context.enter with returns := some result } header.parameters)
        last := by
  simp only [functionBody, silent_bind, silent_ofExcept,
    FunctionHeader.returnType_eq_ok_iff stands.describes, known, Option.some.injEq,
    exists_eq_left']

end Declarations

end Check

end SmallLang
