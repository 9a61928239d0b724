import SmallLang.Proofs.Inference.Noted
import SmallLang.Proofs.Parse.Shape
import SmallLang.Proofs.Typing.Returned
import SmallLang.Proofs.Typing.Stmt

/-!
# Inference where every name has its type

Where the engine knows the type of every visible name, a typed expression gets its type at
once: no placeholder is added, and no constraint. A walk then writes into each declaration the
type of its annotation or value, and into each function the one that is written or that of its
first return.
-/

set_option autoImplicit false

namespace SmallLang

open Infer Walk

/-- No other type is of the kind of truth values. -/
theorem Ty.eq_bool_of_kind {type : Ty} (isBool : type.kind = .bool) : type = .bool := by
  cases type <;> first | rfl | cases isBool

section Expressions

variable {engine : Engine} {Γ : Env Binding}

theorem Engine.constrain_concrete (engine : Engine) (left right : Ty) :
    engine.constrain (.concrete left) (.concrete right) = engine := rfl

theorem Engine.constrainAll_concrete (engine : Engine) (types parameters : List Ty) :
    engine.constrainAll ((types.map Term.concrete).zip (parameters.map .concrete)) = engine := by
  induction types generalizing parameters with
  | nil => rfl
  | cons type types ih =>
      cases parameters with
      | nil => rfl
      | cons parameter parameters => exact ih parameters

theorem Infer.yields_name_of_lookup (describes : Γ.Describes engine.lookup?) {name : String}
    {binding : Binding} (inScope : Γ.lookup name = some binding) (position : Position) :
    Yields (Infer.name name position) engine (.concrete binding.type) engine := by
  refine yields_name.mpr (.inl ⟨binding.symbol, describes.look_of_lookup inScope, ?_, rfl⟩)
  cases binding <;> rfl

theorem Infer.yields_operation_of_types {operator : BinaryOperator} {left right : Ty}
    (agree : operator = .divide ∨ left.kind = right.kind) (position : Position) :
    Yields (operation operator (.concrete left) (.concrete right) position) engine
      (operator.result (.concrete left)) engine := by
  have allowed : operator = .divide ∨ left.sameKind right := agree.imp_right Ty.sameKind_iff.mpr
  simp only [operation, if_pos allowed, yields_pure, and_self]

theorem Infer.yields_application_of_types {parameters types : List Ty} {result : Ty}
    (counts : parameters.length = types.length) :
    Yields (application parameters (.concrete result) (types.map .concrete)) engine
      (.concrete result) engine := by
  unfold application
  rw [if_pos (by rw [List.length_map, counts])]
  simp only [yields_bind, yields_update, yields_pure, Engine.constrainAll_concrete]
  exact ⟨(), engine, rfl, trivial, rfl⟩

theorem Expr.yields_symbol (describes : Γ.Describes engine.lookup?) {e : Expr} {name : String}
    {binding : Binding} (symbol : e.symbol? = some name)
    (inScope : Γ.lookup name = some binding) :
    Yields e.infer engine (.concrete binding.type) engine := by
  cases e with
  | identifier _ position =>
      obtain rfl := Option.some.inj symbol
      exact yields_name_of_lookup describes inScope position
  | member object property =>
      cases object with
      | identifier space position =>
          obtain rfl := Option.some.inj symbol
          exact yields_name_of_lookup describes inScope position
      | _ => cases symbol
  | _ => cases symbol

theorem Expr.yields_binary (operator : BinaryOperator) {left right : Expr} {first second : Ty}
    (yields : Yields left.infer engine (.concrete first) engine)
    (yields' : Yields right.infer engine (.concrete second) engine)
    (agree : operator = .divide ∨ first.kind = second.kind) :
    Yields (Expr.binary operator left right).infer engine (operator.result (.concrete first))
      engine := by
  simp only [Expr.infer, yields_bind, yields_get]
  exact ⟨_, engine, yields, _, engine, yields', engine, engine, ⟨rfl, rfl⟩,
    yields_operation_of_types agree _⟩

mutual

/-- A typed expression gets its type, and nothing else happens. -/
theorem Expr.HasType.yields (describes : Γ.Describes engine.lookup?) :
    ∀ {e : Expr} {type : Ty}, e.HasType Γ type →
      Yields e.infer engine (.concrete type) engine
  | _, _, .symbol symbol inScope => yields_symbol describes symbol inScope
  | .call callee arguments, _, .call symbol inScope typed fits => by
      have known := describes.look_of_lookup inScope
      simp only [Expr.infer, yields_bind, yields_get]
      refine ⟨_, engine, Expr.HaveTypes.yields describes typed, engine, engine, ⟨rfl, rfl⟩, ?_⟩
      rw [symbol, Option.bind_some, known]
      exact yields_application_of_types fits.length_eq
  | .binary operator _ _, _, .arithmetic arithmetic notDivide typed typed' _ same => by
      have yields := yields_binary operator (Expr.HasType.yields describes typed)
        (Expr.HasType.yields describes typed') (.inr same)
      rw [BinaryOperator.result,
        BinaryOperator.fixedResult?_of_isArithmetic arithmetic notDivide] at yields
      exact yields
  | _, _, .divide typed typed' _ _ =>
      yields_binary .divide (Expr.HasType.yields describes typed)
        (Expr.HasType.yields describes typed') (.inl rfl)
  | .binary operator _ _, _, .comparison comparison typed typed' same _ => by
      have yields := yields_binary operator (Expr.HasType.yields describes typed)
        (Expr.HasType.yields describes typed') (.inr same)
      rw [BinaryOperator.result,
        BinaryOperator.fixedResult?_of_isComparison comparison] at yields
      exact yields
  | .binary operator _ _, _, .connective logical typed typed' isBool isBool' => by
      have yields := yields_binary operator (Expr.HasType.yields describes typed)
        (Expr.HasType.yields describes typed') (.inr (isBool.trans isBool'.symm))
      rw [BinaryOperator.result, BinaryOperator.fixedResult?_of_isLogical logical] at yields
      exact yields
  | .prefixed .negate operand, type, .negate typed _ => by
      have yields : Yields operand.infer engine (.concrete type) engine :=
        Expr.HasType.yields describes typed
      exact yields
  | .prefixed .not operand, _, .not typed isBool => by
      simp only [Expr.infer, yields_bind, yields_constrain, yields_pure]
      exact ⟨_, engine, Expr.HasType.yields describes typed, (), engine, rfl,
        congrArg Term.concrete (Ty.eq_bool_of_kind isBool), rfl⟩
  | _, _, .step inScope _ _ => yields_name_of_lookup describes inScope _
  | _, _, .number text => yields_pure.mpr ⟨rfl, rfl⟩
  | _, _, .string value => yields_pure.mpr ⟨rfl, rfl⟩
  | _, _, .boolean value => yields_pure.mpr ⟨rfl, rfl⟩
  | _, _, .null => yields_pure.mpr ⟨rfl, rfl⟩

theorem Expr.HaveTypes.yields (describes : Γ.Describes engine.lookup?) :
    ∀ {expressions : List Expr} {types : List Ty}, Expr.HaveTypes Γ expressions types →
      Yields (Expr.inferAll expressions) engine (types.map .concrete) engine
  | _, _, .nil => yields_pure.mpr ⟨rfl, rfl⟩
  | _, _, .cons typed typedRest => by
      simp only [Expr.inferAll, yields_bind, yields_pure]
      exact ⟨_, engine, Expr.HasType.yields describes typed, _, engine,
        Expr.HaveTypes.yields describes typedRest, rfl, rfl⟩

end

end Expressions

/-- An engine reads an environment: it knows the type of every visible name, and waits for
none. -/
structure Engine.Reads (engine : Engine) (Γ : Env Binding) : Prop where
  describes : Γ.Describes engine.lookup?
  sane : engine.scopes.Sane
  block : ∀ name, Ty.isTypeName name = false →
    engine.scopes.innermost.lookup name = (Γ.block name).map Binding.symbol
  forward : engine.forward = []

namespace Engine

variable {engine engine' : Engine} {Γ Γ' : Env Binding} {name : String}

theorem settleForward_of_nil (none : engine.forward = []) (name : String) (term : Term) :
    engine.settleForward name term = engine := by
  unfold settleForward
  rw [none]
  split <;> rfl

namespace Reads

theorem congr (reads : engine.Reads Γ) (scopes : engine'.scopes = engine.scopes)
    (known : engine'.known = engine.known) (forward : engine'.forward = engine.forward) :
    engine'.Reads Γ where
  describes := by
    have same : engine'.lookup? = engine.lookup? := by
      funext name
      rw [lookup?, scopes, known]
      rfl
    rw [same]
    exact reads.describes
  sane := scopes ▸ reads.sane
  block := scopes ▸ reads.block
  forward := forward.trans reads.forward

theorem enter (reads : engine.Reads Γ) : engine.push.Reads Γ.enter where
  describes := {
    look_eq := by
      intro name
      rw [Env.lookup_enter, ← reads.describes.look_eq]
      exact congrArg (Option.or · _) (Scopes.resolve?_push engine.scopes name)
    apart := by
      intro name isType
      rw [Env.lookup_enter]
      exact reads.describes.apart name isType }
  sane := reads.sane.push
  block := fun _ _ => rfl
  forward := reads.forward

theorem insert (reads : engine.Reads Γ) (notType : Ty.isTypeName name = false)
    (binding : Binding) :
    { engine with scopes := engine.scopes.insert name binding.symbol }.Reads
      (Γ.declare name binding) where
  describes := by
    refine reads.describes.declare notType binding ?_
    intro other
    rw [lookup?, Scopes.resolve?_insert]
    split <;> rfl
  sane := reads.sane.insert notType (by cases binding <;> exact fun _ => nofun)
  block := by
    intro other other'
    rw [Scopes.lookup_innermost_insert, Env.block_declare, reads.block other other']
    split <;> rfl
  forward := reads.forward

theorem new (reads : engine.Reads Γ) (free : Γ.Free name) :
    engine.scopes.innermost.lookup name = none := by
  rw [reads.block name free.1, free.2]
  rfl

/-- After a block, an engine reads the environment before it. -/
theorem leaveBlock (reads : engine.Reads Γ) {returned : List Term}
    (grows : engine.push.Grows engine' returned) (inside : engine'.Reads Γ') :
    engine'.pop.Reads Γ :=
  reads.congr grows.block.1 grows.learns.known (inside.forward.trans reads.forward.symm)

end Reads

end Engine

section Declarations

variable {engine : Engine} {Γ Γ' : Env Binding}

theorem Expr.HasType?.yields (describes : Γ.Describes engine.lookup?) {value : Option Expr}
    {found : Option Ty} (typed : HasType? Γ value found) :
    Yields (value? value) engine (found.map .concrete) engine := by
  cases typed with
  | none => exact yields_value?_none.mpr ⟨rfl, rfl⟩
  | some typed => exact yields_value?_some.mpr ⟨_, typed.yields describes, rfl⟩

theorem Infer.yields_condition_of_typed (describes : Γ.Describes engine.lookup?) {e : Expr}
    {type : Ty} (typed : e.HasType Γ type) : Yields (condition e) engine () engine :=
  yields_condition.mpr ⟨_, engine, typed.yields describes, rfl⟩

theorem Infer.yields_pattern_of_typed (describes : Γ.Describes engine.lookup?) {e : Expr}
    {type : Ty} (typed : e.HasType Γ type) (subject : Option Ty) :
    Yields (pattern (subject.map .concrete) e) engine () engine := by
  simp only [pattern, yields_bind]
  refine ⟨_, engine, typed.yields describes, ?_⟩
  cases subject with
  | none => exact yields_pure.mpr ⟨rfl, rfl⟩
  | some subject => exact yields_constrain.mpr rfl

/-- A typed variable is declared with the type of its annotation, or else of its value. -/
theorem Variable.ends_walk_of_typed {decl : Variable} {value : Option Ty} {type : Ty}
    (reads : engine.Reads Γ) (known : ∀ typeName ∈ decl.typeName, typeName.type?.isSome)
    (valued : Expr.HasType? Γ decl.value value)
    (follows : (decl.typeName.bind TypeName.type?).or value = some type)
    (free : Γ.Free decl.name) :
    ∃ engine', decl.walk.Ends engine { decl with resolved := some (.concrete type) } engine' ∧
      engine'.Reads (Γ.declare decl.name (.value type decl.mutable)) := by
  have follows' : ((decl.typeName.bind TypeName.type?).map Term.concrete).or
      (value.map .concrete) = some (.concrete type) := by
    rw [← Option.map_or, follows]
    rfl
  let between : Engine := { engine with anchor := decl.position, declaring := none }
  let after := between.scopes.insert decl.name (.variable (.concrete type) decl.mutable)
  have anchored : between.Reads Γ := reads.congr rfl rfl rfl
  have declared := anchored.insert free.1 (.value type decl.mutable)
  refine ⟨{ between with scopes := after }, ?_, declared⟩
  refine Variable.ends_walk.mpr ⟨some (.concrete type), between, .concrete type, ?_, ?_, rfl⟩
  · let within : Engine := { engine with
      anchor := decl.position
      declaring := if engine.scopes.isRoot then some decl.name else engine.declaring }
    have reads' : within.Reads Γ := reads.congr rfl rfl rfl
    exact yields_initial.mpr ⟨_, _, within, reads.sane.typeOf?_eq_ok_iff.mpr ⟨known, rfl⟩,
      valued.yields reads'.describes, rfl, follows'.symm⟩
  · refine yields_declare.mpr ⟨between, yields_pure.mpr ⟨rfl, rfl⟩, free.1, anchored.new free,
      ?_⟩
    exact (Engine.settleForward_of_nil declared.forward _ _).symm

theorem Infer.yields_parameters_of_declared {parameters : List Parameter} :
    ∀ {engine : Engine} {Γ : Env Binding}, engine.Reads Γ → Parameter.Declared Γ parameters Γ' →
      ∃ start, Yields (Infer.parameters parameters) engine () start ∧ start.Reads Γ' := by
  induction parameters with
  | nil =>
      rintro engine Γ reads ⟨⟩
      exact ⟨engine, yields_pure.mpr ⟨rfl, rfl⟩, reads⟩
  | cons first rest ih =>
      intro engine Γ reads declared
      cases declared with
      | @cons _ _ _ _ type isType free declared =>
          obtain ⟨start, yields, reads'⟩ := ih (reads.insert free.1 (.value type true)) declared
          refine ⟨start, yields_bind.mpr ⟨.concrete type, _, yields_parameter.mpr ?_, yields⟩,
            reads'⟩
          exact ⟨_, reads.sane.typeOf_eq_ok_iff.mpr isType, free.1, reads.new free, rfl, rfl⟩

/-- A function is declared with the result that is known before its body. -/
theorem Infer.yields_function_of_known {header : FunctionHeader} {parameters : List Ty}
    {result : Ty} (reads : engine.Reads Γ) (known : header.parameterTypes? = some parameters)
    (written : ∀ typeName ∈ header.returns, typeName.type?.isSome)
    (begins : knownResult header (header.returns.bind TypeName.type?) = some (.concrete result))
    (free : Γ.Free header.name) :
    ∃ inner, Yields (Infer.function header) engine
        (header.returns.bind TypeName.type?, .concrete result) inner ∧
      inner.Reads (Γ.declare header.name (.function parameters result)) := by
  let between : Engine := { engine with anchor := header.position }
  have anchored : between.Reads Γ := reads.congr rfl rfl rfl
  have declared := anchored.insert free.1 (.function parameters result)
  refine ⟨_, yields_function.mpr ⟨parameters, between, ?_, ?_, ?_, free.1, anchored.new free,
    (Engine.settleForward_of_nil declared.forward _ _).symm⟩, declared⟩
  · exact reads.sane.typesOf_eq_ok_iff.mpr known
  · exact reads.sane.typeOf?_eq_ok_iff.mpr ⟨written, rfl⟩
  · rw [begins]
    exact yields_pure.mpr ⟨rfl, rfl⟩

theorem FunctionHeader.returns_known {header : FunctionHeader} {result : Ty}
    (known : header.resultType? = some result) :
    ∀ typeName ∈ header.returns, typeName.type?.isSome := by
  intro typeName written
  unfold FunctionHeader.resultType? at known
  rw [written] at known
  simp only at known
  simp [known]

/-- A function with a body starts from the result that its declaration states. -/
theorem FunctionHeader.knownResult_eq {header : FunctionHeader} {result : Ty}
    (internal : header.isExternal = false) (known : header.resultType? = some result) :
    knownResult header (header.returns.bind TypeName.type?) = some (.concrete result) := by
  unfold FunctionHeader.resultType? at known
  cases written : header.returns with
  | some typeName =>
      rw [written] at known
      simp only at known
      simp [knownResult, known]
  | none =>
      rw [written, internal] at known
      simp only [Bool.false_eq_true, if_false, Option.or_none] at known
      simp [knownResult, internal, known]

theorem Infer.yields_conclusion_of_types {header : FunctionHeader} {types : List Ty}
    {before : Ty} (same : ∀ type ∈ types, before.kind = type.kind) (declared : Option Ty) :
    Yields (conclusion header declared (.concrete before) (types.map .concrete)) engine
      (.concrete (declared.getD (types.headD .void))) engine := by
  refine yields_conclusion.mpr ⟨.concrete (declared.getD (types.headD .void)), engine, ?_, rfl, ?_⟩
  · cases declared with
    | some type => exact yields_pure.mpr ⟨rfl, rfl⟩
    | none =>
        refine yields_commonReturn_of_types.mpr ⟨rfl, rfl, ?_⟩
        intro type present
        cases types with
        | nil => cases present
        | cons first rest =>
            exact (same first List.mem_cons_self).symm.trans (same type present)
  · split <;> rfl

end Declarations

end SmallLang
