import SmallLang.Proofs.Inference.Again
import SmallLang.Proofs.Scope.Scoping

/-!
# Inference without placeholders

Where the engine finds a known type behind every name that is used, and every function has its
result, inference adds no placeholder, whether it succeeds or fails.
-/

set_option autoImplicit false

namespace SmallLang

section Steps

variable {α β : Type} {engine : Engine}

/-- Whatever comes of a step, the table has no placeholder. Something holds of what it yields. -/
def Infer.Spares (work : Infer α) (engine : Engine) (holds : α → Engine → Prop) : Prop :=
  match work engine with
  | .ok value engine' => engine'.table = .empty ∧ holds value engine'
  | .error _ engine' => engine'.table = .empty

namespace Infer

theorem spares_pure {value : α} {holds : α → Engine → Prop} (empty : engine.table = .empty)
    (given : holds value engine) : Spares (pure value) engine holds :=
  ⟨empty, given⟩

theorem Spares.bind {first : Infer α} {second : α → Infer β} {middle : α → Engine → Prop}
    {holds : β → Engine → Prop} (before : Spares first engine middle)
    (after : ∀ value between, between.table = .empty → middle value between →
      Spares (second value) between holds) : Spares (first >>= second) engine holds := by
  change (match EStateM.bind first second engine with
    | .ok value engine' => engine'.table = .empty ∧ holds value engine'
    | .error _ engine' => engine'.table = .empty)
  unfold EStateM.bind
  unfold Spares at before
  cases ends : first engine with
  | ok value between =>
      rw [ends] at before
      exact after value between before.1 before.2
  | error error between =>
      rw [ends] at before
      exact before

theorem Spares.imp {work : Infer α} {holds holds' : α → Engine → Prop}
    (spares : Spares work engine holds)
    (weaker : ∀ value engine', holds value engine' → holds' value engine') :
    Spares work engine holds' := by
  unfold Spares at *
  cases ends : work engine with
  | ok value engine' =>
      rw [ends] at spares
      exact ⟨spares.1, weaker value engine' spares.2⟩
  | error error engine' =>
      rw [ends] at spares
      exact spares

theorem spares_fail {error : Error} {holds : α → Engine → Prop} (empty : engine.table = .empty) :
    Spares (fail error) engine holds :=
  empty

theorem spares_get_bind {second : Engine → Infer β} {holds : β → Engine → Prop}
    (spares : Spares (second engine) engine holds) : Spares (get >>= second) engine holds :=
  spares

theorem spares_update {step : Engine → Engine} (empty : (step engine).table = .empty) :
    Spares (update step) engine fun _ engine' => engine' = step engine :=
  ⟨empty, rfl⟩

theorem spares_ofExcept {result : Engine → Except Error α} (empty : engine.table = .empty) :
    Spares (ofExcept result) engine fun value engine' =>
      result engine = .ok value ∧ engine' = engine := by
  unfold Spares ofExcept
  cases found : result engine with
  | ok value => exact ⟨empty, rfl, rfl⟩
  | error error => exact empty

theorem spares_declaring {name : String} {work : Infer α} {holds : α → Engine → Prop}
    (spares : Spares work
      { engine with declaring := if engine.scopes.isRoot then some name else engine.declaring }
      fun value engine' => holds value { engine' with declaring := none }) :
    Spares (declaring name work) engine holds := by
  unfold Spares declaring
  dsimp only
  unfold Spares at spares
  cases ends : work { engine with
      declaring := if engine.scopes.isRoot then some name else engine.declaring } with
  | ok value engine' =>
      rw [ends] at spares
      exact spares
  | error error engine' =>
      rw [ends] at spares
      exact spares

end Infer

/-- A walk over a part of a program adds no placeholder, and something holds after it if it ends. -/
def Walk.Spares (walk : Walk α) (engine : Engine) (holds : Engine → Prop) : Prop :=
  (walk engine).engine.table = .empty ∧
    ∀ term, (walk engine).outcome = .ok term → holds (walk engine).engine

namespace Walk

variable {γ : Type}

theorem spares_after {work : Infer γ} {part : α} {walk : γ → Walk α} {holds : Engine → Prop}
    (spares : Infer.Spares work engine fun value between => Spares (walk value) between holds) :
    Spares (after work part walk) engine holds := by
  unfold Infer.Spares at spares
  unfold Spares after
  cases ends : work engine with
  | ok value between =>
      rw [ends] at spares
      exact spares.2
  | error error between =>
      rw [ends] at spares
      refine ⟨spares, ?_⟩
      intro _ same
      cases same

theorem spares_still {work : Infer Term} {part : α} {holds : Engine → Prop}
    (spares : Infer.Spares work engine fun _ engine' => holds engine') :
    Spares (still part work) engine holds := by
  apply spares_after
  unfold Infer.Spares at *
  cases ends : work engine with
  | ok value between =>
      rw [ends] at spares
      exact ⟨spares.1, spares.1, fun _ _ => spares.2⟩
  | error error between =>
      rw [ends] at spares
      exact spares

theorem Spares.map {walk : Walk α} {whole : α → β} {holds : Engine → Prop}
    (spares : Spares walk engine holds) : Spares (map walk whole) engine holds :=
  spares

theorem Spares.within {walk : Walk α} {whole : α → β} {holds : Engine → Prop}
    (spares : Spares walk engine holds) : Spares (within walk whole) engine holds := by
  refine ⟨spares.1, ?_⟩
  intro term ends
  change void (walk engine).outcome = .ok term at ends
  cases outcome : (walk engine).outcome with
  | error error =>
      rw [outcome] at ends
      cases ends
  | ok found => exact spares.2 found outcome

theorem Spares.both {first : Walk α} {part : β} {second : Walk β} {middle holds : Engine → Prop}
    (before : Spares first engine middle)
    (after : ∀ between, between.table = .empty → middle between → Spares second between holds) :
    Spares (both first part second) engine holds := by
  unfold Spares Walk.both
  cases outcome : (first engine).outcome with
  | error error =>
      simp only [outcome]
      refine ⟨before.1, ?_⟩
      intro _ same
      cases same
  | ok found =>
      simp only [outcome]
      exact after _ before.1 (before.2 found outcome)

end Walk

end Steps

/-- An engine finds a type behind every visible name. It waits for nothing, and has no
placeholder. -/
structure Engine.Sure (engine : Engine) (Γ : Env Unit) : Prop where
  sane : engine.scopes.Sane
  found : ∀ name, Γ.Sees name → ∃ symbol, engine.lookup? name = some symbol
  types : ∀ name symbol, engine.lookup? name = some symbol →
    ∀ term ∈ symbol.term?, term.IsType
  frames : ∀ frame ∈ engine.frames, ∀ term ∈ frame, term.IsType
  forward : engine.forward = []
  empty : engine.table = .empty

namespace Engine.Sure

variable {engine engine' : Engine} {Γ : Env Unit} {name : String}

theorem congr (sure : engine.Sure Γ) (scopes : engine'.scopes = engine.scopes)
    (known : engine'.known = engine.known) (frames : engine'.frames = engine.frames)
    (forward : engine'.forward = engine.forward) (table : engine'.table = engine.table) :
    engine'.Sure Γ where
  sane := scopes ▸ sure.sane
  found name sees := by
    rw [lookup?, scopes, known]
    exact sure.found name sees
  types name symbol found := by
    rw [lookup?, scopes, known] at found
    exact sure.types name symbol found
  frames := frames ▸ sure.frames
  forward := forward.trans sure.forward
  empty := table.trans sure.empty

theorem enter (sure : engine.Sure Γ) : engine.push.Sure Γ.enter where
  sane := sure.sane.push
  found name sees := by
    rw [lookup?, push, Scopes.resolve?_push]
    exact sure.found name (Env.sees_enter.mp sees)
  types name symbol found := by
    rw [lookup?, push, Scopes.resolve?_push] at found
    exact sure.types name symbol found
  frames := sure.frames
  forward := sure.forward
  empty := sure.empty

theorem enterFunction (sure : engine.Sure Γ) : engine.enter.Sure Γ.enter :=
  { sure.enter with
    frames := by
      intro frame present
      cases present with
      | head => exact fun _ none => nomatch none
      | tail _ outer => exact sure.frames frame outer }

theorem insert (sure : engine.Sure Γ) {symbol : Symbol} (notType : Ty.isTypeName name = false)
    {type : Ty} (typed : symbol.term? = some (.concrete type)) :
    { engine with scopes := engine.scopes.insert name symbol }.Sure (Γ.declare name ()) where
  sane := sure.sane.insert notType (by rintro _ rfl; cases typed)
  found other sees := by
    rw [lookup?, Scopes.resolve?_insert]
    by_cases same : other = name
    · exact ⟨symbol, by rw [if_pos same]; rfl⟩
    · rw [if_neg same]
      exact sure.found other ((Env.sees_declare.mp sees).resolve_left same)
  types other found looks := by
    rw [lookup?, Scopes.resolve?_insert] at looks
    by_cases same : other = name
    · rw [if_pos same] at looks
      cases looks
      rw [typed]
      intro term same
      cases same
      rfl
    · rw [if_neg same] at looks
      exact sure.types other found looks
  frames := sure.frames
  forward := sure.forward
  empty := sure.empty

theorem settleForward (sure : engine.Sure Γ) (name : String) (term : Term) :
    (engine.settleForward name term).Sure Γ := by
  rw [settleForward_of_nil sure.forward]
  exact sure

/-- What is known around a block holds again after it. -/
theorem leaveBlock (sure : engine.Sure Γ) {returned : List Term} {last : Env Unit}
    (grows : engine.push.Grows engine' returned) (inside : engine'.Sure last) :
    engine'.pop.Sure Γ where
  sane := grows.block.1 ▸ sure.sane
  found name sees := by
    rw [lookup?, grows.block.1, show engine'.pop.known = engine.known from grows.learns.known]
    exact sure.found name sees
  types name symbol found := by
    rw [lookup?, grows.block.1, show engine'.pop.known = engine.known from grows.learns.known]
      at found
    exact sure.types name symbol found
  frames := inside.frames
  forward := inside.forward
  empty := inside.empty

theorem returned (sure : engine.Sure Γ) : ∀ term ∈ engine.returned, term.IsType := by
  intro term present
  rw [Engine.returned] at present
  cases frames : engine.frames with
  | nil =>
      rw [frames] at present
      cases present
  | cons frame outer =>
      rw [frames] at present
      exact sure.frames frame (frames ▸ List.mem_cons_self) term present

theorem addReturn (sure : engine.Sure Γ) {term : Term} (isType : term.IsType) :
    (engine.addReturn term).Sure Γ := by
  rw [Engine.addReturn]
  cases frames : engine.frames with
  | nil => exact sure
  | cons frame outer =>
      refine { sure with frames := ?_ }
      intro other present
      cases present with
      | head =>
          intro returned given
          rcases List.mem_append.mp given with before | last
          · exact sure.frames frame (frames ▸ List.mem_cons_self) returned before
          · rw [List.mem_singleton.mp last]
            exact isType
      | tail _ present =>
          exact sure.frames other (frames ▸ List.mem_cons_of_mem _ present)

end Engine.Sure

section Expressions

variable {engine : Engine} {Γ : Env Unit}

theorem Term.isType_concrete (type : Ty) : (Term.concrete type).IsType := rfl

theorem Term.IsType.exists_type {term : Term} (isType : term.IsType) :
    ∃ type, term = .concrete type := by
  cases term with
  | concrete type => exact ⟨type, rfl⟩
  | pending placeholder => cases isType

/-- A step finds a type, and leaves the engine as it is, or fails. -/
def Infer.Decides (work : Infer Term) (engine : Engine) : Prop :=
  Infer.Spares work engine fun term engine' => term.IsType ∧ engine' = engine

namespace Infer

theorem Decides.bind {β : Type} {first : Infer Term} {second : Term → Infer β}
    {holds : β → Engine → Prop} (before : Decides first engine)
    (after : ∀ term, term.IsType → Spares (second term) engine holds) :
    Spares (first >>= second) engine holds := by
  apply Spares.bind before
  intro term between _ found
  rw [found.2]
  exact after term found.1

theorem decides_name (sure : engine.Sure Γ) {name : String} (sees : Γ.Sees name)
    (position : Position) : Decides (Infer.name name position) engine := by
  obtain ⟨symbol, found⟩ := sure.found name sees
  apply spares_get_bind
  rw [found]
  cases symbol with
  | builtin type => exact spares_fail sure.empty
  | function parameters result =>
      exact spares_pure sure.empty ⟨sure.types name _ found result rfl, rfl⟩
  | _ => exact spares_pure sure.empty ⟨sure.types name _ found _ rfl, rfl⟩

theorem decides_operation (empty : engine.table = .empty) (operator : BinaryOperator)
    {left right : Term} (isType : left.IsType) (isType' : right.IsType) (position : Position) :
    Decides (operation operator left right position) engine := by
  obtain ⟨first, rfl⟩ := isType.exists_type
  obtain ⟨second, rfl⟩ := isType'.exists_type
  simp only [operation]
  split
  · refine spares_pure empty ⟨?_, rfl⟩
    unfold BinaryOperator.result
    split <;> rfl
  · exact spares_fail empty

theorem constrain_of_isType {left right : Term} (isType : left.IsType) (isType' : right.IsType)
    (engine : Engine) : engine.constrain left right = engine := by
  obtain ⟨first, rfl⟩ := isType.exists_type
  obtain ⟨second, rfl⟩ := isType'.exists_type
  exact engine.constrain_concrete first second

theorem spares_constrain {left right : Term} (empty : engine.table = .empty)
    (isType : left.IsType) (isType' : right.IsType) :
    Spares (constrain left right) engine fun _ engine' => engine' = engine := by
  have same := constrain_of_isType isType isType' engine
  have spares : Spares (constrain left right) engine fun _ engine' =>
      engine' = engine.constrain left right :=
    spares_update (by rw [same]; exact empty)
  rw [same] at spares
  exact spares

theorem exists_types_of_isType : ∀ {terms : List Term}, (∀ term ∈ terms, term.IsType) →
    ∃ types : List Ty, terms = types.map .concrete
  | [], _ => ⟨[], rfl⟩
  | first :: rest, areTypes => by
      obtain ⟨isType, later⟩ := List.forall_mem_cons.mp areTypes
      obtain ⟨type, rfl⟩ := isType.exists_type
      obtain ⟨types, rfl⟩ := exists_types_of_isType later
      exact ⟨type :: types, rfl⟩

theorem decides_application (empty : engine.table = .empty) (parameters : List Ty)
    {result : Term} (isType : result.IsType) {arguments : List Term}
    (areTypes : ∀ term ∈ arguments, term.IsType) :
    Decides (application parameters result arguments) engine := by
  obtain ⟨types, rfl⟩ := exists_types_of_isType areTypes
  unfold application
  split
  · have same := Engine.constrainAll_concrete engine types parameters
    apply (spares_update (by rw [same]; exact empty)).bind
    intro _ between empty found
    exact spares_pure empty ⟨isType, found.trans same⟩
  · exact spares_pure empty ⟨isType, rfl⟩

end Infer

open Infer

theorem Expr.decides_member (sure : engine.Sure Γ) (object : Expr) (property : String)
    (sees : Γ.SeesAll (Expr.member object property).names) :
    Decides (Expr.member object property).infer engine := by
  cases object with
  | identifier space position => exact decides_name sure (sees _ List.mem_cons_self) position
  | _ => exact spares_get_bind (spares_fail sure.empty)

mutual

/-- The term of an expression is a type, if inference finds one. -/
theorem Expr.decides_infer (sure : engine.Sure Γ) : ∀ (e : Expr), Γ.SeesAll e.names →
    Decides e.infer engine
  | .identifier name position, sees => decides_name sure (sees name List.mem_cons_self) position
  | .member object property, sees => decides_member sure object property sees
  | .call callee arguments, sees => by
      obtain ⟨sees, sees'⟩ := Env.seesAll_append.mp sees
      apply (Expr.decides_inferAll sure arguments sees').bind
      intro terms between _ given
      rw [given.2]
      apply spares_get_bind
      split
      · next found =>
          obtain ⟨name, _, looks⟩ := Option.bind_eq_some_iff.mp found
          exact decides_application sure.empty _ (sure.types name _ looks _ rfl) given.1
      · exact Expr.decides_infer sure callee sees
  | .binary operator left right, sees => by
      obtain ⟨sees, sees'⟩ := Env.seesAll_append.mp sees
      apply (Expr.decides_infer sure left sees).bind
      intro first isType
      apply (Expr.decides_infer sure right sees').bind
      intro second isType'
      apply spares_get_bind
      exact decides_operation sure.empty operator isType isType' _
  | .prefixed .negate operand, sees => Expr.decides_infer sure operand sees
  | .prefixed .not operand, sees => by
      apply (Expr.decides_infer sure operand sees).bind
      intro term isType
      apply (spares_constrain sure.empty isType (Term.isType_concrete .bool)).bind
      intro _ between empty found
      exact spares_pure empty ⟨rfl, found⟩
  | .postfixed _ operand, sees => Expr.decides_infer sure operand sees
  | .number _, _ | .string _, _ | .boolean _, _ | .null, _ => spares_pure sure.empty ⟨rfl, rfl⟩

theorem Expr.decides_inferAll (sure : engine.Sure Γ) : ∀ (expressions : List Expr),
    Γ.SeesAll (Expr.allNames expressions) →
    Spares (Expr.inferAll expressions) engine fun terms engine' =>
      (∀ term ∈ terms, term.IsType) ∧ engine' = engine
  | [], _ => spares_pure sure.empty ⟨List.forall_mem_nil _, rfl⟩
  | first :: rest, sees => by
      obtain ⟨sees, sees'⟩ := Env.seesAll_append.mp sees
      apply (Expr.decides_infer sure first sees).bind
      intro term isType
      apply (Expr.decides_inferAll sure rest sees').bind
      intro terms between empty given
      exact spares_pure empty ⟨List.forall_mem_cons.mpr ⟨isType, given.1⟩, given.2⟩

end

end Expressions

end SmallLang
