import SmallLang.Proofs.Inference.Outcomes
import SmallLang.Proofs.Position.Blames
import SmallLang.Proofs.Position.Tree

/-!
# What inference is made of

A property of steps that the pieces of inference have, and that whole steps have where their parts
have it, holds of every step over a tree. Likewise for walks. What has to stand somewhere for a
piece to have the property is where an error is blamed.
-/

set_option autoImplicit false

namespace SmallLang

/-- Two engines that look the same to a step: they find the same behind names, declare the same, and
blame the same for want of a position. -/
structure Engine.Resembles (engine engine' : Engine) : Prop where
  lookup? : engine'.lookup? = engine.lookup?
  declaring : engine'.declaring = engine.declaring
  anchor : engine'.anchor = engine.anchor

theorem Engine.Resembles.positionOf {engine engine' : Engine} (same : engine.Resembles engine')
    (e : Expr) : engine'.positionOf e = engine.positionOf e := by
  rw [Engine.positionOf, same.anchor, Engine.positionOf]

theorem Expr.Placed.positionOf {place : Position → Prop} {e : Expr} (placed : e.Placed place)
    {engine : Engine} (anchor : place engine.anchor) : place (engine.positionOf e) := by
  unfold Engine.positionOf
  cases found : e.position? with
  | none => exact anchor
  | some position => exact placed.position position found

/-- A property of steps and one of walks, with a clause for each piece of inference. -/
structure Infer.Closed (place : Position → Prop) (steps : (α : Type) → Infer α → Prop)
    (walks : (α : Type) → Walk α → Prop) : Prop where
  pure {α : Type} (value : α) : steps α (Pure.pure value)
  fail {α : Type} {error : Error} : place error.position → steps α (fail error)
  bind {α β : Type} {first : Infer α} {second : α → Infer β} : steps α first →
    (∀ value, steps β (second value)) → steps β (first >>= second)
  look {α : Type} {next : Engine → Infer α} :
    (∀ engine engine' : Engine, engine.Resembles engine' → next engine' = next engine) →
    (∀ engine, place engine.anchor → steps α (next engine)) → steps α (get >>= next)
  ofScopes {α : Type} (result : Scopes → Except Error α) :
    (∀ scopes, Blames place (result scopes)) →
    steps α (ofExcept fun engine => result engine.scopes)
  fresh : steps Term fresh
  forward (name : String) {position : Position} : place position →
    steps Term (forward name position)
  constrainAll (pairs : List (Term × Term)) : steps Unit (update (·.constrainAll pairs))
  define (name : String) (symbol : Symbol) {position : Position} : place position →
    steps Unit (define name symbol position)
  settleForward (name : String) (term : Term) : steps Unit (update (·.settleForward name term))
  addReturn (term : Term) : steps Unit (update (·.addReturn term))
  anchor {position : Position} : place position →
    steps Unit (update ({ · with anchor := position }))
  declaring {α : Type} {work : Infer α} (name : String) : steps α work →
    steps α (declaring name work)
  after {α γ : Type} {work : Infer γ} {part : α} {walk : γ → Walk α} : steps γ work →
    (∀ value, walks α (walk value)) → walks α (.after work part walk)
  still {α : Type} {work : Infer Term} (part : α) : steps Term work → walks α (.still part work)
  map {α β : Type} {walk : Walk α} (whole : α → β) : walks α walk → walks β (walk.map whole)
  within {α β : Type} {walk : Walk α} (whole : α → β) : walks α walk → walks β (walk.within whole)
  both {α β : Type} {first : Walk α} {second : Walk β} (part : β) : walks α first →
    walks β second → walks (α × β) (first.both part second)
  inScope {α : Type} {walk : Walk α} : walks α walk → walks α walk.inScope
  body {header : FunctionHeader} {walk : Walk (List Stmt)} (body : List Stmt) :
    steps _ (function header) → steps Unit (parameters header.parameters) → walks _ walk →
    (∀ declared before terms, steps Term (conclusion header declared before terms)) →
    walks _ (header.walk body walk)

namespace Infer.Closed

variable {place : Position → Prop} {steps : (α : Type) → Infer α → Prop}
  {walks : (α : Type) → Walk α → Prop} (closed : Closed place steps walks)

include closed

/-! ### Expressions -/

theorem constrain (left right : Term) : steps Unit (constrain left right) :=
  closed.constrainAll [(left, right)]

theorem name (name : String) {position : Position} (stands : place position) :
    steps Term (Infer.name name position) := by
  refine closed.look (fun _ _ same => by rw [same.lookup?, same.declaring]) ?_
  intro engine _
  split
  · exact closed.pure _
  · exact closed.pure _
  · exact closed.fail stands
  · split
    · exact closed.fail stands
    · exact closed.forward name stands

theorem operation (operator : BinaryOperator) (left right : Term) {position : Position}
    (stands : place position) : steps Term (operation operator left right position) := by
  unfold Infer.operation
  split
  · split
    · exact closed.pure _
    · exact closed.fail stands
  · refine closed.bind (closed.constrain _ _) ?_
    intro _
    refine closed.bind closed.fresh ?_
    intro _
    refine closed.bind (closed.constrain _ _) ?_
    intro _
    exact closed.pure _

theorem application (parameters : List Ty) (result : Term) (arguments : List Term) :
    steps Term (application parameters result arguments) := by
  unfold Infer.application
  split
  · exact closed.bind (closed.constrainAll _) fun _ => closed.pure _
  · exact closed.pure _

mutual

/-- What every piece of inference has, inference has over every expression. -/
theorem infer : ∀ {e : Expr}, e.Placed place → steps Term e.infer
  | .identifier name _, placed => closed.name name placed
  | .member object property, placed => by
      have blames : steps Term
          (do Infer.fail ⟨.memberOfValue property, (← get).positionOf object⟩) :=
        closed.look (fun _ _ same => by rw [same.positionOf]) fun _ anchor =>
          closed.fail (Expr.Placed.positionOf (e := object) placed anchor)
      cases object with
      | identifier space position => exact closed.name _ placed
      | _ => exact blames
  | .call callee arguments, placed => by
      rw [Expr.infer]
      refine closed.bind (inferAll placed.2) ?_
      intro terms
      refine closed.look (fun _ _ same => by rw [same.lookup?]) ?_
      intro engine _
      split
      · exact closed.application _ _ terms
      · exact infer placed.1
  | .binary operator left right, placed => by
      rw [Expr.infer]
      refine closed.bind (infer placed.1) fun first => closed.bind (infer placed.2) ?_
      intro second
      exact closed.look (fun _ _ same => by rw [same.positionOf]) fun _ anchor =>
        closed.operation operator first second (placed.positionOf anchor)
  | .prefixed .negate operand, placed => infer (e := operand) placed
  | .prefixed .not operand, placed => by
      rw [Expr.infer]
      refine closed.bind (infer (e := operand) placed) ?_
      intro _
      refine closed.bind (closed.constrain _ _) ?_
      intro _
      exact closed.pure _
  | .postfixed _ operand, placed => infer (e := operand) placed
  | .number _, _ | .string _, _ | .boolean _, _ | .null, _ => closed.pure _

theorem inferAll : ∀ {expressions : List Expr}, Expr.AllPlaced place expressions →
    steps (List Term) (Expr.inferAll expressions)
  | [], _ => closed.pure _
  | _ :: _, placed => closed.bind (infer placed.1) fun _ =>
      closed.bind (inferAll placed.2) fun _ => closed.pure _

end

/-! ### Statements -/

theorem condition {e : Expr} (placed : e.Placed place) : steps Unit (condition e) :=
  closed.bind (closed.infer placed) fun _ => closed.constrain _ _

theorem pattern (subject : Option Term) {e : Expr} (placed : e.Placed place) :
    steps Unit (pattern subject e) := by
  refine closed.bind (closed.infer placed) ?_
  intro term
  cases subject with
  | none => exact closed.pure _
  | some subject => exact closed.constrain subject term

theorem value? {value : Option Expr} (placed : ∀ e ∈ value, e.Placed place) :
    steps (Option Term) (value? value) := by
  cases value with
  | none => exact closed.pure _
  | some e => exact closed.bind (closed.infer (placed e rfl)) fun _ => closed.pure _

theorem returns {value : Option Expr} (placed : ∀ e ∈ value, e.Placed place) :
    steps Term (returns value) :=
  closed.bind (closed.value? placed) fun _ =>
    closed.bind (closed.addReturn _) fun _ => closed.pure _

theorem parameter {param : Parameter} (placed : param.Placed place) :
    steps Term (parameter param) :=
  closed.bind (closed.ofScopes (·.typeOf param.typeName) fun scopes => scopes.blames_typeOf placed)
    fun _ => closed.bind (closed.define _ _ placed) fun _ => closed.pure _

theorem parameters : ∀ {params : List Parameter}, (∀ param ∈ params, param.Placed place) →
    steps Unit (parameters params)
  | [], _ => closed.pure _
  | _ :: _, placed => by
      obtain ⟨first, rest⟩ := List.forall_mem_cons.mp placed
      exact closed.bind (closed.parameter first) fun _ => parameters rest

theorem initial {decl : Variable} (placed : decl.Placed place) :
    steps (Option Term) (initial decl) := by
  refine closed.bind (closed.anchor placed.position) ?_
  intro _
  refine closed.bind (closed.ofScopes (·.typeOf? decl.typeName) fun scopes =>
    scopes.blames_typeOf? placed.typeName) ?_
  intro _
  exact closed.bind (closed.declaring _ (closed.value? placed.value)) fun _ => closed.pure _

theorem orFresh (known : Option Term) : steps Term (orFresh known) := by
  cases known with
  | none => exact closed.fresh
  | some term => exact closed.pure term

theorem declare {decl : Variable} (placed : decl.Placed place) (known : Option Term) :
    steps Term (declare decl known) :=
  closed.bind (closed.orFresh known) fun _ => closed.bind (closed.define _ _ placed.position)
    fun _ => closed.bind (closed.settleForward _ _) fun _ => closed.pure _

theorem function {header : FunctionHeader} (placed : header.Placed place) :
    steps (Option Ty × Term) (function header) := by
  have types : ∀ typeName ∈ header.parameters.map (·.typeName), place typeName.position :=
    List.forall_mem_map.mpr placed.parameters
  refine closed.bind (closed.anchor placed.position) ?_
  intro _
  refine closed.bind (closed.ofScopes (·.typesOf (header.parameters.map (·.typeName)))
    fun scopes => scopes.blames_typesOf types) ?_
  intro _
  refine closed.bind (closed.ofScopes (·.typeOf? header.returns) fun scopes =>
    scopes.blames_typeOf? placed.returns) ?_
  intro _
  refine closed.bind (closed.orFresh _) ?_
  intro _
  refine closed.bind (closed.define _ _ placed.position) ?_
  intro _
  exact closed.bind (closed.settleForward _ _) fun _ => closed.pure _

theorem commonReturn {header : FunctionHeader} (placed : header.Placed place)
    (terms : List Term) : steps Term (commonReturn header terms) := by
  unfold Infer.commonReturn
  split
  · exact closed.bind (closed.constrainAll _) fun _ => closed.pure _
  · split
    · exact closed.pure _
    · split
      · exact closed.pure _
      · exact closed.fail placed.position

theorem conclusion {header : FunctionHeader} (placed : header.Placed place) (declared : Option Ty)
    (before : Term) (terms : List Term) :
    steps Term (conclusion header declared before terms) := by
  have result : steps Term (result header declared terms) := by
    cases declared with
    | none => exact closed.commonReturn placed terms
    | some type => exact closed.pure _
  refine closed.bind result ?_
  intro after
  dsimp only
  split
  · exact closed.pure _
  · exact closed.bind (closed.constrain _ _) fun _ => closed.pure _

theorem declaration {decl : Variable} (placed : decl.Placed place) : walks Variable decl.walk :=
  closed.after (closed.initial placed) fun _ => closed.still _ (closed.declare placed _)

theorem prototype {header : FunctionHeader} (placed : header.Placed place) :
    walks FunctionHeader header.walkAlone :=
  closed.after (closed.function placed) fun _ => closed.still _ (closed.pure _)

mutual

/-- What every piece of inference has, inference has over every statement. -/
theorem walk : ∀ {s : Stmt}, s.Placed place → walks Stmt s.walk
  | .expr _, placed => closed.still _ (closed.infer placed)
  | .comment _, _ | .use _, _ => closed.still _ (closed.pure _)
  | .parameter _, placed => closed.still _ (closed.parameter placed)
  | .returns _, placed => closed.still _ (closed.returns placed)
  | .declare _, placed => closed.map _ (closed.declaration placed)
  | .function _ none, placed => by
      rw [Stmt.walk]
      exact closed.within _ (closed.prototype placed)
  | .function _ (some body), placed => by
      rw [Stmt.walk]
      exact closed.within _ <| closed.body body (closed.function placed.1)
        (closed.parameters placed.1.parameters) (walkAll placed.2) (closed.conclusion placed.1)
  | .branch .., placed => closed.after (closed.condition placed.1) fun _ =>
      closed.within _ (closed.both _ (closed.inScope (walkAll placed.2.1)) (alternate placed.2.2))
  | .loop .., placed => closed.after (closed.condition placed.1) fun _ =>
      closed.within _ (closed.inScope (walkAll placed.2))
  | .switch .., placed => closed.after (closed.infer placed.1) fun _ =>
      closed.within _ (arms placed.2 _)
  | .arm _, placed => closed.within _ (arm placed _)
  | .merged _, placed => closed.within _ (walkAll placed)

theorem alternate : ∀ {alternate : Alternate}, alternate.Placed place →
    walks Alternate alternate.walk
  | .none, _ => closed.still _ (closed.pure _)
  | .elseBranch .., placed => closed.after (closed.condition placed.1) fun _ =>
      closed.within _ (closed.both _ (closed.inScope (walkAll placed.2.1)) (alternate placed.2.2))
  | .otherwise _, placed => closed.within _ (closed.inScope (walkAll placed))

theorem arm : ∀ {arm : Arm}, arm.Placed place → ∀ subject, walks Arm (arm.walk subject)
  | .value .., placed, subject => closed.after (closed.pattern subject placed.1) fun _ =>
      closed.within _ (closed.inScope (walkAll placed.2))
  | .otherwise _, placed, _ => closed.within _ (closed.inScope (walkAll placed))

theorem walkAll : ∀ {body : List Stmt}, Stmt.AllPlaced place body →
    walks (List Stmt) (Stmt.walkAll body)
  | [], _ => closed.still _ (closed.pure _)
  | _ :: _, placed => closed.within _ (closed.both _ (walk placed.1) (walkAll placed.2))

theorem arms : ∀ {arms : List Arm}, Arm.AllPlaced place arms → ∀ subject,
    walks (List Arm) (Arm.walkAll subject arms)
  | [], _, _ => closed.still _ (closed.pure _)
  | _ :: _, placed, subject =>
      closed.within _ (closed.both _ (arm placed.1 subject) (arms placed.2 subject))

end

end Infer.Closed

/-- A step that is composed of pieces of inference only, so that it has what all of them have. -/
def Infer.Composed {α : Type} (work : Infer α) : Prop :=
  ∀ steps walks, Closed (fun _ => True) steps walks → steps α work

/-- A walk that is composed of pieces of inference only. -/
def Walk.Composed {α : Type} (walk : Walk α) : Prop :=
  ∀ steps walks, Infer.Closed (fun _ => True) steps walks → walks α walk

theorem Expr.composed_infer (e : Expr) : e.infer.Composed :=
  fun _ _ closed => closed.infer e.somewhere

theorem Expr.composed_inferAll (expressions : List Expr) : (Expr.inferAll expressions).Composed :=
  fun _ _ closed => closed.inferAll (Expr.allSomewhere expressions)

namespace Infer

theorem composed_operation (operator : BinaryOperator) (left right : Term) (position : Position) :
    (operation operator left right position).Composed :=
  fun _ _ closed => closed.operation operator left right trivial

theorem composed_application (parameters : List Ty) (result : Term) (arguments : List Term) :
    (application parameters result arguments).Composed :=
  fun _ _ closed => closed.application parameters result arguments

theorem composed_condition (e : Expr) : (condition e).Composed :=
  fun _ _ closed => closed.condition e.somewhere

theorem composed_pattern (subject : Option Term) (e : Expr) : (pattern subject e).Composed :=
  fun _ _ closed => closed.pattern subject e.somewhere

theorem composed_initial (decl : Variable) : (initial decl).Composed :=
  fun _ _ closed => closed.initial decl.somewhere

theorem composed_declare (decl : Variable) (known : Option Term) : (declare decl known).Composed :=
  fun _ _ closed => closed.declare decl.somewhere known

theorem composed_function (header : FunctionHeader) : (function header).Composed :=
  fun _ _ closed => closed.function header.somewhere

theorem composed_parameters (params : List Parameter) : (parameters params).Composed :=
  fun _ _ closed => closed.parameters fun param _ => param.somewhere

theorem composed_conclusion (header : FunctionHeader) (declared : Option Ty) (before : Term)
    (terms : List Term) : (conclusion header declared before terms).Composed :=
  fun _ _ closed => closed.conclusion header.somewhere declared before terms

end Infer

theorem Stmt.composed_walk (s : Stmt) : s.walk.Composed :=
  fun _ _ closed => closed.walk s.somewhere

theorem Alternate.composed_walk (alternate : Alternate) : alternate.walk.Composed :=
  fun _ _ closed => closed.alternate alternate.somewhere

theorem Arm.composed_walk (arm : Arm) (subject : Option Term) : (arm.walk subject).Composed :=
  fun _ _ closed => closed.arm arm.somewhere subject

theorem Stmt.composed_walkAll (body : List Stmt) : (Stmt.walkAll body).Composed :=
  fun _ _ closed => closed.walkAll (Stmt.allSomewhere body)

theorem Arm.composed_walkAll (arms : List Arm) (subject : Option Term) :
    (Arm.walkAll subject arms).Composed :=
  fun _ _ closed => closed.arms (Arm.allSomewhere arms) subject

end SmallLang
