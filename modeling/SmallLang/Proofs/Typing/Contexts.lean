import SmallLang.Proofs.Typing.Stmt

/-!
# Contexts of a check

Wherever a check gets to, also after complaints, its scopes hold nothing but known types. So
there is an environment that describes them, and the check of an expression ends without a
type only after a complaint.
-/

set_option autoImplicit false

namespace SmallLang

namespace Check

variable {α β : Type}

/-- Whatever a check finds, with complaints or without, has a property. -/
def Ensures (check : Check α) (property : α → Prop) : Prop :=
  ∀ found : Checked α, @Eq (Except Error (Checked α)) check (.ok found) → property found.value

theorem ensures_pure {value : α} {property : α → Prop} (holds : property value) :
    Ensures (pure value) property := by
  rintro _ ⟨⟩
  exact holds

theorem Ensures.bind {first : Check α} {second : α → Check β} {middle : α → Prop}
    {property : β → Prop} (before : Ensures first middle)
    (after : ∀ value, middle value → Ensures (second value) property) :
    Ensures (first >>= second) property := by
  intro found ends
  change andThen first second = _ at ends
  cases begins : first with
  | error error =>
      rw [begins] at ends
      cases ends
  | ok next =>
      rw [begins] at ends
      simp only [andThen] at ends
      cases continues : second next.value with
      | error error =>
          rw [continues] at ends
          cases ends
      | ok last =>
          rw [continues] at ends
          cases ends
          exact after next.value (before next begins) last continues

theorem ensures_bind {first : Check α} {second : α → Check β} {property : β → Prop}
    (after : ∀ value, Ensures (second value) property) : Ensures (first >>= second) property :=
  @Ensures.bind α β first second (fun _ => True) property (fun _ _ => trivial)
    fun value _ => after value

theorem ensures_fail {error : Error} {property : α → Prop} :
    Ensures (fail error : Check α) property := nofun

theorem ensures_ofExcept {result : Except Error α} :
    Ensures (ofExcept result) fun value => result = .ok value := by
  intro found ends
  cases result with
  | error => cases ends
  | ok value =>
      cases ends
      rfl

namespace Context

/-- A context whose scopes know only types, and variables and functions of known types. -/
def Settled (context : Context) : Prop := ∃ Γ : Env Binding, Γ.Describes context.scopes.resolve?

variable {context : Context}

theorem Settled.enter (settled : context.Settled) : context.enter.Settled := by
  obtain ⟨Γ, describes⟩ := settled
  exact ⟨Γ.enter, describes.enter⟩

theorem Settled.define (settled : context.Settled) (name : String) (binding : Binding)
    (position : Position) :
    Ensures (context.define name binding.symbol position) Settled := by
  obtain ⟨Γ, describes⟩ := settled
  unfold Context.define
  cases defined : context.scopes.define name binding.symbol position with
  | error error => exact ensures_bind fun _ => ensures_pure ⟨Γ, describes⟩
  | ok scopes =>
      obtain ⟨notType, _, rfl⟩ := Scopes.define_eq_ok_iff.mp defined
      exact ensures_pure ⟨Γ.declare name binding, describes.insert notType binding⟩

end Context

theorem parameter_settled {context : Context} (settled : context.Settled) (param : Parameter) :
    Ensures (parameter context param) Context.Settled :=
  ensures_bind fun type => settled.define param.name (.value type true) _

theorem parameters_settled {parameters : List Parameter} :
    ∀ {context : Context}, context.Settled →
      Ensures (Check.parameters context parameters) Context.Settled := by
  induction parameters with
  | nil => exact fun settled => ensures_pure settled
  | cons first rest ih =>
      exact fun settled => (parameter_settled settled first).bind fun _ settled' => ih settled'

theorem define_function_settled {context : Context} (settled : context.Settled)
    (header : FunctionHeader) :
    Ensures (do
      let symbol ← ofExcept (header.symbol context.scopes)
      context.define header.name symbol header.position) Context.Settled := by
  obtain ⟨Γ, describes⟩ := settled
  refine ensures_ofExcept.bind ?_
  intro symbol found
  obtain ⟨parameters, result, _, _, rfl⟩ :=
    (FunctionHeader.symbol_eq_ok_iff describes).mp found
  exact Context.Settled.define ⟨Γ, describes⟩ _ _ _

theorem function_settled {context : Context} (settled : context.Settled)
    (header : FunctionHeader) : Ensures (function context header) Context.Settled := by
  have anchored : { context with anchor := header.position }.Settled := settled
  unfold function
  simp only
  split
  · exact ensures_pure anchored
  · exact define_function_settled anchored header

theorem functionBody_settled {context : Context} (settled : context.Settled)
    (header : FunctionHeader) : Ensures (functionBody context header) Context.Settled :=
  ensures_bind fun result => parameters_settled
    (show { context.enter with returns := some result }.Settled from settled.enter)

theorem declaration_settled {context : Context} (settled : context.Settled)
    (decl : Variable) : Ensures (declaration context decl) Context.Settled := by
  have anchored : { context with anchor := decl.position }.Settled := settled
  unfold declaration
  simp only
  split
  · exact ensures_fail
  · refine ensures_bind fun annotated => ensures_bind fun value => ensures_bind ?_
    intro _
    unfold declareVariable
    split
    · exact ensures_pure anchored
    · exact ensures_bind fun type => anchored.define decl.name (.value type decl.mutable) _

end Check

open Check

mutual

theorem Stmt.check_settled : ∀ (s : Stmt) {context : Context}, context.Settled →
    Ensures (s.check context) Context.Settled
  | .expr _, _, settled => ensures_bind fun _ => ensures_pure settled
  | .comment _, _, settled | .use _, _, settled => ensures_pure settled
  | .parameter param, _, settled => parameter_settled settled param
  | .returns _, _, settled => ensures_bind fun _ => ensures_pure settled
  | .declare decl, _, settled => declaration_settled settled decl
  | .function header none, _, settled => function_settled settled header
  | .function header (some _), _, settled =>
      (function_settled settled header).bind fun _ settled' =>
        ensures_bind fun _ => ensures_bind fun _ => ensures_pure settled'
  | .branch _ _ alternate, context, settled =>
      ensures_bind fun _ => ensures_bind fun last =>
        @Alternate.check_settled alternate (context.leave last) settled
  | .loop _ _, _, settled => ensures_bind fun _ => ensures_bind fun _ => ensures_pure settled
  | .switch _ arms, _, settled => ensures_bind fun subject =>
      Arm.checkAll_settled subject arms settled
  | .arm single, _, settled => Arm.check_settled none single settled
  | .merged body, _, settled => Stmt.checkAll_settled body settled

theorem Alternate.check_settled : ∀ (alternate : Alternate) {context : Context},
    context.Settled → Ensures (alternate.check context) Context.Settled
  | .none, _, settled => ensures_pure settled
  | .elseBranch _ _ alternate, context, settled =>
      ensures_bind fun _ => ensures_bind fun last =>
        @Alternate.check_settled alternate (context.leave last) settled
  | .otherwise _, _, settled => ensures_bind fun _ => ensures_pure settled

theorem Arm.check_settled (subject : Option Ty) : ∀ (arm : Arm) {context : Context},
    context.Settled → Ensures (arm.check context subject) Context.Settled
  | .value _ _, _, settled => ensures_bind fun _ => ensures_bind fun _ => ensures_pure settled
  | .otherwise _, _, settled => ensures_bind fun _ => ensures_pure settled

theorem Stmt.checkAll_settled : ∀ (body : List Stmt) {context : Context}, context.Settled →
    Ensures (Stmt.checkAll context body) Context.Settled
  | [], _, settled => ensures_pure settled
  | first :: rest, _, settled =>
      (Stmt.check_settled first settled).bind fun _ settled' =>
        Stmt.checkAll_settled rest settled'

theorem Arm.checkAll_settled (subject : Option Ty) : ∀ (arms : List Arm) {context : Context},
    context.Settled → Ensures (Arm.checkAll context subject arms) Context.Settled
  | [], _, settled => ensures_pure settled
  | first :: rest, _, settled =>
      (Arm.check_settled subject first settled).bind fun _ settled' =>
        Arm.checkAll_settled subject rest settled'

end

mutual

theorem Stmt.hoist_settled : ∀ (s : Stmt) {context : Context}, context.Settled →
    Ensures (s.hoist context) Context.Settled
  | .function header _, _, settled => define_function_settled settled header
  | .declare decl, _, settled => by
      unfold Stmt.hoist
      split
      · exact ensures_bind fun type => settled.define decl.name (.value type decl.mutable) _
      · exact ensures_pure settled
  | .merged body, _, settled => Stmt.hoistAll_settled body settled
  | .expr _, _, settled | .comment _, _, settled | .use _, _, settled
  | .parameter _, _, settled | .returns _, _, settled | .branch .., _, settled
  | .loop .., _, settled | .switch .., _, settled | .arm _, _, settled => ensures_pure settled

theorem Stmt.hoistAll_settled : ∀ (body : List Stmt) {context : Context}, context.Settled →
    Ensures (Stmt.hoistAll context body) Context.Settled
  | [], _, settled => ensures_pure settled
  | first :: rest, _, settled =>
      (Stmt.hoist_settled first settled).bind fun _ settled' =>
        Stmt.hoistAll_settled rest settled'

end

namespace Check.Context

/-- A context that a check may get to, with complaints or without: each case is a place where
it goes on in another context than before. -/
inductive Reachable : Context → Prop where
  | start : Reachable .start
  | hoisted {context : Context} {s : Stmt} {found : Checked Context} :
      Reachable context → s.hoist context = .ok found → Reachable found.value
  | checked {context : Context} {s : Stmt} {found : Checked Context} :
      Reachable context → s.check context = .ok found → Reachable found.value
  | arm {context : Context} {arm : Arm} {subject : Option Ty} {found : Checked Context} :
      Reachable context → arm.check context subject = .ok found → Reachable found.value
  | declared {context : Context} {header : FunctionHeader} {found : Checked Context} :
      Reachable context → Check.function context header = .ok found → Reachable found.value
  | inside {context : Context} {header : FunctionHeader} {found : Checked Context} :
      Reachable context → functionBody context header = .ok found → Reachable found.value
  | enter {context : Context} : Reachable context → Reachable context.enter
  | anchored {context : Context} {anchor : Position} :
      Reachable context → Reachable { context with anchor }

theorem settled_start : start.Settled := by
  refine ⟨⟨fun _ => none, fun _ => none⟩, ⟨fun name => ?_, fun _ _ => rfl⟩⟩
  show Scopes.start.resolve? name = _
  rw [Scopes.resolve?_start]
  simp [Env.lookup]

theorem Reachable.settled {context : Context} (reachable : context.Reachable) :
    context.Settled := by
  induction reachable with
  | start => exact settled_start
  | hoisted _ ends ih => exact Stmt.hoist_settled _ ih _ ends
  | checked _ ends ih => exact Stmt.check_settled _ ih _ ends
  | arm _ ends ih => exact Arm.check_settled _ _ ih _ ends
  | declared _ ends ih => exact function_settled ih _ _ ends
  | inside _ ends ih => exact functionBody_settled ih _ _ ends
  | enter _ ih => exact ih.enter
  | anchored _ ih => exact ih

end Check.Context

/-- Wherever a check gets to, the check of an expression ends without a type only after a
complaint. -/
theorem Expr.reports_ne_nil_of_value_eq_none {context : Context} (reachable : context.Reachable)
    {e : Expr} {found : Checked (Option Ty)} (ends : e.check context = .ok found)
    (missing : found.value = none) : found.reports ≠ [] := by
  obtain ⟨Γ, describes⟩ := reachable.settled
  intro silent
  obtain ⟨value, reports⟩ := found
  obtain rfl : value = none := missing
  obtain rfl : reports = [] := silent
  exact Expr.not_silent_check_none describes e ends

end SmallLang
