import SmallLang.Proofs.Typing.Announced
import SmallLang.Proofs.Typing.Stmt

/-!
# What is well typed passes the check

A well-typed statement is checked without a complaint, in every context that stands for its
environment.
-/

set_option autoImplicit false

namespace SmallLang

section Completeness

open Check

/-- A free name that the root scope does not know yet is new to the innermost scope. -/
theorem Check.Context.Stands.unseen {context : Context} {root : Bool} {ρ : Option Ty}
    {Γ : Env Binding} (stands : context.Stands root ρ Γ) {name : String}
    (free : Γ.Free name) (outside : root = true → Γ.outer name = none) :
    context.scopes.innermost.lookup name = none := by
  cases root with
  | false => exact ((free_iff stands).mp free).2
  | true =>
      rw [Scopes.innermost_of_isRoot stands.isRoot, stands.describes.look_eq,
        Ty.isTypeName_eq_false_iff.mp free.1]
      simp [Env.lookup, free.2, outside rfl]

theorem Check.silent_declaration_of_typed {context : Context} {root : Bool} {ρ : Option Ty}
    {Γ : Env Binding} {decl : Variable} {type : Ty} (stands : context.Stands root ρ Γ)
    (typed : decl.Typed .plain Γ type) (free : Γ.Free decl.name)
    (knows : root = true →
      Γ.Knows (Stmt.declare decl).announced (Stmt.declare decl).unannounced) :
    ∃ last, Silent (declaration context decl) last ∧
      last.Stands root ρ (Γ.declare decl.name (.value type decl.mutable)) := by
  by_cases hoisted : root = true ∧ decl.isTyped = true
  · obtain ⟨rfl, isTyped⟩ := hoisted
    refine ⟨{ context with anchor := decl.position }, ?_, ?_⟩
    · refine (silent_declaration stands).mpr ⟨type, typed, ?_⟩
      rw [if_pos ⟨rfl, isTyped⟩]
    · apply (stands.anchored decl.position).announce _ free.2
      have announced : (Stmt.declare decl).announced =
          [(decl.name, decl.statedType?.map fun type => .value type decl.mutable)] :=
        if_pos isTyped
      obtain ⟨binding, known, outside⟩ := (knows rfl).known decl.name _
        (by rw [announced]; exact List.mem_singleton.mpr rfl)
      obtain ⟨stated, isStated, rfl⟩ := Option.map_eq_some_iff.mp known
      obtain ⟨value, _, isType, _⟩ := typed.valued
      rw [isStated] at isType
      obtain rfl : stated = type := Option.some.inj isType
      exact outside
  · refine ⟨_, ?_, (stands.anchored decl.position).insert free.1⟩
    · refine (silent_declaration stands).mpr ⟨type, typed, ?_⟩
      rw [if_neg hoisted]
      refine ⟨free.1, stands.unseen free fun isRoot => ?_, rfl⟩
      apply (knows isRoot).unknown
      have untyped : ¬ (decl.typeName.isSome || decl.resolvedType?.isSome) = true :=
        fun isTyped => hoisted ⟨isRoot, isTyped⟩
      rw [Stmt.unannounced, if_neg untyped]
      exact List.mem_singleton.mpr rfl

theorem Check.silent_function_of_typed {context : Context} {root : Bool} {ρ : Option Ty}
    {Γ : Env Binding} {header : FunctionHeader} {parameters : List Ty} {result : Ty}
    (stands : context.Stands root ρ Γ) (known : header.parameterTypes? = some parameters)
    (known' : header.resultType? = some result) (free : Γ.Free header.name)
    (knows : root = true → Γ.Knows [(header.name, header.binding?)] []) :
    ∃ last, Silent (function context header) last ∧
      last.Stands root ρ (Γ.declare header.name (.function parameters result)) := by
  cases root with
  | true =>
      refine ⟨{ context with anchor := header.position }, ?_, ?_⟩
      · exact (silent_function stands).mpr rfl
      · apply (stands.anchored header.position).announce _ free.2
        obtain ⟨binding, isBinding, outside⟩ := (knows rfl).known header.name _
          (List.mem_singleton.mpr rfl)
        rw [FunctionHeader.binding?, known, known'] at isBinding
        obtain rfl := Option.some.inj isBinding
        exact outside
  | false =>
      refine ⟨_, (silent_function stands).mpr ?_, (stands.anchored header.position).insert free.1⟩
      have unseen := stands.unseen free fun isRoot => Bool.noConfusion isRoot
      exact ⟨parameters, result, known, known', free.1, unseen, rfl⟩

mutual

theorem Stmt.silent_of_typed {context : Context} {root : Bool} {ρ : Option Ty}
    {Γ : Env Binding} (stands : context.Stands root ρ Γ) :
    ∀ (s : Stmt) {Γ' : Env Binding} {returned : List Ty},
      (root = true → Γ.Knows s.announced s.unannounced) → s.Typed .plain ρ Γ Γ' returned →
      ∃ last, Silent (s.check context) last ∧ last.Stands root ρ Γ'
  | .expr e, _, _, _, .expr typed => by
      have silent := (Expr.silent_check_iff stands.describes e).mpr ⟨_, rfl, typed⟩
      exact ⟨context, silent_bind.mpr ⟨_, silent, silent_pure.mpr rfl⟩, stands⟩
  | .comment text, _, _, _, .comment _ => ⟨context, silent_pure.mpr rfl, stands⟩
  | .use used, _, _, _, .use _ => ⟨context, silent_pure.mpr rfl, stands⟩
  | .parameter param, _, _, knows, .parameter known free => by
      refine ⟨_, ?_, stands.insert free.1⟩
      simp only [Stmt.check, Check.parameter, silent_bind, silent_ofExcept,
        stands.describes.sane.typeOf_eq_ok_iff, silent_variable]
      exact ⟨_, known, free.1, stands.unseen free fun isRoot =>
        (knows isRoot).unknown param.name (List.mem_singleton.mpr rfl), rfl⟩
  | .returns value, _, _, _, .returns typed fits => by
      have silent := (@silent_returns _ _ _ _ stands _ ()).mpr ⟨_, typed, fits⟩
      exact ⟨context, silent_bind.mpr ⟨(), silent, silent_pure.mpr rfl⟩, stands⟩
  | .declare decl, _, _, knows, .declare typed free =>
      silent_declaration_of_typed stands typed free knows
  | .function header none, _, _, knows, .prototype known known' free _ =>
      silent_function_of_typed stands known known' free knows
  | .function header (some body), _, _, knows, .function known known' free taken typed _ => by
      obtain ⟨next, declared, stands'⟩ :=
        silent_function_of_typed stands known known' free knows
      obtain ⟨start, entered, inside⟩ := silent_parameters_of_declared (stands'.inside _) taken
      obtain ⟨final, silent, _⟩ := Stmt.silentAll_of_typed inside body nofun typed
      have entered' := (silent_functionBody stands' known').mpr entered
      exact ⟨next.leave final, silent_bind.mpr ⟨next, declared, silent_bind.mpr
        ⟨start, entered', silent_bind.mpr ⟨final, silent, silent_pure.mpr rfl⟩⟩⟩,
        stands'.leave final⟩
  | .branch condition body alternate, _, _, _, .branch typed isBool typedBody typedRest => by
      have silent := (@silent_condition _ _ stands.describes _ ()).mpr ⟨_, typed, isBool⟩
      obtain ⟨next, silent', _⟩ := Stmt.silentAll_of_typed stands.enter body nofun typedBody
      obtain ⟨last, silent'', stands'⟩ :=
        Alternate.silent_of_typed (stands.leave next) alternate typedRest
      exact ⟨last, silent_bind.mpr ⟨(), silent, silent_bind.mpr ⟨next, silent', silent''⟩⟩, stands'⟩
  | .loop condition body, _, _, _, .loop typed isBool typedBody => by
      have silent := (@silent_condition _ _ stands.describes _ ()).mpr ⟨_, typed, isBool⟩
      obtain ⟨next, silent', _⟩ := Stmt.silentAll_of_typed stands.enter body nofun typedBody
      exact ⟨context.leave next, silent_bind.mpr ⟨(), silent, silent_bind.mpr
        ⟨next, silent', silent_pure.mpr rfl⟩⟩, stands.leave next⟩
  | .switch subject arms, _, _, _, .switch typed typedArms => by
      have silent := (Expr.silent_check_iff stands.describes subject).mpr ⟨_, rfl, typed⟩
      obtain ⟨last, silent', stands'⟩ := Arm.silentAll_of_typed stands _ arms typedArms
      exact ⟨last, silent_bind.mpr ⟨_, silent, silent'⟩, stands'⟩
  | .arm single, _, _, _, .arm typed => Arm.silent_of_typed stands none single typed
  | .merged body, _, _, knows, .merged typed => Stmt.silentAll_of_typed stands body knows typed
termination_by structural s => s

theorem Alternate.silent_of_typed {context : Context} {root : Bool} {ρ : Option Ty}
    {Γ : Env Binding} (stands : context.Stands root ρ Γ) :
    ∀ (alternate : Alternate) {returned : List Ty}, alternate.Typed .plain ρ Γ returned →
      ∃ last, Silent (alternate.check context) last ∧ last.Stands root ρ Γ
  | .none, _, .none => ⟨context, silent_pure.mpr rfl, stands⟩
  | .elseBranch condition body alternate, _, .elseBranch typed isBool typedBody typedRest => by
      have silent := (@silent_condition _ _ stands.describes _ ()).mpr ⟨_, typed, isBool⟩
      obtain ⟨next, silent', _⟩ := Stmt.silentAll_of_typed stands.enter body nofun typedBody
      obtain ⟨last, silent'', stands'⟩ :=
        Alternate.silent_of_typed (stands.leave next) alternate typedRest
      exact ⟨last, silent_bind.mpr ⟨(), silent, silent_bind.mpr ⟨next, silent', silent''⟩⟩, stands'⟩
  | .otherwise body, _, .otherwise typedBody => by
      obtain ⟨next, silent, _⟩ := Stmt.silentAll_of_typed stands.enter body nofun typedBody
      exact ⟨context.leave next, silent_bind.mpr ⟨next, silent, silent_pure.mpr rfl⟩,
        stands.leave next⟩
termination_by structural alternate => alternate

theorem Arm.silent_of_typed {context : Context} {root : Bool} {ρ : Option Ty}
    {Γ : Env Binding} (stands : context.Stands root ρ Γ) (subject : Option Ty) :
    ∀ (arm : Arm) {returned : List Ty}, arm.Typed .plain ρ subject Γ returned →
      ∃ last, Silent (arm.check context subject) last ∧ last.Stands root ρ Γ
  | .value pattern body, _, .value typed fits typedBody => by
      have silent := (@silent_pattern _ _ stands.describes _ _ ()).mpr ⟨_, typed, fits⟩
      obtain ⟨next, silent', _⟩ := Stmt.silentAll_of_typed stands.enter body nofun typedBody
      exact ⟨context.leave next, silent_bind.mpr ⟨(), silent, silent_bind.mpr
        ⟨next, silent', silent_pure.mpr rfl⟩⟩, stands.leave next⟩
  | .otherwise body, _, .otherwise typedBody => by
      obtain ⟨next, silent, _⟩ := Stmt.silentAll_of_typed stands.enter body nofun typedBody
      exact ⟨context.leave next, silent_bind.mpr ⟨next, silent, silent_pure.mpr rfl⟩,
        stands.leave next⟩
termination_by structural arm => arm

theorem Stmt.silentAll_of_typed {context : Context} {root : Bool} {ρ : Option Ty}
    {Γ : Env Binding} (stands : context.Stands root ρ Γ) :
    ∀ (body : List Stmt) {Γ' : Env Binding} {returned : List Ty},
      (root = true → Γ.Knows (Stmt.allAnnounced body) (Stmt.allUnannounced body)) →
      Stmt.TypedAll .plain ρ Γ body Γ' returned →
      ∃ last, Silent (Stmt.checkAll context body) last ∧ last.Stands root ρ Γ'
  | [], _, _, _, .nil => ⟨context, silent_pure.mpr rfl, stands⟩
  | first :: rest, _, _, knows, .cons typed typedRest => by
      obtain ⟨next, silent, stands'⟩ :=
        Stmt.silent_of_typed stands first (fun isRoot => (knows isRoot).left) typed
      obtain ⟨last, silent', stands''⟩ := Stmt.silentAll_of_typed stands' rest
        (fun isRoot => (knows isRoot).right typed.adds.outer) typedRest
      exact ⟨last, silent_bind.mpr ⟨next, silent, silent'⟩, stands''⟩
termination_by structural body => body

theorem Arm.silentAll_of_typed {context : Context} {root : Bool} {ρ : Option Ty}
    {Γ : Env Binding} (stands : context.Stands root ρ Γ) (subject : Option Ty) :
    ∀ (arms : List Arm) {returned : List Ty}, Arm.TypedAll .plain ρ subject Γ arms returned →
      ∃ last, Silent (Arm.checkAll context subject arms) last ∧ last.Stands root ρ Γ
  | [], _, .nil => ⟨context, silent_pure.mpr rfl, stands⟩
  | first :: rest, _, .cons typed typedRest => by
      obtain ⟨next, silent, stands'⟩ := Arm.silent_of_typed stands subject first typed
      obtain ⟨last, silent', stands''⟩ := Arm.silentAll_of_typed stands' subject rest typedRest
      exact ⟨last, silent_bind.mpr ⟨next, silent, silent'⟩, stands''⟩
termination_by structural arms => arms

end

end Completeness

end SmallLang
