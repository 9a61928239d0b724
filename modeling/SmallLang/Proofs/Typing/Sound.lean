import SmallLang.Proofs.Typing.Announced
import SmallLang.Proofs.Typing.Stmt

/-!
# What passes the check is well typed

A statement that is checked without a complaint is well typed, in every environment that its
context stands for. The environment after it is the one that the last context stands for.
-/

set_option autoImplicit false

namespace SmallLang

namespace Check

variable {context last : Context} {root : Bool} {ρ : Option Ty} {Γ : Env Binding}

theorem Context.Stands.not_isTypeName (stands : context.Stands root ρ Γ) {name : String}
    {binding : Binding} (found : Γ.lookup name = some binding) :
    Ty.isTypeName name = false := by
  rw [Bool.eq_false_iff]
  intro isType
  rw [stands.describes.apart name isType] at found
  cases found

/-- A name that is new to the innermost scope is free. In the root scope, it is not known
outside of the block either. -/
theorem Context.Stands.free (stands : context.Stands root ρ Γ) {name : String}
    (notType : Ty.isTypeName name = false)
    (unseen : context.scopes.innermost.lookup name = none) :
    Γ.Free name ∧ (root = true → Γ.outer name = none) := by
  cases root with
  | false =>
      exact ⟨(free_iff stands).mpr ⟨notType, unseen⟩, fun isRoot => Bool.noConfusion isRoot⟩
  | true =>
      rw [Scopes.innermost_of_isRoot stands.isRoot, stands.describes.look_eq,
        Ty.isTypeName_eq_false_iff.mp notType] at unseen
      have missing : Γ.lookup name = none := Option.map_eq_none_iff.mp unseen
      obtain ⟨block, outside⟩ := Option.or_eq_none_iff.mp missing
      exact ⟨⟨notType, block⟩, fun _ => outside⟩

/-- What the check of a declared name has found: the name was free, and is declared now. -/
structure Context.Declares (Γ : Env Binding) (root : Bool) (ρ : Option Ty) (last : Context)
    (name : String) (binding : Binding) (announced : List (String × Option Binding)) :
    Prop where
  free : Γ.Free name
  stands : last.Stands root ρ (Γ.declare name binding)
  grown : root = true → Γ.Extends (Γ.declare name binding) (announced.map Prod.fst)

theorem declares_announced (stands : context.Stands true ρ Γ) {name : String}
    {binding : Binding} (awaits : Γ.Awaits [(name, some binding)]) :
    Context.Declares Γ true ρ context name binding [(name, some binding)] := by
  obtain ⟨_, ⟨⟩, outside, unseen⟩ := awaits.of_singleton
  have found : Γ.lookup name = some binding := by simp [Env.lookup, unseen, outside]
  exact ⟨⟨stands.not_isTypeName found, unseen⟩, stands.announce outside unseen,
    fun _ => Env.extends_declare Γ name binding⟩

theorem declares_new (stands : context.Stands root ρ Γ) {name : String} {binding : Binding}
    {announced : List (String × Option Binding)} (notType : Ty.isTypeName name = false)
    (unseen : context.scopes.innermost.lookup name = none) :
    Context.Declares Γ root ρ
      { context with scopes := context.scopes.insert name binding.symbol }
      name binding announced := by
  obtain ⟨free, outside⟩ := stands.free notType unseen
  refine ⟨free, stands.insert notType, fun isRoot => ⟨rfl, ?_⟩⟩
  intro other known _
  rw [Env.block_declare, if_neg]
  rintro rfl
  rw [outside isRoot] at known
  cases known

theorem declares_of_silent_declaration (stands : context.Stands root ρ Γ) {decl : Variable}
    (awaits : root = true → Γ.Awaits (Stmt.declare decl).announced)
    (silent : Silent (declaration context decl) last) :
    ∃ type, decl.Typed .plain Γ type ∧
      Context.Declares Γ root ρ last decl.name (.value type decl.mutable)
        (Stmt.declare decl).announced := by
  obtain ⟨type, typed, ends⟩ := (silent_declaration stands).mp silent
  refine ⟨type, typed, ?_⟩
  split at ends
  · next hoisted =>
      obtain ⟨rfl, isTyped⟩ := hoisted
      subst ends
      obtain ⟨value, valued, isType, _⟩ := typed.valued
      have announced : (Stmt.declare decl).announced =
          [(decl.name, decl.statedType?.map fun type => .value type decl.mutable)] :=
        if_pos isTyped
      rw [announced] at awaits ⊢
      obtain ⟨_, known, _⟩ := (awaits rfl).of_singleton
      obtain ⟨stated, isStated, rfl⟩ := Option.map_eq_some_iff.mp known
      rw [isStated] at isType awaits ⊢
      obtain rfl : stated = type := Option.some.inj isType
      exact declares_announced (stands.anchored decl.position) (awaits rfl)
  · obtain ⟨notType, unseen, rfl⟩ := ends
    exact declares_new (stands.anchored decl.position) notType unseen

theorem declares_of_silent_function (stands : context.Stands root ρ Γ) {header : FunctionHeader}
    {body : Option (List Stmt)}
    (awaits : root = true → Γ.Awaits (Stmt.function header body).announced)
    (silent : Silent (function context header) last) :
    ∃ parameters result, header.parameterTypes? = some parameters ∧
      header.resultType? = some result ∧
      Context.Declares Γ root ρ last header.name (.function parameters result)
        (Stmt.function header body).announced := by
  have ends := (silent_function stands).mp silent
  rw [Stmt.announced] at awaits ⊢
  split at ends
  · next isRoot =>
      subst isRoot ends
      obtain ⟨binding, known, _⟩ := (awaits rfl).of_singleton
      unfold FunctionHeader.binding? at known awaits ⊢
      cases isParameters : header.parameterTypes? with
      | none => simp [isParameters] at known
      | some parameters =>
          cases isResult : header.resultType? with
          | none => simp [isResult] at known
          | some result =>
              simp only [isParameters, isResult, forall_const] at awaits ⊢
              exact ⟨parameters, result, rfl, rfl,
                declares_announced (stands.anchored header.position) awaits⟩
  · obtain ⟨parameters, result, known, known', notType, unseen, rfl⟩ := ends
    exact ⟨parameters, result, known, known',
      declares_new (stands.anchored header.position) notType unseen⟩

end Check

section Soundness

open Check

mutual

theorem Stmt.typed_of_silent {context : Context} {root : Bool} {ρ : Option Ty}
    {Γ : Env Binding} (stands : context.Stands root ρ Γ) :
    ∀ (s : Stmt) {last : Context}, (root = true → Γ.Awaits s.announced) →
      Silent (s.check context) last →
      ∃ Γ' returned, s.Typed .plain ρ Γ Γ' returned ∧ last.Stands root ρ Γ' ∧
        (root = true → Γ.Extends Γ' (s.announced.map Prod.fst))
  | .expr e, last, _, silent => by
      simp only [Stmt.check, silent_bind, silent_pure] at silent
      obtain ⟨_, silent, rfl⟩ := silent
      obtain ⟨type, _, typed⟩ := (Expr.silent_check_iff stands.describes e).mp silent
      exact ⟨Γ, [], .expr typed, stands, fun _ => .refl Γ _⟩
  | .comment text, last, _, silent => by
      obtain rfl := silent_pure.mp silent
      exact ⟨Γ, [], .comment text, stands, fun _ => .refl Γ _⟩
  | .use used, last, _, silent => by
      obtain rfl := silent_pure.mp silent
      exact ⟨Γ, [], .use used, stands, fun _ => .refl Γ _⟩
  | .parameter param, last, _, silent => by
      simp only [Stmt.check, Check.parameter, silent_bind, silent_ofExcept,
        stands.describes.sane.typeOf_eq_ok_iff, silent_variable] at silent
      obtain ⟨type, known, notType, unseen, rfl⟩ := silent
      have declares := @declares_new _ _ _ _ stands _ (.value type true) [] notType unseen
      exact ⟨_, [], .parameter known declares.free, declares.stands, declares.grown⟩
  | .returns value, last, _, silent => by
      simp only [Stmt.check, silent_bind, silent_pure, silent_returns stands] at silent
      obtain ⟨_, ⟨type, typed, fits⟩, rfl⟩ := silent
      exact ⟨Γ, _, .returns typed fits, stands, fun _ => .refl Γ _⟩
  | .declare decl, last, awaits, silent => by
      obtain ⟨type, typed, declares⟩ := declares_of_silent_declaration stands awaits silent
      exact ⟨_, [], .declare typed declares.free, declares.stands, declares.grown⟩
  | .function header none, last, awaits, silent => by
      obtain ⟨parameters, result, known, known', declares⟩ :=
        declares_of_silent_function stands awaits silent
      exact ⟨_, [], .prototype known known' declares.free trivial, declares.stands,
        declares.grown⟩
  | .function header (some body), last, awaits, silent => by
      simp only [Stmt.check, silent_bind, silent_pure] at silent
      obtain ⟨next, declared, start, entered, final, silent, rfl⟩ := silent
      obtain ⟨parameters, result, known, known', declares⟩ :=
        declares_of_silent_function stands awaits declared
      rw [silent_functionBody declares.stands known'] at entered
      obtain ⟨inside, taken, stands'⟩ :=
        declared_of_silent_parameters (declares.stands.inside result) entered
      obtain ⟨Γ', returned, typed, _⟩ := Stmt.typedAll_of_silent stands' body nofun silent
      exact ⟨_, [], .function known known' declares.free taken typed trivial,
        declares.stands.leave final, declares.grown⟩
  | .branch condition body alternate, last, _, silent => by
      simp only [Stmt.check, silent_bind, silent_condition stands.describes] at silent
      obtain ⟨_, ⟨type, typed, isBool⟩, next, silent, silent'⟩ := silent
      obtain ⟨Γ', returned, typedBody, _⟩ := Stmt.typedAll_of_silent stands.enter body nofun silent
      obtain ⟨more, typedRest, stands'⟩ :=
        Alternate.typed_of_silent (stands.leave next) alternate silent'
      exact ⟨Γ, _, .branch typed isBool typedBody typedRest, stands', fun _ => .refl Γ _⟩
  | .loop condition body, last, _, silent => by
      simp only [Stmt.check, silent_bind, silent_condition stands.describes,
        silent_pure] at silent
      obtain ⟨_, ⟨type, typed, isBool⟩, next, silent, rfl⟩ := silent
      obtain ⟨Γ', returned, typedBody, _⟩ := Stmt.typedAll_of_silent stands.enter body nofun silent
      exact ⟨Γ, _, .loop typed isBool typedBody, stands.leave next, fun _ => .refl Γ _⟩
  | .switch subject arms, last, _, silent => by
      simp only [Stmt.check, silent_bind, Expr.silent_check_iff stands.describes] at silent
      obtain ⟨_, ⟨type, rfl, typed⟩, silent⟩ := silent
      obtain ⟨returned, typedArms, stands'⟩ := Arm.typedAll_of_silent stands (some type) arms silent
      exact ⟨Γ, _, .switch typed typedArms, stands', fun _ => .refl Γ _⟩
  | .arm single, last, _, silent => by
      obtain ⟨returned, typed, stands'⟩ := Arm.typed_of_silent stands none single silent
      exact ⟨Γ, _, .arm typed, stands', fun _ => .refl Γ _⟩
  | .merged body, last, awaits, silent => by
      obtain ⟨Γ', returned, typed, stands', grown⟩ :=
        Stmt.typedAll_of_silent stands body awaits silent
      exact ⟨Γ', returned, .merged typed, stands', grown⟩

theorem Alternate.typed_of_silent {context : Context} {root : Bool} {ρ : Option Ty}
    {Γ : Env Binding} (stands : context.Stands root ρ Γ) :
    ∀ (alternate : Alternate) {last : Context}, Silent (alternate.check context) last →
      ∃ returned, alternate.Typed .plain ρ Γ returned ∧ last.Stands root ρ Γ
  | .none, last, silent => by
      obtain rfl := silent_pure.mp silent
      exact ⟨[], .none, stands⟩
  | .elseBranch condition body alternate, last, silent => by
      simp only [Alternate.check, silent_bind, silent_condition stands.describes] at silent
      obtain ⟨_, ⟨type, typed, isBool⟩, next, silent, silent'⟩ := silent
      obtain ⟨Γ', returned, typedBody, _⟩ := Stmt.typedAll_of_silent stands.enter body nofun silent
      obtain ⟨more, typedRest, stands'⟩ :=
        Alternate.typed_of_silent (stands.leave next) alternate silent'
      exact ⟨_, .elseBranch typed isBool typedBody typedRest, stands'⟩
  | .otherwise body, last, silent => by
      simp only [Alternate.check, silent_bind, silent_pure] at silent
      obtain ⟨next, silent, rfl⟩ := silent
      obtain ⟨Γ', returned, typedBody, _⟩ := Stmt.typedAll_of_silent stands.enter body nofun silent
      exact ⟨_, .otherwise typedBody, stands.leave next⟩

theorem Arm.typed_of_silent {context : Context} {root : Bool} {ρ : Option Ty}
    {Γ : Env Binding} (stands : context.Stands root ρ Γ) (subject : Option Ty) :
    ∀ (arm : Arm) {last : Context}, Silent (arm.check context subject) last →
      ∃ returned, arm.Typed .plain ρ subject Γ returned ∧ last.Stands root ρ Γ
  | .value pattern body, last, silent => by
      simp only [Arm.check, silent_bind, silent_pattern stands.describes, silent_pure] at silent
      obtain ⟨_, ⟨type, typed, fits⟩, next, silent, rfl⟩ := silent
      obtain ⟨Γ', returned, typedBody, _⟩ := Stmt.typedAll_of_silent stands.enter body nofun silent
      exact ⟨_, .value typed fits typedBody, stands.leave next⟩
  | .otherwise body, last, silent => by
      simp only [Arm.check, silent_bind, silent_pure] at silent
      obtain ⟨next, silent, rfl⟩ := silent
      obtain ⟨Γ', returned, typedBody, _⟩ := Stmt.typedAll_of_silent stands.enter body nofun silent
      exact ⟨_, .otherwise typedBody, stands.leave next⟩

theorem Stmt.typedAll_of_silent {context : Context} {root : Bool} {ρ : Option Ty}
    {Γ : Env Binding} (stands : context.Stands root ρ Γ) :
    ∀ (body : List Stmt) {last : Context}, (root = true → Γ.Awaits (Stmt.allAnnounced body)) →
      Silent (Stmt.checkAll context body) last →
      ∃ Γ' returned, Stmt.TypedAll .plain ρ Γ body Γ' returned ∧ last.Stands root ρ Γ' ∧
        (root = true → Γ.Extends Γ' ((Stmt.allAnnounced body).map Prod.fst))
  | [], last, _, silent => by
      obtain rfl := silent_pure.mp silent
      exact ⟨Γ, [], .nil, stands, fun _ => .refl Γ _⟩
  | first :: rest, last, awaits, silent => by
      simp only [Stmt.checkAll, silent_bind] at silent
      obtain ⟨next, silent, silent'⟩ := silent
      obtain ⟨Γ', returned, typed, stands', grown⟩ :=
        Stmt.typed_of_silent stands first (fun isRoot => (awaits isRoot).left) silent
      obtain ⟨Γ'', more, typedRest, stands'', grown'⟩ := Stmt.typedAll_of_silent stands' rest
        (fun isRoot => (awaits isRoot).right (grown isRoot)) silent'
      refine ⟨Γ'', returned ++ more, .cons typed typedRest, stands'', fun isRoot => ?_⟩
      rw [Stmt.allAnnounced, List.map_append]
      exact (grown isRoot).trans (grown' isRoot)

theorem Arm.typedAll_of_silent {context : Context} {root : Bool} {ρ : Option Ty}
    {Γ : Env Binding} (stands : context.Stands root ρ Γ) (subject : Option Ty) :
    ∀ (arms : List Arm) {last : Context}, Silent (Arm.checkAll context subject arms) last →
      ∃ returned, Arm.TypedAll .plain ρ subject Γ arms returned ∧ last.Stands root ρ Γ
  | [], last, silent => by
      obtain rfl := silent_pure.mp silent
      exact ⟨[], .nil, stands⟩
  | first :: rest, last, silent => by
      simp only [Arm.checkAll, silent_bind] at silent
      obtain ⟨next, silent, silent'⟩ := silent
      obtain ⟨returned, typed, stands'⟩ := Arm.typed_of_silent stands subject first silent
      obtain ⟨more, typedRest, stands''⟩ := Arm.typedAll_of_silent stands' subject rest silent'
      exact ⟨returned ++ more, .cons typed typedRest, stands''⟩

end

end Soundness

end SmallLang
