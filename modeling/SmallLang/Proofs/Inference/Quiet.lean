import SmallLang.Proofs.Inference.Frame
import SmallLang.Proofs.Inference.Outcomes

/-!
# Steps that are not about names

Much of inference neither looks a name up nor declares one: it asks for terms to agree, adds
placeholders and reads the types that are written. Such steps leave names as they are, and fail for
other reasons than a missing declaration.
-/

set_option autoImplicit false

namespace SmallLang

/-- An error that is about something else than a missing declaration. -/
def Error.Elsewhere (error : Error) : Prop := ∀ name, error.cause ≠ .notDeclared name

variable {α β : Type} {engine engine' engine'' : Engine}

/-- Two engines that know the same names and wait for the same ones. -/
structure Engine.Alike (engine engine' : Engine) : Prop where
  scopes : engine'.scopes = engine.scopes
  known : engine'.known = engine.known
  forward : engine'.forward = engine.forward
  declaring : engine'.declaring = engine.declaring

theorem Engine.Alike.refl (engine : Engine) : engine.Alike engine := ⟨rfl, rfl, rfl, rfl⟩

theorem Engine.Alike.trans (first : engine.Alike engine') (second : engine'.Alike engine'') :
    engine.Alike engine'' :=
  ⟨second.scopes.trans first.scopes, second.known.trans first.known,
    second.forward.trans first.forward, second.declaring.trans first.declaring⟩

theorem Engine.alike_constrain (engine : Engine) (left right : Term) :
    engine.Alike (engine.constrain left right) := by
  rw [constrain_eq]
  exact ⟨rfl, rfl, rfl, rfl⟩

theorem Engine.alike_constrainAll (pairs : List (Term × Term)) :
    ∀ engine : Engine, engine.Alike (engine.constrainAll pairs) := by
  induction pairs with
  | nil => exact Alike.refl
  | cons pair rest ih => exact fun engine => (alike_constrain engine _ _).trans (ih _)

theorem Engine.alike_addReturn (engine : Engine) (term : Term) :
    engine.Alike (engine.addReturn term) := by
  unfold addReturn
  split
  · exact .refl engine
  · exact ⟨rfl, rfl, rfl, rfl⟩

namespace Infer

/-- A step that neither looks a name up nor declares one. -/
def Quiet (work : Infer α) : Prop :=
  ∀ engine, work.Meets engine (fun _ => engine.Alike) fun error _ => error.Elsewhere

theorem quiet_pure (value : α) : Quiet (pure value) := Engine.Alike.refl

theorem quiet_fail {error : Error} (elsewhere : error.Elsewhere) : Quiet (fail error : Infer α) :=
  fun _ => elsewhere

theorem quiet_update {step : Engine → Engine}
    (alike : ∀ engine : Engine, engine.Alike (step engine)) :
    Quiet (update step) :=
  alike

theorem Quiet.bind {first : Infer α} {second : α → Infer β} (before : first.Quiet)
    (after : ∀ value, (second value).Quiet) : (first >>= second).Quiet := by
  intro engine
  refine Meets.bind ((before engine).imp (fun value between alike => ?_) fun _ _ => id)
  exact (after value between).imp (fun _ _ => alike.trans) fun _ _ => id

theorem quiet_ofExcept {result : Engine → Except Error α}
    (elsewhere : ∀ engine error, result engine = .error error → error.Elsewhere) :
    Quiet (ofExcept result) :=
  fun engine => meets_ofExcept (fun _ _ => .refl engine) (elsewhere engine)

theorem quiet_constrain (left right : Term) : Quiet (constrain left right) :=
  fun engine => engine.alike_constrain left right

theorem quiet_fresh : Quiet fresh := fun _ => ⟨rfl, rfl, rfl, rfl⟩

theorem quiet_anchor (position : Position) :
    Quiet (update fun engine => { engine with anchor := position }) :=
  fun _ => ⟨rfl, rfl, rfl, rfl⟩

theorem quiet_orFresh (known : Option Term) : (orFresh known).Quiet := by
  cases known with
  | none => exact quiet_fresh
  | some term => exact quiet_pure term

theorem quiet_operation (operator : BinaryOperator) (left right : Term) (position : Position) :
    (operation operator left right position).Quiet := by
  unfold operation
  split
  · split
    · exact quiet_pure _
    · exact quiet_fail fun _ => nofun
  · refine (quiet_constrain _ _).bind ?_
    intro _
    refine quiet_fresh.bind ?_
    intro _
    refine (quiet_constrain _ _).bind ?_
    intro _
    exact quiet_pure _

theorem quiet_application (parameters : List Ty) (result : Term) (arguments : List Term) :
    (application parameters result arguments).Quiet := by
  unfold application
  split
  · exact (quiet_update (Engine.alike_constrainAll _)).bind fun _ => quiet_pure _
  · exact quiet_pure _

theorem quiet_conclusion (header : FunctionHeader) (declared : Option Ty) (before : Term)
    (terms : List Term) : (conclusion header declared before terms).Quiet := by
  have common : (commonReturn header terms).Quiet := by
    unfold commonReturn
    split
    · exact (quiet_update (Engine.alike_constrainAll _)).bind fun _ => quiet_pure _
    · split
      · exact quiet_pure _
      · split
        · exact quiet_pure _
        · exact quiet_fail fun _ => nofun
  have result : (result header declared terms).Quiet := by
    cases declared with
    | none => exact common
    | some type => exact quiet_pure _
  refine result.bind ?_
  intro after
  dsimp only
  split
  · exact quiet_pure _
  · exact (quiet_constrain _ _).bind fun _ => quiet_pure _

end Infer

namespace Scopes

variable {scopes : Scopes} {error : Error}

theorem elsewhere_typeOf {typeName : TypeName} (fails : scopes.typeOf typeName = .error error) :
    error.Elsewhere := by
  unfold typeOf at fails
  split at fails
  · cases fails
  · cases fails
    exact fun _ => nofun

theorem elsewhere_typesOf {typeNames : List TypeName}
    (fails : scopes.typesOf typeNames = .error error) :
    error.Elsewhere := by
  induction typeNames generalizing error with
  | nil => cases fails
  | cons first rest ih =>
      unfold typesOf at fails
      split at fails
      · next found =>
          cases fails
          exact elsewhere_typeOf found
      · split at fails
        · next found =>
            cases fails
            exact ih found
        · cases fails

theorem elsewhere_typeOf? {written : Option TypeName}
    (fails : scopes.typeOf? written = .error error) :
    error.Elsewhere := by
  unfold typeOf? at fails
  split at fails
  · cases fails
  · split at fails
    · next found =>
        cases fails
        exact elsewhere_typeOf found
    · cases fails

theorem elsewhere_define {name : String} {symbol : Symbol} {position : Position}
    (fails : scopes.define name symbol position = .error error) : error.Elsewhere := by
  unfold define at fails
  split at fails
  · cases fails
    exact fun _ => nofun
  · split at fails
    · cases fails
      exact fun _ => nofun
    · cases fails

end Scopes

end SmallLang
