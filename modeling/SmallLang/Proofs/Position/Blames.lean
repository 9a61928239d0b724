import SmallLang.Inference

/-!
# Positions in results

Whether the error of a result stands at a place of some kind.
-/

set_option autoImplicit false

namespace SmallLang

variable {α β : Type} {place : Position → Prop}

/-- A result that is an error blames a place. -/
def Blames (place : Position → Prop) (result : Except Error α) : Prop :=
  ∀ error, result = .error error → place error.position

theorem blames_ok (value : α) : Blames place (.ok value : Except Error α) := nofun

theorem blames_error {error : Error} (stands : place error.position) :
    Blames place (.error error : Except Error α) := by
  rintro _ ⟨⟩
  exact stands

theorem Blames.bind {first : Except Error α} {second : α → Except Error β}
    (before : Blames place first) (after : ∀ value, Blames place (second value)) :
    Blames place (first >>= second) := by
  intro error fails
  cases first with
  | error other =>
      cases fails
      exact before _ rfl
  | ok value => exact after value error fails

namespace Scopes

variable (scopes : Scopes)

theorem blames_define (name : String) (symbol : Symbol) {position : Position}
    (stands : place position) : Blames place (scopes.define name symbol position) := by
  unfold define
  split
  · exact blames_error stands
  · split
    · exact blames_error stands
    · exact blames_ok _

theorem blames_lookup (name : String) {position : Position} (stands : place position) :
    Blames place (scopes.lookup name position) := by
  unfold lookup
  split
  · exact blames_ok _
  · exact blames_error stands

theorem blames_typeOf {typeName : TypeName} (stands : place typeName.position) :
    Blames place (scopes.typeOf typeName) := by
  unfold typeOf
  split
  · exact blames_ok _
  · exact blames_error stands

theorem blames_typesOf : ∀ {typeNames : List TypeName},
    (∀ typeName ∈ typeNames, place typeName.position) → Blames place (scopes.typesOf typeNames)
  | [], _ => blames_ok _
  | _ :: rest, stand => by
      obtain ⟨stands, stand⟩ := List.forall_mem_cons.mp stand
      unfold typesOf
      split
      · next fails => exact blames_error (scopes.blames_typeOf stands _ fails)
      · split
        · next fails => exact blames_error (blames_typesOf stand _ fails)
        · exact blames_ok _

theorem blames_typeOf? {written : Option TypeName}
    (stands : ∀ typeName ∈ written, place typeName.position) :
    Blames place (scopes.typeOf? written) := by
  cases written with
  | none => exact blames_ok _
  | some typeName =>
      rw [typeOf?]
      split
      · next fails => exact blames_error (scopes.blames_typeOf (stands _ rfl) _ fails)
      · exact blames_ok _

end Scopes

end SmallLang
