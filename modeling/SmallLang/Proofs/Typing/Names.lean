import SmallLang.Proofs.Scope.Lookup
import SmallLang.Proofs.Typing.Rules

/-!
# Names of types

In scopes as they come up, the names of types mean these types, and no other name means a type.
A type name then denotes the same type whatever is in scope.
-/

set_option autoImplicit false

namespace SmallLang

/-- New names of a scope: none is the name of a type, and none stands for a type. -/
def Scope.Proper (entries : Scope) : Prop :=
  ∀ entry ∈ entries, Ty.isTypeName entry.1 = false ∧ ∀ type, entry.2 ≠ .builtin type

namespace Scopes

/-- The names of types, and no others, mean types. -/
def Sane (scopes : Scopes) : Prop :=
  ∀ name type, scopes.resolve? name = some (.builtin type) ↔ Ty.ofName? name = some type

theorem sane_start : start.Sane := by
  intro name type
  rw [resolve?_start]
  cases Ty.ofName? name <;> simp

theorem Sane.push {scopes : Scopes} (sane : scopes.Sane) : scopes.push.Sane := by
  intro name type
  rw [resolve?_push]
  exact sane name type

theorem Sane.insert {scopes : Scopes} (sane : scopes.Sane) {name : String} {symbol : Symbol}
    (notType : Ty.isTypeName name = false) (new : ∀ type, symbol ≠ .builtin type) :
    (scopes.insert name symbol).Sane := by
  intro other type
  rw [resolve?_insert]
  split
  · next same =>
      have unknown : Ty.ofName? name = none := by simpa [Ty.isTypeName] using notType
      rw [same, unknown]
      simp [new type]
  · exact sane other type

theorem Sane.typeOf_eq_ok_iff {scopes : Scopes} (sane : scopes.Sane) {typeName : TypeName}
    {type : Ty} : scopes.typeOf typeName = .ok type ↔ typeName.type? = some type := by
  unfold typeOf TypeName.type?
  rw [← sane]
  split
  · next found => simp [found]
  · next other =>
      simp only [reduceCtorEq, false_iff]
      exact other type

/-- A type name denotes the same type in any scopes. -/
theorem Sane.typeOf_eq {scopes scopes' : Scopes} (sane : scopes.Sane) (sane' : scopes'.Sane)
    (typeName : TypeName) : scopes.typeOf typeName = scopes'.typeOf typeName := by
  cases known : typeName.type? with
  | some type => rw [sane.typeOf_eq_ok_iff.mpr known, sane'.typeOf_eq_ok_iff.mpr known]
  | none =>
      have fails : ∀ {scopes : Scopes}, scopes.Sane →
          scopes.typeOf typeName = .error ⟨.unknownType typeName.name, typeName.position⟩ := by
        intro scopes sane
        cases found : scopes.typeOf typeName with
        | ok type =>
            rw [sane.typeOf_eq_ok_iff.mp found] at known
            cases known
        | error error =>
            unfold typeOf at found
            split at found
            · cases found
            · rw [← found]
      rw [fails sane, fails sane']

theorem Sane.typesOf_eq {scopes scopes' : Scopes} (sane : scopes.Sane) (sane' : scopes'.Sane)
    (typeNames : List TypeName) : scopes.typesOf typeNames = scopes'.typesOf typeNames := by
  induction typeNames with
  | nil => rfl
  | cons first rest ih => rw [typesOf, typesOf, sane.typeOf_eq sane', ih]

theorem Sane.typesOf_eq_ok_iff {scopes : Scopes} (sane : scopes.Sane) {parameters : List Parameter}
    {types : List Ty} :
    scopes.typesOf (parameters.map (·.typeName)) = .ok types ↔
      parameters.mapM (·.typeName.type?) = some types := by
  induction parameters generalizing types with
  | nil => simp [typesOf, eq_comm]
  | cons first rest ih =>
      simp only [List.map_cons, typesOf, List.mapM_cons]
      cases known : scopes.typeOf first.typeName with
      | error error =>
          have unknown : first.typeName.type? = none := by
            rw [Option.eq_none_iff_forall_not_mem]
            intro type isType
            rw [sane.typeOf_eq_ok_iff.mpr isType] at known
            cases known
          simp [unknown]
      | ok type =>
          rw [sane.typeOf_eq_ok_iff.mp known]
          cases others : scopes.typesOf (rest.map (·.typeName)) with
          | error error =>
              have unknown : rest.mapM (·.typeName.type?) = none := by
                rw [Option.eq_none_iff_forall_not_mem]
                intro types areTypes
                rw [ih.mpr areTypes] at others
                cases others
              simp [unknown]
          | ok types' =>
              rw [ih.mp others]
              simp

theorem Sane.typeOf?_eq_ok_iff {scopes : Scopes} (sane : scopes.Sane) {written : Option TypeName}
    {found : Option Ty} :
    scopes.typeOf? written = .ok found ↔
      (∀ typeName ∈ written, typeName.type?.isSome) ∧ found = written.bind TypeName.type? := by
  cases written with
  | none =>
      simp only [typeOf?, Except.ok.injEq, Option.bind_none]
      constructor
      · rintro rfl
        exact ⟨nofun, rfl⟩
      · rintro ⟨_, rfl⟩
        rfl
  | some typeName =>
      cases known : scopes.typeOf typeName with
      | error error =>
          have unknown : typeName.type? = none := by
            rw [Option.eq_none_iff_forall_not_mem]
            intro type isType
            rw [sane.typeOf_eq_ok_iff.mpr isType] at known
            cases known
          simp [typeOf?, known, unknown]
      | ok type =>
          have isType := sane.typeOf_eq_ok_iff.mp known
          simp only [typeOf?, known, Except.ok.injEq, Option.bind_some, isType]
          constructor
          · rintro rfl
            refine ⟨?_, rfl⟩
            rintro _ ⟨⟩
            rw [isType]
            rfl
          · rintro ⟨_, rfl⟩
            rfl

end Scopes

end SmallLang
