import SmallLang.Scope

/-!
# Looking names up

How opening a scope and declaring a name change what names mean, seen through the look-up of
a name in all scopes and in the innermost one.
-/

set_option autoImplicit false

namespace SmallLang

namespace Scope

theorem lookup_cons {β : Type} (entries : List (String × β)) (name other : String) (found : β) :
    List.lookup other ((name, found) :: entries) =
      if other = name then some found else entries.lookup other := by
  rw [List.lookup_cons]
  by_cases same : other = name
  · simp [same]
  · have differs : (other == name) = false := beq_eq_false_iff_ne.mpr same
    simp [same, differs]

theorem lookup_eq_none_iff {β : Type} {entries : List (String × β)} {name : String} :
    entries.lookup name = none ↔ name ∉ entries.map Prod.fst := by
  rw [List.lookup_eq_none_iff, List.mem_map]
  constructor
  · rintro missing ⟨entry, present, rfl⟩
    simpa using missing entry present
  · intro missing entry present
    rw [bne_iff_ne]
    rintro rfl
    exact missing ⟨entry, present, rfl⟩

theorem lookup_of_mem {β : Type} {entries : List (String × β)} {name : String} {found : β}
    (distinct : (entries.map Prod.fst).Nodup) (present : (name, found) ∈ entries) :
    entries.lookup name = some found := by
  induction entries with
  | nil => cases present
  | cons first rest ih =>
      rw [List.map_cons, List.nodup_cons] at distinct
      rw [lookup_cons]
      cases present with
      | head => simp
      | tail _ later =>
          rw [if_neg, ih distinct.2 later]
          rintro rfl
          exact distinct.1 (List.mem_map.mpr ⟨_, later, rfl⟩)

theorem lookup_builtins (name : String) :
    builtins.lookup name = (Ty.ofName? name).map Symbol.builtin := by
  unfold builtins Ty.ofName?
  generalize Ty.all = types
  induction types with
  | nil => rfl
  | cons first rest ih =>
      rw [List.map_cons, lookup_cons, List.find?_cons, ih]
      by_cases same : name = first.name
      · simp [same]
      · have differs : (first.name == name) = false := beq_eq_false_iff_ne.mpr (Ne.symm same)
        simp [same, differs]

end Scope

namespace Scopes

variable {scopes scopes' : Scopes} {name : String} {symbol : Symbol} {position : Position}
  {error : Error}

@[simp] theorem resolve?_start (name : String) :
    start.resolve? name = (Ty.ofName? name).map Symbol.builtin := by
  simp [start, resolve?, Scope.lookup_builtins]

@[simp] theorem isRoot_start : start.isRoot = true := rfl

@[simp] theorem resolve?_push (scopes : Scopes) (name : String) :
    scopes.push.resolve? name = scopes.resolve? name := by
  simp [push, resolve?, List.findSome?_cons]

@[simp] theorem isRoot_push (scopes : Scopes) : scopes.push.isRoot = false := rfl

@[simp] theorem innermost_push (scopes : Scopes) : scopes.push.innermost = [] := rfl

theorem resolve?_insert (scopes : Scopes) (name other : String) (symbol : Symbol) :
    (scopes.insert name symbol).resolve? other =
      if other = name then some symbol else scopes.resolve? other := by
  obtain ⟨root, inner⟩ := scopes
  cases inner with
  | nil =>
      simp only [insert, resolve?, List.findSome?_nil, Option.none_or]
      exact Scope.lookup_cons root name other symbol
  | cons scope outer =>
      simp only [insert, resolve?, List.findSome?_cons]
      rw [Scope.lookup_cons]
      by_cases same : other = name <;> simp [same]

theorem lookup_innermost_insert (scopes : Scopes) (name other : String) (symbol : Symbol) :
    (scopes.insert name symbol).innermost.lookup other =
      if other = name then some symbol else scopes.innermost.lookup other := by
  obtain ⟨root, inner⟩ := scopes
  cases inner with
  | nil => exact Scope.lookup_cons root name other symbol
  | cons scope outer => exact Scope.lookup_cons scope name other symbol

@[simp] theorem isRoot_insert (scopes : Scopes) (name : String) (symbol : Symbol) :
    (scopes.insert name symbol).isRoot = scopes.isRoot := by
  obtain ⟨root, inner⟩ := scopes
  cases inner <;> rfl

theorem root_insert_of_not_isRoot (inner : scopes.isRoot = false) (name : String)
    (symbol : Symbol) : (scopes.insert name symbol).root = scopes.root := by
  obtain ⟨root, inside⟩ := scopes
  cases inside with
  | nil => cases inner
  | cons => rfl

theorem lookup_root_insert_of_isRoot (isRoot : scopes.isRoot = true) (name other : String)
    (symbol : Symbol) :
    (scopes.insert name symbol).root.lookup other =
      if other = name then some symbol else scopes.root.lookup other := by
  obtain ⟨root, inside⟩ := scopes
  cases inside with
  | nil => exact Scope.lookup_cons root name other symbol
  | cons => cases isRoot

theorem innermost_of_isRoot (root : scopes.isRoot = true) (name : String) :
    scopes.innermost.lookup name = scopes.resolve? name := by
  obtain ⟨outer, inner⟩ := scopes
  cases inner with
  | nil => simp [innermost, resolve?]
  | cons => simp [isRoot] at root

theorem lookup_root_of_isRoot (isRoot : scopes.isRoot = true) (name : String) :
    scopes.root.lookup name = scopes.resolve? name := by
  obtain ⟨root, inside⟩ := scopes
  cases inside with
  | nil => simp [resolve?]
  | cons => cases isRoot

theorem lookup_root_of_resolve?_eq_none (missing : scopes.resolve? name = none) :
    scopes.root.lookup name = none := by
  rw [resolve?, Option.or_eq_none_iff] at missing
  exact missing.2

theorem define_eq_ok_iff :
    scopes.define name symbol position = .ok scopes' ↔
      Ty.isTypeName name = false ∧ scopes.innermost.lookup name = none ∧
        scopes' = scopes.insert name symbol := by
  unfold define definesHere
  cases typeName : Ty.isTypeName name with
  | true => simp
  | false =>
      cases found : scopes.innermost.lookup name with
      | some earlier => simp
      | none => simp [eq_comm]

/-- A declaration fails if its name is that of a type, or is declared in the same scope. -/
theorem define_eq_error_iff : scopes.define name symbol position = .error error ↔
    Ty.isTypeName name = true ∧ error = ⟨.builtinRedefined name, position⟩ ∨
      Ty.isTypeName name = false ∧ (scopes.innermost.lookup name).isSome ∧
        error = ⟨.alreadyDeclared name, position⟩ := by
  unfold define definesHere
  cases Ty.isTypeName name with
  | true =>
      rw [if_pos rfl, Except.error.injEq, eq_comm]
      simp
  | false =>
      rw [if_neg Bool.false_ne_true]
      cases (scopes.innermost.lookup name).isSome with
      | true =>
          rw [if_pos rfl, Except.error.injEq, eq_comm]
          simp
      | false => simp

end Scopes

end SmallLang
