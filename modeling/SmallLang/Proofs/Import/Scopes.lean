import SmallLang.Proofs.Module.Visits
import SmallLang.Proofs.Module.Words

/-!
# Scopes under a namespace

The scopes of a module that is merged are those of the module alone, with new names in the root. A
name gets its new name where it is not hidden, and then means what it meant.
-/

set_option autoImplicit false

namespace SmallLang

namespace Qualifier

variable {qualifier : Qualifier} {hidden : List String} {name name' : String}

/-- What a module declares at its top has no dot, and is no type. -/
structure Proper (qualifier : Qualifier) : Prop where
  undotted : ∀ name ∈ qualifier.exported, Undotted name
  notType : ∀ name ∈ qualifier.exported, Ty.isTypeName name = false

theorem use_of_not_mem (missing : name ∉ qualifier.exported) (hidden : List String) :
    qualifier.use hidden name = name := by
  rw [use, if_neg (by simp [missing])]

theorem use_of_hidden (inside : name ∈ hidden) : qualifier.use hidden name = name := by
  rw [use, if_neg (by simp [inside])]

/-- Where a name is not hidden, it is used as at the top. -/
theorem use_of_not_hidden (outside : name ∉ hidden) :
    qualifier.use hidden name = qualifier.use [] name := by
  simp [use, outside]

/-- At the top, a declaration of the module is used under its new name. -/
theorem use_of_mem (exported : name ∈ qualifier.exported) :
    qualifier.use [] name = qualifier.declaration name := by
  simp [use, exported]

theorem not_undotted_declaration (qualifier : Qualifier) (name : String) :
    ¬ Undotted (qualifier.declaration name) :=
  fun undotted => undotted.ne_qualifiedName rfl

theorem declaration_inj (same : qualifier.declaration name = qualifier.declaration name') :
    name = name' := by
  have texts := congrArg String.toList same
  rw [declaration, declaration, Expr.toList_qualifiedName, Expr.toList_qualifiedName,
    List.append_cancel_left_eq, List.cons.injEq] at texts
  exact String.toList_inj.mp texts.2

/-- Names without dots stay apart. -/
theorem use_inj (undotted : Undotted name) (undotted' : Undotted name')
    (same : qualifier.use [] name = qualifier.use [] name') : name = name' := by
  by_cases exported : name ∈ qualifier.exported <;> by_cases exported' : name' ∈ qualifier.exported
  · rw [use_of_mem exported, use_of_mem exported'] at same
    exact declaration_inj same
  · rw [use_of_mem exported, use_of_not_mem exported'] at same
    exact absurd undotted' (same ▸ not_undotted_declaration qualifier name)
  · rw [use_of_not_mem exported, use_of_mem exported'] at same
    exact absurd undotted (same ▸ not_undotted_declaration qualifier name')
  · rwa [use_of_not_mem exported, use_of_not_mem exported'] at same

theorem use_eq_use_iff (undotted : Undotted name) (undotted' : Undotted name') :
    qualifier.use [] name = qualifier.use [] name' ↔ name = name' :=
  ⟨use_inj undotted undotted', congrArg _⟩

theorem undotted_of_isTypeName (isType : Ty.isTypeName name = true) : Undotted name := by
  obtain ⟨type, known⟩ := Option.isSome_iff_exists.mp isType
  have same : type.name = name := by simpa using List.find?_some known
  have undotted : ∀ type ∈ Ty.all, '.' ∉ type.name.toList := by decide
  exact same ▸ undotted type (Ty.mem_all type)

/-- A type keeps its name. -/
theorem Proper.use_type (proper : qualifier.Proper) (isType : Ty.isTypeName name = true)
    (hidden : List String) : qualifier.use hidden name = name := by
  apply use_of_not_mem
  intro exported
  rw [proper.notType name exported] at isType
  cases isType

theorem isTypeName_use (notType : Ty.isTypeName name = false) :
    Ty.isTypeName (qualifier.use [] name) = false := by
  by_cases exported : name ∈ qualifier.exported
  · rw [use_of_mem exported, ← Bool.not_eq_true]
    exact fun isType => not_undotted_declaration qualifier name (undotted_of_isTypeName isType)
  · rwa [use_of_not_mem exported]

end Qualifier

/-- Every name in a scope is without a dot. -/
def Scope.Undotted (scope : Scope) : Prop := ∀ entry ∈ scope, SmallLang.Undotted entry.1

/-- A scope with new names. -/
def Scope.qualify (qualifier : Qualifier) (scope : Scope) : Scope :=
  scope.map fun entry => (qualifier.use [] entry.1, entry.2)

namespace Scope

variable {qualifier : Qualifier} {scope : Scope} {name : String}

theorem lookup_qualify (plain : scope.Undotted) (undotted : SmallLang.Undotted name) :
    (scope.qualify qualifier).lookup (qualifier.use [] name) = scope.lookup name := by
  induction scope with
  | nil => rfl
  | cons entry rest ih =>
      obtain ⟨other, symbol⟩ := entry
      obtain ⟨undotted', plain⟩ := List.forall_mem_cons.mp plain
      rw [qualify, List.map_cons, lookup_cons, lookup_cons, ← qualify, ih plain]
      simp only [Qualifier.use_eq_use_iff undotted undotted']

theorem lookup_eq_none_of_dotted (plain : scope.Undotted) (dotted : ¬ SmallLang.Undotted name) :
    scope.lookup name = none := by
  rw [lookup_eq_none_iff, List.mem_map]
  rintro ⟨entry, present, rfl⟩
  exact dotted (plain entry present)

theorem qualify_builtins (proper : qualifier.Proper) : builtins.qualify qualifier = builtins := by
  rw [qualify, builtins, List.map_map]
  refine List.map_congr_left ?_
  intro type _
  have isType : Ty.isTypeName type.name = true := by simp [Ty.isTypeName]
  exact congrArg (·, Symbol.builtin type) (proper.use_type isType [])

theorem undotted_builtins : builtins.Undotted := by
  refine List.forall_mem_map.mpr fun type _ => Qualifier.undotted_of_isTypeName ?_
  simp [Ty.isTypeName]

end Scope

namespace Scopes

variable {qualifier : Qualifier} {scopes : Scopes} {hidden : List String} {name : String}
  {symbol : Symbol}

/-- The scopes with new names in the root. -/
def qualify (qualifier : Qualifier) (scopes : Scopes) : Scopes :=
  { scopes with root := scopes.root.qualify qualifier }

/-- The name with which a declaration is made. -/
def named (qualifier : Qualifier) (scopes : Scopes) (name : String) : String :=
  if scopes.isRoot then qualifier.use [] name else name

/-- Scopes of a module, of whose names some are hidden: those that are bound inside the root. -/
structure Hosts (scopes : Scopes) (hidden : List String) : Prop where
  sane : scopes.Sane
  root : scopes.root.Undotted
  inner : ∀ scope ∈ scopes.inner, scope.Undotted
  hides : ∀ name, Ty.isTypeName name = false →
    (name ∈ hidden ↔ (scopes.inside? name).isSome)

@[simp] theorem qualify_push (scopes : Scopes) :
    scopes.push.qualify qualifier = (scopes.qualify qualifier).push := rfl

@[simp] theorem qualify_pop (scopes : Scopes) :
    scopes.pop.qualify qualifier = (scopes.qualify qualifier).pop := rfl

@[simp] theorem isRoot_qualify (scopes : Scopes) :
    (scopes.qualify qualifier).isRoot = scopes.isRoot := rfl

theorem qualify_start (proper : qualifier.Proper) : start.qualify qualifier = start := by
  rw [qualify, start, Scope.qualify_builtins proper]

theorem named_of_isRoot (root : scopes.isRoot = true) (name : String) :
    scopes.named qualifier name = qualifier.use [] name := if_pos root

theorem named_of_not_isRoot (inner : scopes.isRoot = false) (name : String) :
    scopes.named qualifier name = name := by
  rw [named, if_neg (by simp [inner])]

theorem isTypeName_named (notType : Ty.isTypeName name = false) :
    Ty.isTypeName (scopes.named qualifier name) = false := by
  unfold named
  split
  · exact Qualifier.isTypeName_use notType
  · exact notType

theorem qualify_insert (qualifier : Qualifier) (scopes : Scopes) (name : String)
    (symbol : Symbol) : (scopes.insert name symbol).qualify qualifier =
      (scopes.qualify qualifier).insert (scopes.named qualifier name) symbol := by
  obtain ⟨root, inner⟩ := scopes
  cases inner <;> rfl

namespace Hosts

theorem start : Scopes.start.Hosts [] where
  sane := sane_start
  root := Scope.undotted_builtins
  inner := List.forall_mem_nil _
  hides name _ := by simp [inside?_of_isRoot isRoot_start name]

/-- In which order names are hidden does not matter. -/
theorem congr {hidden' : List String} (hosts : scopes.Hosts hidden)
    (same : ∀ name, name ∈ hidden' ↔ name ∈ hidden) : scopes.Hosts hidden' :=
  ⟨hosts.sane, hosts.root, hosts.inner, fun name notType =>
    (same name).trans (hosts.hides name notType)⟩

theorem push (hosts : scopes.Hosts hidden) : scopes.push.Hosts hidden where
  sane := hosts.sane.push
  root := hosts.root
  inner := List.forall_mem_cons.mpr ⟨List.forall_mem_nil _, hosts.inner⟩
  hides := hosts.hides

/-- A declaration inside of the module hides a name. -/
theorem insert_inner (hosts : scopes.Hosts hidden) (inner : scopes.isRoot = false)
    (undotted : Undotted name) (notType : Ty.isTypeName name = false)
    (new : ∀ type, symbol ≠ .builtin type) :
    (scopes.insert name symbol).Hosts (name :: hidden) where
  sane := hosts.sane.insert notType new
  root := by
    rw [root_insert_of_not_isRoot inner]
    exact hosts.root
  inner := by
    obtain ⟨root, inside⟩ := scopes
    cases inside with
    | nil => cases inner
    | cons scope outer =>
        obtain ⟨plain, plain'⟩ := List.forall_mem_cons.mp hosts.inner
        exact List.forall_mem_cons.mpr ⟨List.forall_mem_cons.mpr ⟨undotted, plain⟩, plain'⟩
  hides := by
    intro other notType
    rw [inside?_insert, List.mem_cons, hosts.hides other notType, inner]
    by_cases same : other = name <;> simp [same]

/-- A declaration at the top hides nothing. -/
theorem insert_root (hosts : scopes.Hosts hidden) (root : scopes.isRoot = true)
    (undotted : Undotted name) (notType : Ty.isTypeName name = false)
    (new : ∀ type, symbol ≠ .builtin type) : (scopes.insert name symbol).Hosts hidden where
  sane := hosts.sane.insert notType new
  root := by
    obtain ⟨entries, inside⟩ := scopes
    cases inside with
    | nil => exact List.forall_mem_cons.mpr ⟨undotted, hosts.root⟩
    | cons => cases root
  inner := by
    obtain ⟨entries, inside⟩ := scopes
    cases inside with
    | nil => exact List.forall_mem_nil _
    | cons => cases root
  hides := by
    intro other notType
    rw [inside?_insert, hosts.hides other notType, root]
    simp

theorem inside?_eq_none_of_dotted (hosts : scopes.Hosts hidden) (dotted : ¬ Undotted name) :
    scopes.inside? name = none := by
  rw [inside?, List.findSome?_eq_none_iff]
  exact fun scope present => Scope.lookup_eq_none_of_dotted (hosts.inner scope present) dotted

theorem inside?_eq_none (hosts : scopes.Hosts hidden) (notType : Ty.isTypeName name = false)
    (outside : name ∉ hidden) : scopes.inside? name = none := by
  rw [hosts.hides name notType, Bool.not_eq_true, Option.isSome_eq_false_iff,
    Option.isNone_iff_eq_none] at outside
  exact outside

/-- A name means what it meant. -/
theorem resolve?_qualify (hosts : scopes.Hosts hidden) (proper : qualifier.Proper)
    (undotted : Undotted name) :
    (scopes.qualify qualifier).resolve? (qualifier.use hidden name) = scopes.resolve? name := by
  have root : (scopes.root.qualify qualifier).lookup (qualifier.use [] name) = _ :=
    Scope.lookup_qualify hosts.root undotted
  rw [resolve?_eq, resolve?_eq]
  change (scopes.inside? _).or ((scopes.root.qualify qualifier).lookup _) = _
  by_cases exported : name ∈ qualifier.exported
  · have notType := proper.notType name exported
    by_cases inside : name ∈ hidden
    · obtain ⟨symbol, found⟩ := Option.isSome_iff_exists.mp ((hosts.hides name notType).mp inside)
      rw [Qualifier.use_of_hidden inside, found, Option.some_or, Option.some_or]
    · rw [Qualifier.use_of_not_hidden inside, root, Qualifier.use_of_mem exported,
        hosts.inside?_eq_none notType inside,
        hosts.inside?_eq_none_of_dotted (Qualifier.not_undotted_declaration qualifier name)]
  · rw [Qualifier.use_of_not_mem exported] at root ⊢
    rw [root]

/-- A name that means nothing so far gets the name that it has at the top. -/
theorem use_of_resolve?_eq_none (hosts : scopes.Hosts hidden) (proper : qualifier.Proper)
    (unknown : scopes.resolve? name = none) :
    qualifier.use hidden name = qualifier.use [] name := by
  by_cases exported : name ∈ qualifier.exported
  · apply Qualifier.use_of_not_hidden
    intro inside
    rw [resolve?_eq, Option.or_eq_none_iff] at unknown
    have found := (hosts.hides name (proper.notType name exported)).mp inside
    rw [unknown.1] at found
    cases found
  · rw [Qualifier.use_of_not_mem exported, Qualifier.use_of_not_mem exported]

/-- A declaration finds what it found in its own scope. -/
theorem innermost_qualify (hosts : scopes.Hosts hidden) (undotted : Undotted name) :
    (scopes.qualify qualifier).innermost.lookup (scopes.named qualifier name) =
      scopes.innermost.lookup name := by
  obtain ⟨root, inside⟩ := scopes
  cases inside with
  | nil => exact Scope.lookup_qualify hosts.root undotted
  | cons => rfl

section Types

variable (hosts : scopes.Hosts hidden) (proper : qualifier.Proper)

include hosts proper

theorem typeOf_qualify {typeName : TypeName} {type : Ty}
    (known : scopes.typeOf typeName = .ok type) :
    (scopes.qualify qualifier).typeOf typeName = .ok type := by
  have named := hosts.sane.typeOf_eq_ok_iff.mp known
  have isType : Ty.isTypeName typeName.name = true := Option.isSome_iff_exists.mpr ⟨type, named⟩
  have means : (scopes.qualify qualifier).resolve? (qualifier.use hidden typeName.name) = _ :=
    hosts.resolve?_qualify proper (Qualifier.undotted_of_isTypeName isType)
  rw [proper.use_type isType] at means
  rw [typeOf, means]
  exact known

theorem typesOf_qualify {typeNames : List TypeName} : ∀ {types : List Ty},
    scopes.typesOf typeNames = .ok types →
      (scopes.qualify qualifier).typesOf typeNames = .ok types := by
  induction typeNames with
  | nil => exact id
  | cons first rest ih =>
      intro types known
      rw [typesOf] at known ⊢
      split at known
      · cases known
      · next type isType =>
          rw [hosts.typeOf_qualify proper isType]
          split at known
          · cases known
          · next others areTypes =>
              rw [ih areTypes]
              exact known

theorem typeOf?_qualify {typeName : Option TypeName} {found : Option Ty}
    (known : scopes.typeOf? typeName = .ok found) :
    (scopes.qualify qualifier).typeOf? typeName = .ok found := by
  cases typeName with
  | none => exact known
  | some typeName =>
      rw [typeOf?] at known ⊢
      split at known
      · cases known
      · next type isType =>
          rw [hosts.typeOf_qualify proper isType]
          exact known

end Types

end Hosts

end Scopes

end SmallLang
