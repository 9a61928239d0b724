import SmallLang.Proofs.Table.Sweep

/-!
# Growing tables

A placeholder may be added before constraints on others are taken into account, or after it. What is
known of a term stays known.
-/

set_option autoImplicit false

namespace SmallLang

theorem Term.Within.mono {count more : Nat} {term : Term} (inside : term.Within count)
    (grown : count ≤ more) : term.Within more := by
  cases term with
  | concrete type => trivial
  | pending placeholder => exact Nat.lt_of_lt_of_le inside grown

theorem Constraint.Within.mono {count more : Nat} {constraint : Constraint}
    (inside : constraint.Within count) (grown : count ≤ more) : constraint.Within more :=
  ⟨Term.Within.mono inside.1 grown, Term.Within.mono inside.2 grown⟩

namespace Table

/-- Adds placeholders of which nothing is known. -/
def extend (table : Table) : Nat → Table
  | 0 => table
  | more + 1 => (table.extend more).grow

@[simp] theorem size_extend (table : Table) (more : Nat) :
    (table.extend more).size = table.size + more := by
  induction more with
  | zero => rfl
  | succ more ih => rw [extend, size_grow, ih, Nat.add_assoc]

@[simp] theorem size_unify (table : Table) (constraints : List Constraint) :
    (table.unify constraints).size = table.size := by
  induction constraints generalizing table with
  | nil => rfl
  | cons first rest ih => exact (ih (table.require first)).trans (size_require table first)

theorem unify_append (table : Table) (first second : List Constraint) :
    table.unify (first ++ second) = (table.unify first).unify second :=
  List.foldl_append

/-- Links form a forest, and lead from placeholders of the table to others of it. -/
structure Sound (table : Table) : Prop where
  forest : table.Forest
  find_lt : ∀ placeholder, placeholder.index < table.size →
    (table.find placeholder).index < table.size

theorem sound_unbound (count : Nat) : (unbound count).Sound where
  forest := forest_unbound count
  find_lt placeholder inside := by rwa [find_of_isRoot (isRoot_unbound count placeholder)]

section Growing

variable {table : Table}

/-- A placeholder that is added changes nothing that was known. -/
theorem Forest.resolve_grow_of_type (forest : table.Forest) {term : Term} {type : Ty}
    (known : table.resolve term = .concrete type) : table.grow.resolve term = .concrete type := by
  cases term with
  | concrete other => exact known
  | pending placeholder =>
      have bound := resolve_pending_eq_concrete_iff.mp known
      have old : table.find placeholder ≠ table.next := by
        intro same
        have inside := lt_size_of_slot? bound
        rw [same] at inside
        exact Nat.lt_irrefl _ inside
      rw [resolve_pending_eq_concrete_iff, forest.find_grow, slot?_grow, if_neg old]
      exact bound

theorem Sound.grow (sound : table.Sound) : table.grow.Sound where
  forest := sound.forest.grow
  find_lt placeholder inside := by
    rw [size_grow] at inside ⊢
    rw [sound.forest.find_grow]
    obtain old | new := Nat.lt_succ_iff_lt_or_eq.mp inside
    · exact Nat.lt_succ_of_lt (sound.find_lt placeholder old)
    · have outside : table.slot? placeholder = none := slot?_eq_none_iff.mpr (Nat.le_of_eq new.symm)
      rw [find_of_isRoot fun next linked => by rw [outside] at linked; cases linked]
      exact inside

theorem Sound.extend (sound : table.Sound) (more : Nat) : (table.extend more).Sound := by
  induction more with
  | zero => exact sound
  | succ more ih => exact ih.grow

/-- The slot of a placeholder of the table is not the one that is added. -/
theorem slot?_grow_of_lt {placeholder : Placeholder} (inside : placeholder.index < table.size) :
    table.grow.slot? placeholder = table.slot? placeholder := by
  rw [slot?_grow, if_neg]
  rintro rfl
  exact Nat.lt_irrefl _ inside

theorem Sound.resolve_grow (sound : table.Sound) {term : Term} (inside : term.Within table.size) :
    table.grow.resolve term = table.resolve term := by
  cases term with
  | concrete type => rfl
  | pending placeholder =>
      rw [resolve_pending, resolve_pending, sound.forest.find_grow,
        slot?_grow_of_lt (sound.find_lt placeholder inside)]

/-- A placeholder that represents an open class of the table is one of the table's. -/
theorem Sound.root_lt (sound : table.Sound) {term : Term} {root : Placeholder}
    (inside : term.Within table.size) (opened : table.resolve term = .pending root) :
    root.index < table.size := by
  cases term with
  | concrete type => cases opened
  | pending placeholder =>
      obtain ⟨rfl, _⟩ := resolve_pending_eq_pending_iff.mp opened
      exact sound.find_lt placeholder inside

theorem set_grow {changed : Placeholder} (slot : Slot) (inside : changed.index < table.size) :
    table.grow.set changed slot = (table.set changed slot).grow := by
  have here : changed.index < table.slots.size := inside
  simp [set, grow, Array.setIfInBounds, here, Array.set_push, Nat.lt_succ_of_lt here]

theorem Sound.bind_grow (sound : table.Sound) {placeholder : Placeholder} (type : Ty)
    (inside : placeholder.index < table.size) :
    table.grow.bind placeholder type = (table.bind placeholder type).grow := by
  have root := sound.find_lt placeholder inside
  unfold bind
  rw [sound.forest.find_grow, slot?_grow_of_lt root]
  split
  · exact set_grow _ root
  · rfl

theorem Sound.link_grow (sound : table.Sound) {source : Placeholder} (target : Placeholder)
    (inside : source.index < table.size) :
    table.grow.link source target = (table.link source target).grow := by
  unfold link
  rw [sound.forest.find_grow, sound.forest.find_grow]
  split
  · rfl
  · exact set_grow _ (sound.find_lt source inside)

theorem Sound.require_grow (sound : table.Sound) {constraint : Constraint}
    (inside : constraint.Within table.size) :
    table.grow.require constraint = (table.require constraint).grow := by
  unfold require
  rw [sound.resolve_grow inside.1, sound.resolve_grow inside.2]
  split
  · rfl
  · next opened _ => exact sound.bind_grow _ (sound.root_lt inside.1 opened)
  · next opened => exact sound.bind_grow _ (sound.root_lt inside.2 opened)
  · next opened _ => exact sound.link_grow _ (sound.root_lt inside.1 opened)

/-- A constraint on placeholders of the table leads to no others. -/
theorem Sound.require (sound : table.Sound) {constraint : Constraint}
    (inside : constraint.Within table.size) : (table.require constraint).Sound where
  forest := sound.forest.require constraint
  find_lt placeholder present := by
    rw [size_require] at present ⊢
    have found := sound.find_lt placeholder present
    unfold Table.require
    split
    · exact found
    · rwa [sound.forest.find_bind]
    · rwa [sound.forest.find_bind]
    · next source target opened opened' =>
        have source_lt := sound.find_lt source (sound.root_lt inside.1 opened)
        rw [sound.forest.find_link target source_lt]
        split
        · exact sound.find_lt target (sound.root_lt inside.2 opened')
        · exact found

theorem Sound.unify (sound : table.Sound) (constraints : List Constraint)
    (within : ∀ constraint ∈ constraints, constraint.Within table.size) :
    (table.unify constraints).Sound := by
  induction constraints generalizing table with
  | nil => exact sound
  | cons first rest ih =>
      obtain ⟨inside, within⟩ := List.forall_mem_cons.mp within
      exact ih (sound.require inside) (by rwa [size_require])

theorem Sound.unify_grow (sound : table.Sound) (constraints : List Constraint)
    (within : ∀ constraint ∈ constraints, constraint.Within table.size) :
    table.grow.unify constraints = (table.unify constraints).grow := by
  induction constraints generalizing table with
  | nil => rfl
  | cons first rest ih =>
      obtain ⟨inside, within⟩ := List.forall_mem_cons.mp within
      change (table.grow.require first).unify rest = ((table.require first).unify rest).grow
      rw [sound.require_grow inside]
      exact ih (sound.require inside) (by rwa [size_require])

/-- Placeholders that no constraint is about may be added before the sweep or after it. -/
theorem Sound.unify_extend (sound : table.Sound) {constraints : List Constraint}
    (within : ∀ constraint ∈ constraints, constraint.Within table.size) (more : Nat) :
    (table.extend more).unify constraints = (table.unify constraints).extend more := by
  induction more with
  | zero => rfl
  | succ more ih =>
      rw [Table.extend, Table.extend, (sound.extend more).unify_grow, ih]
      intro constraint present
      rw [size_extend]
      exact Constraint.Within.mono (within constraint present) (Nat.le_add_right _ _)

end Growing

section Knowing

variable {table : Table} {term : Term} {type : Ty}

theorem Forest.resolve_extend_of_type (forest : table.Forest)
    (known : table.resolve term = .concrete type) (more : Nat) :
    (table.extend more).Forest ∧ (table.extend more).resolve term = .concrete type := by
  induction more with
  | zero => exact ⟨forest, known⟩
  | succ more ih => exact ⟨ih.1.grow, ih.1.resolve_grow_of_type ih.2⟩

theorem Sound.roots_lt (sound : table.Sound) {constraint : Constraint}
    (inside : constraint.Within table.size) :
    ∀ root, table.resolve constraint.left = .pending root ∨
      table.resolve constraint.right = .pending root → root.index < table.size := by
  rintro root (opened | opened)
  · exact sound.root_lt inside.1 opened
  · exact sound.root_lt inside.2 opened

/-- What a constraint makes of a term depends on what was known of it, and types stay. -/
theorem Sound.resolve_require (sound : table.Sound) {constraint : Constraint}
    (inside : constraint.Within table.size) :
    ∃ change : Term → Term, (∀ type, change (.concrete type) = .concrete type) ∧
      ∀ term, (table.require constraint).resolve term = change (table.resolve term) := by
  obtain ⟨_, _, same⟩ | ⟨root, _, known, _, _, changes⟩ :=
    sound.forest.resolve_require constraint (sound.roots_lt inside)
  · exact ⟨id, fun _ => rfl, fun _ => by rw [same, id]⟩
  · exact ⟨fun term => term.replace root (table.resolve known), fun _ => rfl, changes⟩

/-- What a sweep makes of a term depends on what was known of it, and types stay. -/
theorem Sound.resolve_unify (sound : table.Sound) (constraints : List Constraint)
    (within : ∀ constraint ∈ constraints, constraint.Within table.size) :
    ∃ change : Term → Term, (∀ type, change (.concrete type) = .concrete type) ∧
      ∀ term, (table.unify constraints).resolve term = change (table.resolve term) := by
  induction constraints generalizing table with
  | nil => exact ⟨id, fun _ => rfl, fun _ => rfl⟩
  | cons first rest ih =>
      obtain ⟨inside, within⟩ := List.forall_mem_cons.mp within
      obtain ⟨change, known, changes⟩ := sound.resolve_require inside
      obtain ⟨change', known', changes'⟩ := ih (sound.require inside) (by rwa [size_require])
      refine ⟨change' ∘ change, fun type => ?_, fun term => ?_⟩
      · rw [Function.comp_apply, known, known']
      · exact (changes' term).trans (congrArg change' (changes term))

/-- A sweep leaves what is known. -/
theorem Sound.resolve_unify_of_type (sound : table.Sound) (constraints : List Constraint)
    (within : ∀ constraint ∈ constraints, constraint.Within table.size)
    (known : table.resolve term = .concrete type) :
    (table.unify constraints).resolve term = .concrete type := by
  obtain ⟨change, types, changes⟩ := sound.resolve_unify constraints within
  rw [changes, known, types]

end Knowing

end Table

end SmallLang
