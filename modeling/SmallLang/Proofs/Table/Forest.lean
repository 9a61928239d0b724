import SmallLang.Unification

/-!
# The forest of links

Links never close a circle, so every placeholder reaches the one that represents its class.
The number of links bounds the length of every chain; this is the invariant that adding,
binding and merging placeholders keep. Each of the three changes the representatives as its
name says, and nothing outside this module looks at a slot that is linked.
-/

set_option autoImplicit false

namespace SmallLang

/-- Whether a slot leads to another one. -/
def Slot.isLink : Slot → Bool
  | .linked _ => true
  | _ => false

namespace Table

/-- No link leads away from the placeholder. -/
def IsRoot (table : Table) (placeholder : Placeholder) : Prop :=
  ∀ next, table.slot? placeholder ≠ some (.linked next)

/-- A chain of some number of links leads from a placeholder to a root. -/
inductive Reaches (table : Table) : Nat → Placeholder → Placeholder → Prop where
  | root {placeholder} : table.IsRoot placeholder → Reaches table 0 placeholder placeholder
  | step {steps placeholder next root} :
      table.slot? placeholder = some (.linked next) → Reaches table steps next root →
      Reaches table (steps + 1) placeholder root

/-- The number of links. -/
def links (table : Table) : Nat := table.slots.countP Slot.isLink

/-- Every chain of links ends at a root, and is no longer than there are links. -/
def Forest (table : Table) : Prop :=
  ∀ placeholder, ∃ steps root, steps ≤ table.links ∧ table.Reaches steps placeholder root

theorem links_le_size (table : Table) : table.links ≤ table.size := Array.countP_le_size

/-! ## Slots after a change -/

theorem slot?_grow (table : Table) (placeholder : Placeholder) :
    table.grow.slot? placeholder =
      if placeholder = table.next then some .unbound else table.slot? placeholder := by
  cases placeholder
  simp only [slot?, grow, Array.getElem?_push, next, size, Placeholder.mk.injEq]

theorem slot?_set (table : Table) (changed placeholder : Placeholder) (slot : Slot)
    (inside : changed.index < table.size) :
    (table.set changed slot).slot? placeholder =
      if placeholder = changed then some slot else table.slot? placeholder := by
  cases placeholder
  cases changed
  simp only [size] at inside
  simp only [slot?, set, Array.getElem?_setIfInBounds, Placeholder.mk.injEq]
  split <;> simp_all [eq_comm]

theorem set_of_size_le {table : Table} {changed : Placeholder} {slot : Slot}
    (outside : table.size ≤ changed.index) : table.set changed slot = table := by
  simp only [size] at outside
  simp [set, Array.setIfInBounds, Nat.not_lt.mpr outside]

theorem slot?_eq_none_iff {table : Table} {placeholder : Placeholder} :
    table.slot? placeholder = none ↔ table.size ≤ placeholder.index :=
  Array.getElem?_eq_none_iff

theorem lt_size_of_slot? {table : Table} {placeholder : Placeholder} {slot : Slot}
    (found : table.slot? placeholder = some slot) : placeholder.index < table.size :=
  (Array.getElem?_eq_some_iff.mp found).1

@[simp] theorem size_grow (table : Table) : table.grow.size = table.size + 1 :=
  Array.size_push ..

@[simp] theorem size_set (table : Table) (changed : Placeholder) (slot : Slot) :
    (table.set changed slot).size = table.size :=
  Array.size_setIfInBounds

theorem links_grow (table : Table) : table.grow.links = table.links := by
  simp [links, grow, Slot.isLink]

theorem links_set {table : Table} {changed : Placeholder} {before : Slot} (slot : Slot)
    (found : table.slot? changed = some before) (open_ : before.isLink = false) :
    (table.set changed slot).links = table.links + if slot.isLink then 1 else 0 := by
  obtain ⟨inside, value⟩ := Array.getElem?_eq_some_iff.mp found
  simp [links, set, Array.setIfInBounds, inside, Array.countP_set, value, open_]

/-! ## Following links -/

theorem Reaches.isRoot {table : Table} {steps : Nat} {placeholder root : Placeholder}
    (reaches : table.Reaches steps placeholder root) : table.IsRoot root := by
  induction reaches with
  | root isRoot => exact isRoot
  | step _ _ ih => exact ih

theorem follow_of_isRoot {table : Table} {placeholder : Placeholder}
    (isRoot : table.IsRoot placeholder) (steps : Nat) :
    table.follow steps placeholder = placeholder := by
  cases steps with
  | zero => rfl
  | succ steps =>
      unfold follow
      split
      · next next linked => exact absurd linked (isRoot next)
      · rfl

theorem Reaches.follow_eq {table : Table} {steps bound : Nat} {placeholder root : Placeholder}
    (reaches : table.Reaches steps placeholder root) (enough : steps ≤ bound) :
    table.follow bound placeholder = root := by
  induction reaches generalizing bound with
  | root isRoot => exact follow_of_isRoot isRoot bound
  | step linked _ ih =>
      cases bound with
      | zero => omega
      | succ bound =>
          unfold follow
          simp only [linked]
          exact ih (by omega)

theorem find_of_isRoot {table : Table} {placeholder : Placeholder}
    (isRoot : table.IsRoot placeholder) : table.find placeholder = placeholder :=
  follow_of_isRoot isRoot table.size

namespace Forest

variable {table : Table}

theorem find_eq (forest : table.Forest) {steps : Nat} {placeholder root : Placeholder}
    (reaches : table.Reaches steps placeholder root) : table.find placeholder = root := by
  obtain ⟨fewer, other, few, ends⟩ := forest placeholder
  calc table.find placeholder
      = other := ends.follow_eq (Nat.le_trans few table.links_le_size)
    _ = table.follow (max fewer steps) placeholder :=
        (ends.follow_eq (Nat.le_max_left fewer steps)).symm
    _ = root := reaches.follow_eq (Nat.le_max_right fewer steps)

theorem exists_reaches (forest : table.Forest) (placeholder : Placeholder) :
    ∃ steps, steps ≤ table.links ∧ table.Reaches steps placeholder (table.find placeholder) := by
  obtain ⟨steps, root, few, reaches⟩ := forest placeholder
  exact ⟨steps, few, forest.find_eq reaches ▸ reaches⟩

/-- Following links ends at a placeholder that is not linked, whatever the placeholder. -/
theorem isRoot_find (forest : table.Forest) (placeholder : Placeholder) :
    table.IsRoot (table.find placeholder) := by
  obtain ⟨_, _, reaches⟩ := forest.exists_reaches placeholder
  exact reaches.isRoot

theorem find_find (forest : table.Forest) (placeholder : Placeholder) :
    table.find (table.find placeholder) = table.find placeholder :=
  find_of_isRoot (forest.isRoot_find placeholder)

end Forest

theorem forest_empty : empty.Forest := fun placeholder =>
  ⟨0, placeholder, Nat.zero_le _, .root fun next => by simp [slot?, empty]⟩

/-! ## A change that adds no link

Binding a root, and adding a placeholder, leave every chain as it is. -/

/-- The same placeholders are linked, to the same ones. -/
def SameLinks (before after : Table) : Prop :=
  ∀ placeholder next, after.slot? placeholder = some (.linked next) ↔
    before.slot? placeholder = some (.linked next)

theorem Reaches.of_sameLinks {before after : Table} (same : before.SameLinks after) {steps : Nat}
    {placeholder root : Placeholder} (reaches : before.Reaches steps placeholder root) :
    after.Reaches steps placeholder root := by
  induction reaches with
  | root isRoot => exact .root fun next linked => isRoot next ((same _ next).mp linked)
  | step linked _ ih => exact .step ((same _ _).mpr linked) ih

theorem Forest.of_sameLinks {before after : Table} (forest : before.Forest)
    (same : before.SameLinks after) (links : after.links = before.links) : after.Forest :=
  fun placeholder => by
    obtain ⟨steps, root, few, reaches⟩ := forest placeholder
    exact ⟨steps, root, links ▸ few, reaches.of_sameLinks same⟩

theorem Forest.find_of_sameLinks {before after : Table} (forest : before.Forest)
    (same : before.SameLinks after) (links : after.links = before.links)
    (placeholder : Placeholder) : after.find placeholder = before.find placeholder := by
  obtain ⟨_, _, reaches⟩ := forest.exists_reaches placeholder
  exact (forest.of_sameLinks same links).find_eq (reaches.of_sameLinks same)

theorem sameLinks_grow (table : Table) : table.SameLinks table.grow := by
  intro placeholder next
  rw [slot?_grow]
  split
  · next fresh =>
      have absent : table.slot? placeholder = none :=
        slot?_eq_none_iff.mpr (by simp [fresh, Table.next])
      simp [absent]
  · rfl

theorem Forest.grow {table : Table} (forest : table.Forest) : table.grow.Forest :=
  forest.of_sameLinks table.sameLinks_grow table.links_grow

theorem Forest.find_grow {table : Table} (forest : table.Forest) (placeholder : Placeholder) :
    table.grow.find placeholder = table.find placeholder :=
  forest.find_of_sameLinks table.sameLinks_grow table.links_grow placeholder

theorem sameLinks_set_bound {table : Table} {root : Placeholder} (type : Ty)
    (unbound : table.slot? root = some .unbound) :
    table.SameLinks (table.set root (.bound type)) := by
  intro placeholder next
  rw [slot?_set table root placeholder _ (lt_size_of_slot? unbound)]
  split
  · next same => simp [same, unbound]
  · rfl

theorem links_set_bound {table : Table} {root : Placeholder} (type : Ty)
    (unbound : table.slot? root = some .unbound) :
    (table.set root (.bound type)).links = table.links := by
  simp [links_set (.bound type) unbound rfl, Slot.isLink]

/-! ## A link between two roots -/

section Link

variable {table : Table} {source target : Placeholder}

/-- A chain to the merged root goes one link further, and every other chain stays. -/
theorem Reaches.set_linked (inside : source.index < table.size) (sourceRoot : table.IsRoot source)
    (targetRoot : table.IsRoot target) (apart : source ≠ target) {steps : Nat}
    {placeholder root : Placeholder} (reaches : table.Reaches steps placeholder root) :
    (table.set source (.linked target)).Reaches
      (if root = source then steps + 1 else steps) placeholder
      (if root = source then target else root) := by
  have slots := fun other => table.slot?_set source other (.linked target) inside
  induction reaches with
  | @root placeholder isRoot =>
      by_cases merged : placeholder = source
      · rw [if_pos merged, if_pos merged]
        refine .step (by rw [slots, if_pos merged]) (.root fun next => ?_)
        rw [slots, if_neg apart.symm]
        exact targetRoot next
      · rw [if_neg merged, if_neg merged]
        refine .root ?_
        intro next
        rw [slots, if_neg merged]
        exact isRoot next
  | @step steps placeholder next root linked _ ih =>
      have away : placeholder ≠ source := fun same => sourceRoot next (same ▸ linked)
      have first : (table.set source (.linked target)).slot? placeholder = some (.linked next) := by
        rw [slots, if_neg away]
        exact linked
      have chain := Reaches.step first ih
      split at chain <;> split <;> first | contradiction | exact chain

theorem links_set_linked (inside : source.index < table.size) (sourceRoot : table.IsRoot source) :
    (table.set source (.linked target)).links = table.links + 1 := by
  cases found : table.slot? source with
  | none => exact absurd (slot?_eq_none_iff.mp found) (Nat.not_le.mpr inside)
  | some slot =>
      have notLink : slot.isLink = false := by
        cases slot with
        | linked next => exact absurd found (sourceRoot next)
        | _ => rfl
      simp [links_set _ found notLink, Slot.isLink]

theorem Forest.set_linked (forest : table.Forest) (inside : source.index < table.size)
    (sourceRoot : table.IsRoot source) (targetRoot : table.IsRoot target)
    (apart : source ≠ target) : (table.set source (.linked target)).Forest := by
  intro placeholder
  obtain ⟨steps, root, few, reaches⟩ := forest placeholder
  refine ⟨_, _, ?_, reaches.set_linked inside sourceRoot targetRoot apart⟩
  rw [links_set_linked inside sourceRoot]
  split <;> omega

theorem Forest.find_set_linked (forest : table.Forest) (inside : source.index < table.size)
    (sourceRoot : table.IsRoot source) (targetRoot : table.IsRoot target)
    (apart : source ≠ target) (placeholder : Placeholder) :
    (table.set source (.linked target)).find placeholder =
      if table.find placeholder = source then target else table.find placeholder := by
  obtain ⟨_, _, reaches⟩ := forest.exists_reaches placeholder
  exact (forest.set_linked inside sourceRoot targetRoot apart).find_eq
    (reaches.set_linked inside sourceRoot targetRoot apart)

end Link

/-! ## What binding, merging and a constraint do -/

theorem bind_of_unbound {table : Table} {placeholder : Placeholder} (type : Ty)
    (unbound : table.slot? (table.find placeholder) = some .unbound) :
    table.bind placeholder type = table.set (table.find placeholder) (.bound type) := by
  simp only [bind, unbound]

theorem bind_of_not_unbound {table : Table} {placeholder : Placeholder} (type : Ty)
    (settled : table.slot? (table.find placeholder) ≠ some .unbound) :
    table.bind placeholder type = table := by
  unfold bind
  split
  · contradiction
  · rfl

theorem link_of_find_eq {table : Table} {source target : Placeholder}
    (same : table.find source = table.find target) : table.link source target = table :=
  if_pos same

theorem Forest.bind {table : Table} (forest : table.Forest) (placeholder : Placeholder)
    (type : Ty) : (table.bind placeholder type).Forest := by
  by_cases unbound : table.slot? (table.find placeholder) = some .unbound
  · rw [bind_of_unbound type unbound]
    exact forest.of_sameLinks (sameLinks_set_bound type unbound) (links_set_bound type unbound)
  · rw [bind_of_not_unbound type unbound]
    exact forest

theorem Forest.find_bind {table : Table} (forest : table.Forest) (bound : Placeholder) (type : Ty)
    (placeholder : Placeholder) :
    (table.bind bound type).find placeholder = table.find placeholder := by
  by_cases unbound : table.slot? (table.find bound) = some .unbound
  · rw [bind_of_unbound type unbound]
    exact forest.find_of_sameLinks (sameLinks_set_bound type unbound)
      (links_set_bound type unbound) placeholder
  · rw [bind_of_not_unbound type unbound]

theorem Forest.link {table : Table} (forest : table.Forest) (source target : Placeholder) :
    (table.link source target).Forest := by
  unfold Table.link
  split
  · exact forest
  · next apart =>
      by_cases inside : (table.find source).index < table.size
      · exact forest.set_linked inside (forest.isRoot_find source) (forest.isRoot_find target) apart
      · rw [set_of_size_le (Nat.not_lt.mp inside)]
        exact forest

theorem Forest.find_link {table : Table} (forest : table.Forest) {source : Placeholder}
    (target : Placeholder) (inside : (table.find source).index < table.size)
    (placeholder : Placeholder) :
    (table.link source target).find placeholder =
      if table.find placeholder = table.find source then table.find target
      else table.find placeholder := by
  unfold Table.link
  split
  · next same =>
      split
      · next found => rw [found, same]
      · rfl
  · next apart =>
      exact forest.find_set_linked inside (forest.isRoot_find source) (forest.isRoot_find target)
        apart placeholder

theorem Forest.require {table : Table} (forest : table.Forest) (constraint : Constraint) :
    (table.require constraint).Forest := by
  unfold Table.require
  split
  · exact forest
  · exact forest.bind _ _
  · exact forest.bind _ _
  · exact forest.link _ _

theorem Forest.unify {table : Table} (forest : table.Forest) (constraints : List Constraint) :
    (table.unify constraints).Forest := by
  induction constraints generalizing table with
  | nil => exact forest
  | cons first rest ih => exact ih (forest.require first)

end Table

end SmallLang
