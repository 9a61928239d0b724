import SmallLang.Proofs.Table.Sweep

/-!
# Links never close a circle

Whatever is asked of a new table, and also where constraints mention placeholders that have no slot
yet, the links form a forest. So following them comes to an end from everywhere, at a placeholder
that is not linked. A placeholder without a slot can be the end of links; it gets an open slot
later, which is an end as well. A slot that is bound to a type is never written again.
-/

set_option autoImplicit false

namespace SmallLang.Table

/-- What can be asked of a table that changes it. -/
inductive Request where
  | fresh
  | unify (constraints : List Constraint)

/-- The table after a request. -/
def answer (table : Table) : Request → Table
  | .fresh => table.grow
  | .unify constraints => table.unify constraints

/-- The table after some requests, one after the other. -/
def afterRequests (table : Table) (requests : List Request) : Table := requests.foldl answer table

/-- A link leads from one placeholder to another. -/
def LinksTo (table : Table) (placeholder next : Placeholder) : Prop :=
  table.slot? placeholder = some (.linked next)

variable {table : Table}

/-! ## Links -/

theorem Forest.answer (forest : table.Forest) (request : Request) :
    (table.answer request).Forest := by
  cases request with
  | fresh => exact forest.grow
  | unify constraints => exact forest.unify constraints

theorem Forest.afterRequests (requests : List Request) : ∀ {table : Table}, table.Forest →
    (table.afterRequests requests).Forest := by
  induction requests with
  | nil => exact id
  | cons first rest ih => exact fun forest => ih (forest.answer first)

/-- No link leads away from a root, and from any other placeholder there is one link only. -/
theorem Reaches.acc {steps : Nat} {placeholder root : Placeholder}
    (reaches : table.Reaches steps placeholder root) :
    Acc (fun next placeholder => table.LinksTo placeholder next) placeholder := by
  induction reaches with
  | root isRoot => exact ⟨_, fun next linked => absurd linked (isRoot next)⟩
  | step linked _ ih =>
      refine ⟨_, fun other linked' => ?_⟩
      have same := linked.symm.trans linked'
      cases same
      exact ih

/-- There is no infinite chain of links, and so no circle. -/
theorem Forest.wellFounded (forest : table.Forest) :
    WellFounded fun next placeholder => table.LinksTo placeholder next := by
  constructor
  intro placeholder
  obtain ⟨_, _, _, reaches⟩ := forest placeholder
  exact reaches.acc

/-! ## Types -/

/-- Each slot that is bound to a type is bound to this type in another table too. -/
def KeepsTypes (table table' : Table) : Prop :=
  ∀ placeholder type, table.slot? placeholder = some (.bound type) →
    table'.slot? placeholder = some (.bound type)

theorem KeepsTypes.refl (table : Table) : table.KeepsTypes table := fun _ _ => id

theorem KeepsTypes.trans {table' table'' : Table} (first : table.KeepsTypes table')
    (second : table'.KeepsTypes table'') : table.KeepsTypes table'' :=
  fun placeholder type bound => second placeholder type (first placeholder type bound)

theorem keepsTypes_grow (table : Table) : table.KeepsTypes table.grow := by
  intro placeholder type bound
  have old : placeholder ≠ table.next := by
    rintro rfl
    exact Nat.lt_irrefl _ (lt_size_of_slot? bound)
  rw [slot?_grow, if_neg old]
  exact bound

/-- A slot may be written as long as it is not bound. -/
theorem keepsTypes_set {written : Placeholder} (slot : Slot)
    (notBound : ∀ type, table.slot? written ≠ some (.bound type)) :
    table.KeepsTypes (table.set written slot) := by
  intro placeholder type bound
  by_cases inside : written.index < table.size
  · have other : placeholder ≠ written := fun same => notBound type (same ▸ bound)
    rw [slot?_set _ _ _ _ inside, if_neg other]
    exact bound
  · rw [set_of_size_le (Nat.not_lt.mp inside)]
    exact bound

theorem keepsTypes_bind (table : Table) (placeholder : Placeholder) (type : Ty) :
    table.KeepsTypes (table.bind placeholder type) := by
  by_cases unbound : table.slot? (table.find placeholder) = some .unbound
  · rw [bind_of_unbound type unbound]
    exact keepsTypes_set _ fun other => by simp [unbound]
  · rw [bind_of_not_unbound type unbound]
    exact .refl table

/-- Only classes that are open are merged into others. -/
theorem keepsTypes_link {source : Placeholder} (target : Placeholder)
    (opened : ∀ type, table.slot? (table.find source) ≠ some (.bound type)) :
    table.KeepsTypes (table.link source target) := by
  unfold link
  split
  · exact .refl table
  · exact keepsTypes_set _ opened

theorem Forest.keepsTypes_require (forest : table.Forest) (constraint : Constraint) :
    table.KeepsTypes (table.require constraint) := by
  unfold Table.require
  split
  · exact .refl table
  · exact keepsTypes_bind table _ _
  · exact keepsTypes_bind table _ _
  · next source target opened _ =>
      obtain ⟨self, notBound⟩ := forest.find_of_resolve opened
      exact keepsTypes_link target (self.symm ▸ notBound)

theorem Forest.keepsTypes_unify (constraints : List Constraint) : ∀ {table : Table},
    table.Forest → table.KeepsTypes (table.unify constraints) := by
  induction constraints with
  | nil => exact fun _ => .refl _
  | cons first rest ih =>
      exact fun forest => (forest.keepsTypes_require first).trans (ih (forest.require first))

theorem Forest.keepsTypes_answer (forest : table.Forest) (request : Request) :
    table.KeepsTypes (table.answer request) := by
  cases request with
  | fresh => exact keepsTypes_grow table
  | unify constraints => exact forest.keepsTypes_unify constraints

theorem Forest.keepsTypes_afterRequests (requests : List Request) : ∀ {table : Table},
    table.Forest → table.KeepsTypes (table.afterRequests requests) := by
  induction requests with
  | nil => exact fun _ => .refl _
  | cons first rest ih =>
      exact fun forest => (forest.keepsTypes_answer first).trans (ih (forest.answer first))

/-! ## The law of links -/

/-- Whatever has been asked of a new table, there is no infinite chain of links. From each
placeholder, with a slot or without one, the links lead in a bounded number of steps to the one that
represents it and to no other one; that one is not linked, and represents itself. A slot that is
bound to a type stays so, whatever is asked of the table from then on. -/
theorem links_end (requests : List Request) :
    (WellFounded fun next placeholder =>
      (empty.afterRequests requests).LinksTo placeholder next) ∧
    (∀ placeholder,
      (∃ steps, steps ≤ (empty.afterRequests requests).size ∧
        (empty.afterRequests requests).Reaches steps placeholder
          ((empty.afterRequests requests).find placeholder)) ∧
      (∀ steps root, (empty.afterRequests requests).Reaches steps placeholder root →
        root = (empty.afterRequests requests).find placeholder) ∧
      (empty.afterRequests requests).IsRoot ((empty.afterRequests requests).find placeholder) ∧
      (empty.afterRequests requests).find ((empty.afterRequests requests).find placeholder) =
        (empty.afterRequests requests).find placeholder) ∧
    ∀ later, (empty.afterRequests requests).KeepsTypes
      ((empty.afterRequests requests).afterRequests later) := by
  have forest : (empty.afterRequests requests).Forest := forest_empty.afterRequests requests
  refine ⟨forest.wellFounded, fun placeholder => ⟨?_, ?_, ?_, ?_⟩, ?_⟩
  · obtain ⟨steps, few, reaches⟩ := forest.exists_reaches placeholder
    exact ⟨steps, Nat.le_trans few (links_le_size _), reaches⟩
  · exact fun _ _ reaches => (forest.find_eq reaches).symm
  · exact forest.isRoot_find placeholder
  · exact forest.find_find placeholder
  · exact fun later => forest.keepsTypes_afterRequests later

namespace Early

/-- The first placeholder is linked to one without a slot, which gets its slot after that, and is
then asked to be like the first one. -/
def requests : List Request :=
  [.fresh, .unify [⟨.pending ⟨0⟩, .pending ⟨2⟩⟩], .fresh,
    .unify [⟨.pending ⟨1⟩, .concrete .bool⟩], .fresh,
    .unify [⟨.pending ⟨2⟩, .pending ⟨0⟩⟩, ⟨.pending ⟨7⟩, .pending ⟨0⟩⟩]]

/-- Types that come too late for the placeholder in the middle. -/
def later : List Request :=
  [.unify [⟨.pending ⟨1⟩, .concrete .int⟩, ⟨.pending ⟨0⟩, .concrete .float⟩], .fresh]

end Early

open Early in
/-- The link to the placeholder that had no slot leads nowhere else. -/
theorem links_end_early :
    (empty.afterRequests requests).slots = #[.linked ⟨2⟩, .bound .bool, .unbound] ∧
      (∃ steps, steps ≤ 3 ∧ (empty.afterRequests requests).Reaches steps ⟨0⟩ ⟨2⟩) ∧
      (empty.afterRequests requests).find ⟨7⟩ = ⟨7⟩ ∧
      ((empty.afterRequests requests).afterRequests later).slot? ⟨1⟩ = some (.bound .bool) := by
  obtain ⟨_, ends, keeps⟩ := links_end requests
  exact ⟨by decide, (ends ⟨0⟩).1, by decide, keeps later _ _ (by decide)⟩

end SmallLang.Table
