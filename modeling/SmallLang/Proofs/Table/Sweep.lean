import Mathlib.Logic.Relation
import SmallLang.Proofs.Table.Forest

/-!
# The sweep

One pass over the constraints finds all that they say. A placeholder is resolved exactly when
a chain of constraints leads from it to a type, and open placeholders share a representative
exactly when such a chain connects them. The order of the constraints decides at most which
of several types a class gets, and only where no assignment satisfies them all.
-/

set_option autoImplicit false

namespace SmallLang

/-- Whether a term can be looked up in a table of so many placeholders. -/
def Term.Within (count : Nat) : Term → Prop
  | .concrete _ => True
  | .pending placeholder => placeholder.index < count

instance (count : Nat) (term : Term) : Decidable (term.Within count) :=
  match term with
  | .concrete _ => inferInstanceAs (Decidable True)
  | .pending placeholder => inferInstanceAs (Decidable (placeholder.index < count))

/-- Puts a term for a placeholder. -/
def Term.replace (term : Term) (replaced : Placeholder) (replacement : Term) : Term :=
  match term with
  | .concrete type => .concrete type
  | .pending placeholder => if placeholder = replaced then replacement else .pending placeholder

theorem Term.replace_pending (placeholder replaced : Placeholder) (replacement : Term) :
    (Term.pending placeholder).replace replaced replacement =
      if placeholder = replaced then replacement else .pending placeholder := rfl

theorem Term.replace_self (term : Term) (replaced : Placeholder) :
    term.replace replaced term = term := by
  cases term with
  | concrete _ => rfl
  | pending placeholder => simp [replace_pending]

theorem Term.isPending_replace {term replacement : Term} {replaced : Placeholder}
    (known : term.isPending = false) : (term.replace replaced replacement).isPending = false := by
  cases term with
  | concrete _ => rfl
  | pending _ => cases known

/-- What a term stands for when every placeholder stands for a type. -/
def Term.under (assignment : Placeholder → Ty) : Term → Ty
  | .concrete type => type
  | .pending placeholder => assignment placeholder

/-- Both sides can be looked up in a table of so many placeholders. -/
def Constraint.Within (count : Nat) (constraint : Constraint) : Prop :=
  constraint.left.Within count ∧ constraint.right.Within count

instance (count : Nat) (constraint : Constraint) : Decidable (constraint.Within count) :=
  inferInstanceAs (Decidable (_ ∧ _))

namespace Constraint

/-- A constraint ties two terms, in either order. -/
def Ties (constraints : List Constraint) (first second : Term) : Prop :=
  ⟨first, second⟩ ∈ constraints ∨ ⟨second, first⟩ ∈ constraints

/-- A chain of constraints leads from a placeholder, through placeholders, to a type. -/
inductive LeadsTo (constraints : List Constraint) : Placeholder → Ty → Prop where
  | last {placeholder type} :
      Ties constraints (.pending placeholder) (.concrete type) →
      LeadsTo constraints placeholder type
  | next {placeholder next type} :
      Ties constraints (.pending placeholder) (.pending next) →
      LeadsTo constraints next type → LeadsTo constraints placeholder type

/-- A chain of constraints connects two placeholders. -/
def Connected (constraints : List Constraint) : Placeholder → Placeholder → Prop :=
  Relation.ReflTransGen fun first second => Ties constraints (.pending first) (.pending second)

/-- Both sides of every constraint stand for the same type. -/
def Satisfies (assignment : Placeholder → Ty) (constraints : List Constraint) : Prop :=
  ∀ constraint ∈ constraints,
    constraint.left.under assignment = constraint.right.under assignment

variable {constraints more : List Constraint}

theorem Ties.symm {first second : Term} (ties : Ties constraints first second) :
    Ties constraints second first :=
  Or.symm ties

theorem Ties.mono {first second : Term} (ties : Ties constraints first second)
    (subset : constraints ⊆ more) : Ties more first second :=
  ties.imp (subset ·) (subset ·)

theorem LeadsTo.mono {placeholder : Placeholder} {type : Ty}
    (leads : LeadsTo constraints placeholder type) (subset : constraints ⊆ more) :
    LeadsTo more placeholder type := by
  induction leads with
  | last ties => exact .last (ties.mono subset)
  | next ties _ ih => exact .next (ties.mono subset) ih

theorem Connected.mono {first second : Placeholder} (connected : Connected constraints first second)
    (subset : constraints ⊆ more) : Connected more first second :=
  Relation.ReflTransGen.mono (fun _ _ ties => Ties.mono ties subset) _ _ connected

theorem Connected.symm {first second : Placeholder}
    (connected : Connected constraints first second) : Connected constraints second first := by
  induction connected with
  | refl => exact .refl
  | tail _ ties ih => exact .head ties.symm ih

theorem Connected.leadsTo {first second : Placeholder} {type : Ty}
    (connected : Connected constraints first second) (leads : LeadsTo constraints second type) :
    LeadsTo constraints first type := by
  induction connected using Relation.ReflTransGen.head_induction_on with
  | refl => exact leads
  | head ties _ ih => exact .next ties ih

theorem Connected.within {count : Nat} {first second : Placeholder}
    (connected : Connected constraints first second)
    (within : ∀ constraint ∈ constraints, constraint.Within count) (start : first.index < count) :
    second.index < count := by
  cases connected with
  | refl => exact start
  | tail _ ties =>
      rcases ties with found | found
      · exact (within _ found).2
      · exact (within _ found).1

theorem LeadsTo.under_eq {assignment : Placeholder → Ty} {placeholder : Placeholder} {type : Ty}
    (satisfies : Satisfies assignment constraints) (leads : LeadsTo constraints placeholder type) :
    assignment placeholder = type := by
  have agree : ∀ {first second : Term}, Ties constraints first second →
      first.under assignment = second.under assignment := by
    intro first second ties
    rcases ties with found | found
    · exact satisfies _ found
    · exact (satisfies _ found).symm
  induction leads with
  | last ties => exact agree ties
  | next ties _ ih => exact (agree ties).trans ih

/-- A term that is a type already, or a placeholder from which a chain leads to one. -/
def TermLeadsTo (constraints : List Constraint) (type : Ty) : Term → Prop
  | .concrete other => other = type
  | .pending placeholder => LeadsTo constraints placeholder type

theorem TermLeadsTo.mono {term : Term} {type : Ty} (leads : TermLeadsTo constraints type term)
    (subset : constraints ⊆ more) : TermLeadsTo more type term := by
  cases term with
  | concrete _ => exact leads
  | pending _ => exact LeadsTo.mono leads subset

theorem TermLeadsTo.of_ties {term : Term} {placeholder : Placeholder} {type : Ty}
    (leads : TermLeadsTo constraints type term)
    (ties : Ties constraints (.pending placeholder) term) :
    LeadsTo constraints placeholder type := by
  cases term with
  | concrete other =>
      cases leads
      exact .last ties
  | pending next => exact .next ties leads

theorem TermLeadsTo.under_eq {assignment : Placeholder → Ty} {term : Term} {type : Ty}
    (satisfies : Satisfies assignment constraints) (leads : TermLeadsTo constraints type term) :
    term.under assignment = type := by
  cases term with
  | concrete _ => exact leads
  | pending _ => exact LeadsTo.under_eq satisfies leads

end Constraint

namespace Table

open Constraint

/-- A table of placeholders of which nothing is known. -/
def unbound (count : Nat) : Table := ⟨Array.replicate count .unbound⟩

@[simp] theorem size_unbound (count : Nat) : (unbound count).size = count := Array.size_replicate

theorem grow_unbound (count : Nat) : (unbound count).grow = unbound (count + 1) := by
  simp [grow, unbound, Array.replicate_succ]

theorem slot?_unbound_ne_linked (count : Nat) (placeholder next : Placeholder) :
    (unbound count).slot? placeholder ≠ some (.linked next) := by
  simp [slot?, unbound, Array.getElem?_replicate]

theorem isRoot_unbound (count : Nat) (placeholder : Placeholder) :
    (unbound count).IsRoot placeholder :=
  slot?_unbound_ne_linked count placeholder

theorem forest_unbound (count : Nat) : (unbound count).Forest := fun placeholder =>
  ⟨0, placeholder, Nat.zero_le _, .root (isRoot_unbound count placeholder)⟩

theorem slot?_unbound_ne_bound (count : Nat) (placeholder : Placeholder) (type : Ty) :
    (unbound count).slot? placeholder ≠ some (.bound type) := by
  simp [slot?, unbound, Array.getElem?_replicate]

/-! ## Resolved terms -/

theorem resolve_pending (table : Table) (placeholder : Placeholder) :
    table.resolve (.pending placeholder) =
      match table.slot? (table.find placeholder) with
      | some (.bound type) => .concrete type
      | _ => .pending (table.find placeholder) := rfl

theorem resolve_pending_eq_concrete_iff {table : Table} {placeholder : Placeholder} {type : Ty} :
    table.resolve (.pending placeholder) = .concrete type ↔
      table.slot? (table.find placeholder) = some (.bound type) := by
  rw [resolve_pending]
  split <;> simp_all

theorem resolve_pending_eq_pending_iff {table : Table} {placeholder root : Placeholder} :
    table.resolve (.pending placeholder) = .pending root ↔
      table.find placeholder = root ∧ ∀ type, table.slot? root ≠ some (.bound type) := by
  rw [resolve_pending]
  split
  · next type bound =>
      refine ⟨nofun, fun ⟨same, notBound⟩ => absurd bound (same ▸ notBound type)⟩
  · next notBound =>
      rw [Term.pending.injEq]
      exact ⟨fun same => ⟨same, fun type bound => notBound type (same ▸ bound)⟩, And.left⟩

/-- A placeholder that an open term resolves to represents itself. -/
theorem Forest.find_of_resolve {table : Table} (forest : table.Forest) {term : Term}
    {root : Placeholder} (opened : table.resolve term = .pending root) :
    table.find root = root ∧ ∀ type, table.slot? root ≠ some (.bound type) := by
  cases term with
  | concrete _ => cases opened
  | pending placeholder =>
      obtain ⟨found, notBound⟩ := resolve_pending_eq_pending_iff.mp opened
      exact ⟨found ▸ forest.find_find placeholder, notBound⟩

theorem Forest.slot?_of_root {table : Table} (forest : table.Forest) {root : Placeholder}
    (inside : root.index < table.size) (self : table.find root = root)
    (notBound : ∀ type, table.slot? root ≠ some (.bound type)) :
    table.slot? root = some .unbound := by
  cases found : table.slot? root with
  | none => exact absurd (slot?_eq_none_iff.mp found) (Nat.not_le.mpr inside)
  | some slot =>
      cases slot with
      | unbound => rfl
      | bound type => exact absurd found (notBound type)
      | linked next =>
          have isRoot := forest.isRoot_find root
          rw [self] at isRoot
          exact absurd found (isRoot next)

/-- Binding a class changes what is known of its placeholders, and of no others. -/
theorem Forest.resolve_bind {table : Table} (forest : table.Forest) {root : Placeholder}
    (type : Ty) (self : table.find root = root) (unbound : table.slot? root = some .unbound)
    (term : Term) :
    (table.bind root type).resolve term = (table.resolve term).replace root (.concrete type) := by
  cases term with
  | concrete _ => rfl
  | pending placeholder =>
      have slots := slot?_set table root (table.find placeholder) (.bound type)
        (lt_size_of_slot? unbound)
      have bound : table.bind root type = table.set root (.bound type) := by
        rw [bind_of_unbound type (self.symm ▸ unbound), self]
      have found := forest.find_bind root type placeholder
      rw [bound] at found ⊢
      rw [resolve_pending, resolve_pending, found, slots]
      by_cases same : table.find placeholder = root
      · simp [same, unbound, Term.replace]
      · rw [if_neg same]
        split <;> simp [Term.replace, same]

/-- Merging two classes changes who represents the first, and nothing else. -/
theorem Forest.resolve_link {table : Table} (forest : table.Forest) {source target : Placeholder}
    (inside : source.index < table.size) (sourceSelf : table.find source = source)
    (targetSelf : table.find target = target)
    (sourceOpen : ∀ type, table.slot? source ≠ some (.bound type))
    (targetOpen : ∀ type, table.slot? target ≠ some (.bound type)) (term : Term) :
    (table.link source target).resolve term =
      (table.resolve term).replace source (.pending target) := by
  cases term with
  | concrete _ => rfl
  | pending placeholder =>
      have found := forest.find_link target (sourceSelf.symm ▸ inside) placeholder
      rw [sourceSelf, targetSelf] at found
      by_cases equal : source = target
      · subst equal
        rw [link_of_find_eq rfl]
        cases table.resolve (.pending placeholder) with
        | concrete _ => rfl
        | pending root => simp +contextual [Term.replace]
      · have slots := slot?_set table source (table.find placeholder) (.linked target) inside
        have targetSlot := slot?_set table source target (.linked target) inside
        have linked : table.link source target = table.set source (.linked target) := by
          rw [Table.link, sourceSelf, targetSelf, if_neg equal]
        rw [linked] at found ⊢
        rw [resolve_pending, resolve_pending, found]
        by_cases merged : table.find placeholder = source
        · rw [if_pos merged, targetSlot, if_neg (Ne.symm equal), merged]
          split
          · next type bound => exact absurd bound (targetOpen type)
          · simp [Term.replace]
        · rw [if_neg merged, slots, if_neg merged]
          split <;> simp [Term.replace, merged]

/-- A constraint between two types changes nothing. Any other puts what is known of one side
for the placeholder that represents the other. -/
theorem Forest.resolve_require {table : Table} (forest : table.Forest) (constraint : Constraint)
    (inside : ∀ root, table.resolve constraint.left = .pending root ∨
      table.resolve constraint.right = .pending root → root.index < table.size) :
    ((table.resolve constraint.left).isPending = false ∧
      (table.resolve constraint.right).isPending = false ∧ table.require constraint = table) ∨
    ∃ root opened known, Ties [constraint] opened known ∧ table.resolve opened = .pending root ∧
      ∀ term, (table.require constraint).resolve term =
        (table.resolve term).replace root (table.resolve known) := by
  have unbound : ∀ {term root}, table.resolve term = .pending root → root.index < table.size →
      table.find root = root ∧ table.slot? root = some .unbound := by
    intro term root opened within
    obtain ⟨self, notBound⟩ := forest.find_of_resolve opened
    exact ⟨self, forest.slot?_of_root within self notBound⟩
  cases left : table.resolve constraint.left with
  | concrete type =>
      cases right : table.resolve constraint.right with
      | concrete other => exact .inl ⟨rfl, rfl, by simp only [Table.require, left, right]⟩
      | pending root =>
          obtain ⟨self, slot⟩ := unbound right (inside root (.inr right))
          refine .inr ⟨root, constraint.right, constraint.left, .inr (.head _), right, ?_⟩
          intro term
          simp only [Table.require, left, right]
          exact forest.resolve_bind type self slot term
  | pending source =>
      obtain ⟨self, slot⟩ := unbound left (inside source (.inl left))
      refine .inr ⟨source, constraint.left, constraint.right, .inl (.head _), left, ?_⟩
      intro term
      cases right : table.resolve constraint.right with
      | concrete type =>
          simp only [Table.require, left, right]
          exact forest.resolve_bind type self slot term
      | pending target =>
          obtain ⟨targetSelf, targetOpen⟩ := forest.find_of_resolve right
          simp only [Table.require, left, right]
          exact forest.resolve_link (lt_size_of_slot? slot) self targetSelf
            (by simp [slot]) targetOpen term

@[simp] theorem size_bind (table : Table) (placeholder : Placeholder) (type : Ty) :
    (table.bind placeholder type).size = table.size := by
  unfold bind
  split <;> simp

@[simp] theorem size_link (table : Table) (source target : Placeholder) :
    (table.link source target).size = table.size := by
  unfold link
  split <;> simp

@[simp] theorem size_require (table : Table) (constraint : Constraint) :
    (table.require constraint).size = table.size := by
  unfold require
  split <;> simp

/-! ## The invariant of the sweep -/

/-- What holds of placeholders of which nothing was known, once some constraints have been
taken into account: nothing is known but what chains of constraints say, and both sides of
each of these constraints are known alike, or both to be types. -/
structure Swept (count : Nat) (constraints : List Constraint) (table : Table) : Prop where
  forest : table.Forest
  size : table.size = count
  connected : ∀ {placeholder root}, table.resolve (.pending placeholder) = .pending root →
    Connected constraints placeholder root
  leadsTo : ∀ {placeholder type}, table.resolve (.pending placeholder) = .concrete type →
    LeadsTo constraints placeholder type
  settled : ∀ constraint ∈ constraints,
    table.resolve constraint.left = table.resolve constraint.right ∨
    (table.resolve constraint.left).isPending = false ∧
      (table.resolve constraint.right).isPending = false

theorem swept_unbound (count : Nat) : Swept count [] (unbound count) where
  forest := forest_unbound count
  size := size_unbound count
  connected opened := by
    obtain ⟨rfl, _⟩ := resolve_pending_eq_pending_iff.mp opened
    rw [find_of_isRoot (isRoot_unbound count _)]
    exact .refl
  leadsTo known :=
    absurd (resolve_pending_eq_concrete_iff.mp known) (slot?_unbound_ne_bound count _ _)
  settled := nofun

namespace Swept

variable {count : Nat} {constraints more : List Constraint} {table : Table}

/-- The chain behind what is known of a term. -/
theorem termLeadsTo (swept : Swept count constraints table) {term : Term} {type : Ty}
    (known : table.resolve term = .concrete type) : TermLeadsTo constraints type term := by
  cases term with
  | concrete other => exact Term.concrete.inj known
  | pending placeholder => exact swept.leadsTo known

theorem root_lt (swept : Swept count constraints table)
    (within : ∀ constraint ∈ constraints, constraint.Within count) {term : Term}
    {root : Placeholder} (inside : term.Within count)
    (opened : table.resolve term = .pending root) :
    root.index < table.size := by
  cases term with
  | concrete _ => cases opened
  | pending placeholder => exact swept.size ▸ (swept.connected opened).within within inside

/-- A new tie from an open class connects the class to what is known of its other side. -/
theorem connected_of_ties (swept : Swept count constraints table) (old : constraints ⊆ more)
    {first second : Term} {placeholder source target : Placeholder} (ties : Ties more first second)
    (opened : table.resolve (.pending placeholder) = .pending source)
    (left : table.resolve first = .pending source)
    (right : table.resolve second = .pending target) : Connected more placeholder target := by
  cases first with
  | concrete _ => cases left
  | pending first =>
      cases second with
      | concrete _ => cases right
      | pending second =>
          have forth : Connected constraints placeholder first :=
            (swept.connected opened).trans (swept.connected left).symm
          exact (forth.mono old).trans (.head ties ((swept.connected right).mono old))

theorem leadsTo_of_ties (swept : Swept count constraints table) (old : constraints ⊆ more)
    {first second : Term} {placeholder source : Placeholder} {type : Ty}
    (ties : Ties more first second)
    (opened : table.resolve (.pending placeholder) = .pending source)
    (left : table.resolve first = .pending source) (right : table.resolve second = .concrete type) :
    LeadsTo more placeholder type := by
  cases first with
  | concrete _ => cases left
  | pending first =>
      have forth : Connected constraints placeholder first :=
        (swept.connected opened).trans (swept.connected left).symm
      exact (forth.mono old).leadsTo (((swept.termLeadsTo right).mono old).of_ties ties)

/-- One more constraint keeps the invariant. -/
theorem require (swept : Swept count constraints table)
    (within : ∀ constraint ∈ constraints, constraint.Within count) (constraint : Constraint)
    (inside : constraint.Within count) :
    Swept count (constraints ++ [constraint]) (table.require constraint) := by
  have old : constraints ⊆ constraints ++ [constraint] := List.subset_append_left ..
  have new : [constraint] ⊆ constraints ++ [constraint] := List.subset_append_right ..
  have roots : ∀ root, table.resolve constraint.left = .pending root ∨
      table.resolve constraint.right = .pending root → root.index < table.size := by
    rintro root (opened | opened)
    · exact swept.root_lt within inside.1 opened
    · exact swept.root_lt within inside.2 opened
  rcases swept.forest.resolve_require constraint roots with
    ⟨left, right, same⟩ | ⟨root, opened, known, ties, open_, changes⟩
  · rw [same]
    exact {
      forest := swept.forest
      size := swept.size
      connected := fun found => (swept.connected found).mono old
      leadsTo := fun found => (swept.leadsTo found).mono old
      settled := fun other member => by
        rcases List.mem_append.mp member with earlier | last
        · exact swept.settled other earlier
        · cases List.mem_singleton.mp last
          exact .inr ⟨left, right⟩ }
  · have tied : Ties (constraints ++ [constraint]) opened known := ties.mono new
    have agree : (table.require constraint).resolve opened =
        (table.require constraint).resolve known := by
      rw [changes, changes, open_, Term.replace_self]
      exact if_pos rfl
    exact {
      forest := swept.forest.require constraint
      size := by rw [size_require, swept.size]
      connected := fun {placeholder target} found => by
        rw [changes] at found
        cases before : table.resolve (.pending placeholder) with
        | concrete type => rw [before] at found; cases found
        | pending source =>
            rw [before] at found
            by_cases same : source = root
            · rw [Term.replace_pending, if_pos same] at found
              exact swept.connected_of_ties old tied (same ▸ before) open_ found
            · rw [Term.replace_pending, if_neg same] at found
              cases found
              exact (swept.connected before).mono old
      leadsTo := fun {placeholder type} found => by
        rw [changes] at found
        cases before : table.resolve (.pending placeholder) with
        | concrete other =>
            rw [before] at found
            cases found
            exact (swept.leadsTo before).mono old
        | pending source =>
            rw [before] at found
            by_cases same : source = root
            · rw [Term.replace_pending, if_pos same] at found
              exact swept.leadsTo_of_ties old tied (same ▸ before) open_ found
            · rw [Term.replace_pending, if_neg same] at found
              cases found
      settled := fun other member => by
        rcases List.mem_append.mp member with earlier | last
        · rw [changes, changes]
          rcases swept.settled other earlier with same | ⟨left, right⟩
          · exact .inl (by rw [same])
          · exact .inr ⟨Term.isPending_replace left, Term.isPending_replace right⟩
        · cases List.mem_singleton.mp last
          rcases ties with member | member <;> cases List.mem_singleton.mp member
          · exact .inl agree
          · exact .inl agree.symm }

/-- A whole sweep keeps the invariant. -/
theorem unify (swept : Swept count constraints table) (rest : List Constraint)
    (within : ∀ constraint ∈ constraints ++ rest, constraint.Within count) :
    Swept count (constraints ++ rest) (table.unify rest) := by
  induction rest generalizing constraints table with
  | nil =>
      rw [List.append_nil]
      exact swept
  | cons first rest ih =>
      have step := swept.require (fun other member => within other (by simp [member])) first
        (within first (by simp))
      have whole := ih step (by simpa using within)
      rw [List.append_assoc] at whole
      exact whole

/-! ## What the invariant says of a swept table -/

theorem isPending_of_ties (swept : Swept count constraints table) {first second : Term}
    (ties : Ties constraints first second) :
    (table.resolve first).isPending = (table.resolve second).isPending := by
  rcases ties with member | member
  · rcases swept.settled _ member with same | ⟨left, right⟩
    · exact congrArg Term.isPending same
    · exact left.trans right.symm
  · rcases swept.settled _ member with same | ⟨left, right⟩
    · exact congrArg Term.isPending same.symm
    · exact right.trans left.symm

theorem isPending_of_leadsTo (swept : Swept count constraints table) {placeholder : Placeholder}
    {type : Ty} (leads : LeadsTo constraints placeholder type) :
    (table.resolve (.pending placeholder)).isPending = false := by
  induction leads with
  | last ties => exact swept.isPending_of_ties ties
  | next ties _ ih => exact (swept.isPending_of_ties ties).trans ih

theorem resolve_of_connected (swept : Swept count constraints table) {first second : Placeholder}
    (connected : Connected constraints first second)
    (opened : (table.resolve (.pending first)).isPending = true) :
    table.resolve (.pending first) = table.resolve (.pending second) := by
  induction connected using Relation.ReflTransGen.head_induction_on with
  | refl => rfl
  | head ties _ ih =>
      have next := (swept.isPending_of_ties ties).symm.trans opened
      refine Eq.trans ?_ (ih next)
      rcases ties with member | member
      · rcases swept.settled _ member with same | ⟨left, _⟩
        · exact same
        · exact absurd opened (by simp [left])
      · rcases swept.settled _ member with same | ⟨_, right⟩
        · exact same.symm
        · exact absurd opened (by simp [right])

/-- A placeholder is resolved exactly when a chain leads from it to a type. -/
theorem exists_resolve_iff (swept : Swept count constraints table) (placeholder : Placeholder) :
    (∃ type, table.resolve (.pending placeholder) = .concrete type) ↔
      ∃ type, LeadsTo constraints placeholder type := by
  constructor
  · rintro ⟨type, known⟩
    exact ⟨type, swept.leadsTo known⟩
  · rintro ⟨type, leads⟩
    have settled := swept.isPending_of_leadsTo leads
    cases found : table.resolve (.pending placeholder) with
    | concrete known => exact ⟨known, rfl⟩
    | pending root => rw [found] at settled; cases settled

/-- Open placeholders share a representative exactly when a chain connects them. -/
theorem find_eq_find_iff (swept : Swept count constraints table) {first second : Placeholder}
    (firstOpen : (table.resolve (.pending first)).isPending = true)
    (secondOpen : (table.resolve (.pending second)).isPending = true) :
    table.find first = table.find second ↔ Connected constraints first second := by
  have opened : ∀ {placeholder}, (table.resolve (.pending placeholder)).isPending = true →
      table.resolve (.pending placeholder) = .pending (table.find placeholder) := by
    intro placeholder pending
    cases found : table.resolve (.pending placeholder) with
    | concrete _ => rw [found] at pending; cases pending
    | pending root => rw [(resolve_pending_eq_pending_iff.mp found).1]
  constructor
  · intro same
    have forth := swept.connected (opened firstOpen)
    rw [same] at forth
    exact forth.trans (swept.connected (opened secondOpen)).symm
  · intro connected
    have same := swept.resolve_of_connected connected firstOpen
    rw [opened firstOpen, opened secondOpen] at same
    exact Term.pending.inj same

/-- Where an assignment satisfies the constraints, what is known is what it assigns. -/
theorem under_of_resolve (swept : Swept count constraints table) {assignment : Placeholder → Ty}
    (satisfies : Satisfies assignment constraints) {term : Term} {type : Ty}
    (known : table.resolve term = .concrete type) : term.under assignment = type :=
  (swept.termLeadsTo known).under_eq satisfies

/-- Where an assignment satisfies the constraints, both sides of each are known alike. -/
theorem resolve_eq_of_satisfies (swept : Swept count constraints table)
    {assignment : Placeholder → Ty} (satisfies : Satisfies assignment constraints)
    {constraint : Constraint} (member : constraint ∈ constraints) :
    table.resolve constraint.left = table.resolve constraint.right := by
  rcases swept.settled constraint member with same | ⟨left, right⟩
  · exact same
  · cases leftKnown : table.resolve constraint.left with
    | pending _ => rw [leftKnown] at left; cases left
    | concrete first =>
        cases rightKnown : table.resolve constraint.right with
        | pending _ => rw [rightKnown] at right; cases right
        | concrete second =>
            rw [← swept.under_of_resolve satisfies leftKnown,
              ← swept.under_of_resolve satisfies rightKnown, satisfies constraint member]

end Swept

theorem swept_unify_unbound {count : Nat} {constraints : List Constraint}
    (within : ∀ constraint ∈ constraints, constraint.Within count) :
    Swept count constraints ((unbound count).unify constraints) :=
  (swept_unbound count).unify constraints within

theorem leadsTo_perm {constraints permuted : List Constraint} (perm : permuted.Perm constraints)
    {placeholder : Placeholder} {type : Ty} :
    LeadsTo permuted placeholder type ↔ LeadsTo constraints placeholder type :=
  ⟨fun leads => leads.mono perm.subset, fun leads => leads.mono perm.symm.subset⟩

/-- The single sweep over constraints on placeholders of which nothing is known misses
nothing. It resolves the placeholders from which a chain of constraints leads to a type, each
to the end of such a chain, and joins the others exactly along such chains. If some assignment
of types satisfies the constraints, both sides of each end up alike. So any other order
resolves the same placeholders, and to the same types if the constraints can be satisfied. -/
theorem unify_unbound_complete (count : Nat) (constraints : List Constraint)
    (within : ∀ constraint ∈ constraints, constraint.Within count) :
    (∀ placeholder : Placeholder, placeholder.index < count →
      ((∃ type, ((unbound count).unify constraints).resolve (.pending placeholder) =
          .concrete type) ↔ ∃ type, LeadsTo constraints placeholder type) ∧
      ∀ type, ((unbound count).unify constraints).resolve (.pending placeholder) =
        .concrete type → LeadsTo constraints placeholder type) ∧
    (∀ first second : Placeholder, first.index < count → second.index < count →
      (((unbound count).unify constraints).resolve (.pending first)).isPending = true →
      (((unbound count).unify constraints).resolve (.pending second)).isPending = true →
      (((unbound count).unify constraints).find first =
          ((unbound count).unify constraints).find second ↔
        Connected constraints first second)) ∧
    ((∃ assignment, Satisfies assignment constraints) → ∀ constraint ∈ constraints,
      ((unbound count).unify constraints).resolve constraint.left =
        ((unbound count).unify constraints).resolve constraint.right) ∧
    (∀ permuted : List Constraint, permuted.Perm constraints →
      (∀ placeholder : Placeholder, placeholder.index < count →
        ((∃ type, ((unbound count).unify permuted).resolve (.pending placeholder) =
            .concrete type) ↔
          ∃ type, ((unbound count).unify constraints).resolve (.pending placeholder) =
            .concrete type)) ∧
      ((∃ assignment, Satisfies assignment constraints) →
        ∀ placeholder : Placeholder, placeholder.index < count → ∀ type,
          (((unbound count).unify permuted).resolve (.pending placeholder) = .concrete type ↔
            ((unbound count).unify constraints).resolve (.pending placeholder) =
              .concrete type))) := by
  have swept := swept_unify_unbound within
  refine ⟨fun placeholder _ => ⟨swept.exists_resolve_iff placeholder, fun _ => swept.leadsTo⟩,
    fun first second _ _ => swept.find_eq_find_iff,
    fun ⟨_, satisfies⟩ _ => swept.resolve_eq_of_satisfies satisfies,
    fun permuted perm => ?_⟩
  have other : Swept count permuted ((unbound count).unify permuted) :=
    swept_unify_unbound fun constraint member => within constraint (perm.subset member)
  have resolved : ∀ placeholder : Placeholder,
      (∃ type, ((unbound count).unify permuted).resolve (.pending placeholder) =
          .concrete type) ↔
        ∃ type, ((unbound count).unify constraints).resolve (.pending placeholder) =
          .concrete type := by
    intro placeholder
    rw [other.exists_resolve_iff, swept.exists_resolve_iff]
    exact exists_congr fun _ => leadsTo_perm perm
  refine ⟨fun placeholder _ => resolved placeholder, ?_⟩
  rintro ⟨assignment, satisfies⟩ placeholder _ type
  have satisfied : Satisfies assignment permuted := fun constraint member =>
    satisfies constraint (perm.subset member)
  constructor
  · intro known
    obtain ⟨found, same⟩ := (resolved placeholder).mp ⟨type, known⟩
    rw [same, ← other.under_of_resolve satisfied known, swept.under_of_resolve satisfies same]
  · intro known
    obtain ⟨found, same⟩ := (resolved placeholder).mpr ⟨type, known⟩
    rw [same, ← swept.under_of_resolve satisfies known, other.under_of_resolve satisfied same]

/-- Three placeholders in a row of which the last is a float, and a fourth that is left open. -/
theorem unify_unbound_complete_chain :
    (∀ constraint ∈ [Constraint.mk (.pending ⟨0⟩) (.pending ⟨1⟩),
        ⟨.pending ⟨1⟩, .pending ⟨2⟩⟩, ⟨.concrete .float, .pending ⟨2⟩⟩], constraint.Within 4) ∧
    (∃ type, ((unbound 4).unify [⟨.pending ⟨0⟩, .pending ⟨1⟩⟩, ⟨.pending ⟨1⟩, .pending ⟨2⟩⟩,
      ⟨.concrete .float, .pending ⟨2⟩⟩]).resolve (.pending ⟨0⟩) = .concrete type) ∧
    ¬∃ type, LeadsTo [⟨.pending ⟨0⟩, .pending ⟨1⟩⟩, ⟨.pending ⟨1⟩, .pending ⟨2⟩⟩,
      ⟨.concrete .float, .pending ⟨2⟩⟩] ⟨3⟩ type := by
  have within : ∀ constraint ∈ [Constraint.mk (.pending ⟨0⟩) (.pending ⟨1⟩),
      ⟨.pending ⟨1⟩, .pending ⟨2⟩⟩, ⟨.concrete .float, .pending ⟨2⟩⟩], constraint.Within 4 := by
    decide
  have complete := (unify_unbound_complete 4 _ within).1
  refine ⟨within, ?_, ?_⟩
  · rw [(complete ⟨0⟩ (by decide)).1]
    exact ⟨.float, @LeadsTo.next _ ⟨0⟩ ⟨1⟩ _ (.inl (by decide))
      (@LeadsTo.next _ ⟨1⟩ ⟨2⟩ _ (.inl (by decide)) (.last (.inr (by decide))))⟩
  · rw [← (complete ⟨3⟩ (by decide)).1]
    have opened : ((unbound 4).unify [⟨.pending ⟨0⟩, .pending ⟨1⟩⟩, ⟨.pending ⟨1⟩, .pending ⟨2⟩⟩,
        ⟨.concrete .float, .pending ⟨2⟩⟩]).resolve (.pending ⟨3⟩) = .pending ⟨3⟩ := by
      decide
    rw [opened]
    rintro ⟨_, ⟨⟩⟩

end Table

end SmallLang
