import SmallLang.Proofs.Table.Growth

/-!
# A sweep is final

What a sweep makes of a term depends on nothing but what was known of it before, and a type that was
known stays. So every constraint is honored from the moment it was taken into account: both of its
sides are known alike, or they are two types that disagree for good. A constraint that is honored
changes nothing when it comes up again.
-/

set_option autoImplicit false

namespace SmallLang.Table

variable {table : Table} {constraint : Constraint} {constraints : List Constraint}

/-- The tables that placeholders and sweeps lead to, with constraints on placeholders that are there
already. -/
inductive Built : Table → Prop where
  | empty : Built .empty
  | grow {table : Table} : Built table → Built table.grow
  | unify {table : Table} {constraints : List Constraint} : Built table →
      (∀ constraint ∈ constraints, constraint.Within table.size) → Built (table.unify constraints)

theorem sound_empty : empty.Sound where
  forest := forest_empty
  find_lt _ inside := absurd inside (Nat.not_lt_zero _)

theorem Built.sound (built : table.Built) : table.Sound := by
  induction built with
  | empty => exact sound_empty
  | grow _ ih => exact ih.grow
  | unify _ within ih => exact ih.unify _ within

/-! ## Honored constraints -/

/-- Both sides of a constraint are known alike, or both to be types. -/
def Honors (table : Table) (constraint : Constraint) : Prop :=
  table.resolve constraint.left = table.resolve constraint.right ∨
    (table.resolve constraint.left).isPending = false ∧
      (table.resolve constraint.right).isPending = false

/-- An honored constraint changes nothing. -/
theorem require_of_honors (honors : table.Honors constraint) :
    table.require constraint = table := by
  unfold require
  cases left : table.resolve constraint.left with
  | concrete type =>
      cases right : table.resolve constraint.right with
      | concrete other => rfl
      | pending root => simp [Honors, left, right, Term.isPending] at honors
  | pending root =>
      cases right : table.resolve constraint.right with
      | concrete type => simp [Honors, left, right, Term.isPending] at honors
      | pending other =>
          have same : root = other := by simpa [Honors, left, right, Term.isPending] using honors
          simp only [same]
          exact link_of_find_eq rfl

theorem unify_of_honors (honors : ∀ constraint ∈ constraints, table.Honors constraint) :
    table.unify constraints = table := by
  induction constraints with
  | nil => rfl
  | cons first rest ih =>
      have here : table.require first = table := require_of_honors (honors first (by simp))
      change (table.require first).unify rest = table
      rw [here]
      exact ih fun constraint present => honors constraint (by simp [present])

/-- Where a constraint is about something open, both of its sides are known alike afterwards. -/
theorem Sound.resolve_require_eq (sound : table.Sound) (inside : constraint.Within table.size) :
    ((table.resolve constraint.left).isPending = false ∧
      (table.resolve constraint.right).isPending = false ∧ table.require constraint = table) ∨
    (table.require constraint).resolve constraint.left =
      (table.require constraint).resolve constraint.right := by
  obtain known | ⟨root, opened, known, ties, open_, changes⟩ :=
    sound.forest.resolve_require constraint (sound.roots_lt inside)
  · exact .inl known
  · have agree : (table.require constraint).resolve opened =
        (table.require constraint).resolve known := by
      rw [changes, changes, open_, Term.replace_self]
      exact if_pos rfl
    rcases ties with present | present <;> cases List.mem_singleton.mp present
    · exact .inr agree
    · exact .inr agree.symm

/-- A constraint that is taken into account is honored. -/
theorem Sound.honors_require (sound : table.Sound) (inside : constraint.Within table.size) :
    (table.require constraint).Honors constraint := by
  obtain ⟨left, right, same⟩ | agree := sound.resolve_require_eq inside
  · rw [same]
    exact .inr ⟨left, right⟩
  · exact .inl agree

/-- A constraint that is honored stays so over a sweep. -/
theorem Sound.honors_unify_of_honors (sound : table.Sound)
    (within : ∀ constraint ∈ constraints, constraint.Within table.size)
    (honors : table.Honors constraint) : (table.unify constraints).Honors constraint := by
  obtain ⟨change, known, changes⟩ := sound.resolve_unify constraints within
  have closed : ∀ {term : Term}, (table.resolve term).isPending = false →
      ((table.unify constraints).resolve term).isPending = false := by
    intro term isType
    cases found : table.resolve term with
    | concrete type => rw [changes, found, known]; rfl
    | pending root => rw [found] at isType; cases isType
  rcases honors with same | ⟨left, right⟩
  · exact .inl (by rw [changes, changes, same])
  · exact .inr ⟨closed left, closed right⟩

/-- A sweep honors all of its constraints. -/
theorem Sound.honors_unify (sound : table.Sound)
    (within : ∀ constraint ∈ constraints, constraint.Within table.size) :
    ∀ constraint ∈ constraints, (table.unify constraints).Honors constraint := by
  induction constraints generalizing table with
  | nil => simp
  | cons first rest ih =>
      obtain ⟨inside, within⟩ := List.forall_mem_cons.mp within
      have later : (table.require first).Sound := sound.require inside
      have within' : ∀ constraint ∈ rest, constraint.Within (table.require first).size := by
        simpa using within
      intro constraint present
      rcases List.mem_cons.mp present with rfl | present
      · exact later.honors_unify_of_honors within' (sound.honors_require inside)
      · exact ih later within' constraint present

/-! ## The law of sweeps -/

/-- A sweep takes back nothing that was known: types stay, and terms that were known alike are known
alike. It leaves nothing to be found either: after it, its constraints change no slot, whichever of
them are taken into account again, and in whatever order. -/
theorem unify_final (built : table.Built)
    (within : ∀ constraint ∈ constraints, constraint.Within table.size) :
    (∀ term type, table.resolve term = .concrete type →
      (table.unify constraints).resolve term = .concrete type) ∧
    (∀ first second : Term, table.resolve first = table.resolve second →
      (table.unify constraints).resolve first = (table.unify constraints).resolve second) ∧
    (∀ first second : Placeholder, table.find first = table.find second →
      (table.unify constraints).resolve (.pending first) =
        (table.unify constraints).resolve (.pending second)) ∧
    ∀ again ⊆ constraints, (table.unify constraints).unify again = table.unify constraints := by
  have sound : table.Sound := built.sound
  obtain ⟨change, known, changes⟩ := sound.resolve_unify constraints within
  refine ⟨?_, ?_, ?_, ?_⟩
  · intro term type found
    rw [changes, found, known]
  · intro first second same
    rw [changes, changes, same]
  · intro first second same
    rw [changes, changes, resolve_pending, resolve_pending, same]
  · intro again subset
    refine unify_of_honors ?_
    intro constraint present
    exact sound.honors_unify within constraint (subset present)

namespace Conflict

/-- Two placeholders that are an integer, and two that are open. -/
def start : Table :=
  empty.grow.grow.grow.grow.unify
    [⟨.pending ⟨0⟩, .pending ⟨1⟩⟩, ⟨.pending ⟨1⟩, .concrete .int⟩]

/-- The integer is to be a float, and the others are to be like it. -/
def demands : List Constraint :=
  [⟨.pending ⟨0⟩, .concrete .float⟩, ⟨.pending ⟨2⟩, .pending ⟨1⟩⟩, ⟨.pending ⟨3⟩, .pending ⟨2⟩⟩]

end Conflict

open Conflict in
/-- The float comes too late, also when the constraints come up again from the last to the first. -/
theorem unify_final_conflict :
    start.Built ∧ (∀ constraint ∈ demands, constraint.Within start.size) ∧
      (start.unify demands).resolve (.pending ⟨1⟩) = .concrete .int ∧
      (start.unify demands).resolve (.pending ⟨0⟩) =
        (start.unify demands).resolve (.pending ⟨1⟩) ∧
      (start.unify demands).unify demands.reverse = start.unify demands := by
  have built : start.Built := .unify (.grow (.grow (.grow (.grow .empty)))) (by decide)
  have within : ∀ constraint ∈ demands, constraint.Within start.size := by decide
  obtain ⟨types, alike, _, fixed⟩ := unify_final built within
  refine ⟨built, within, ?_, ?_, ?_⟩
  · exact types _ _ (by decide)
  · exact alike _ _ (by decide)
  · exact fixed _ (List.reverse_subset.mpr (List.Subset.refl _))

end SmallLang.Table
