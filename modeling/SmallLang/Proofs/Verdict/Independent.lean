import Mathlib.Data.List.Perm.Basic
import SmallLang.Proofs.Typing.Contexts
import SmallLang.Proofs.Verdict.Statements

/-!
# Independent checks

Checks none of which needs what another one finds can be made in any order. They end without a fatal
error in one order exactly if they do in every other one, and with the same complaints.
-/

set_option autoImplicit false

namespace SmallLang

namespace Check

variable {α β γ : Type} {related : α → β → Prop} {check : Check α} {check' : Check β}

/-- What a check finds if it goes on to its end. -/
def Finds (check : Check α) (found : Checked α) : Prop :=
  @Eq (Except Error (Checked α)) check (.ok found)

theorem finds_pure_iff {value : α} {found : Checked α} :
    Finds (pure value) found ↔ found = ⟨value, []⟩ := by
  constructor
  · rintro ⟨⟩
    rfl
  · rintro rfl
    rfl

theorem finds_bind_iff {first : Check α} {second : α → Check β} {found : Checked β} :
    Finds (first >>= second) found ↔ ∃ before after, first.Finds before ∧
      (second before.value).Finds after ∧
        found = ⟨after.value, before.reports ++ after.reports⟩ := by
  change andThen first second = _ ↔ _
  constructor
  · intro ends
    cases begins : first with
    | error error =>
        rw [begins] at ends
        cases ends
    | ok before =>
        rw [begins] at ends
        simp only [andThen] at ends
        cases continues : second before.value with
        | error error =>
            rw [continues] at ends
            cases ends
        | ok after =>
            rw [continues] at ends
            cases ends
            exact ⟨before, after, rfl, continues, rfl⟩
  · rintro ⟨before, after, begins, continues, rfl⟩
    obtain rfl : first = .ok before := begins
    simp only [andThen]
    rw [show second before.value = .ok after from continues]

/-- What the first of two checks ensures holds next to their relation. -/
theorem Agree.ensuring {property : α → Prop} (agree : Agree related check check')
    (ensures : Ensures check property) :
    Agree (fun value value' => related value value' ∧ property value) check check' := by
  cases check with
  | error error =>
      cases check' with
      | error error' => exact agree
      | ok found' => exact agree.elim
  | ok found =>
      cases check' with
      | error error' => exact agree.elim
      | ok found' => exact ⟨⟨agree.1, ensures found rfl⟩, agree.2⟩

/-- What the second of two checks finds may be changed at its end. -/
theorem Agree.returning {new : β → γ} {last : α → γ → Prop} (agree : Agree related check check')
    (implies : ∀ value value', related value value' → last value (new value')) :
    Agree last check (do
      let value ← check'
      return new value) := by
  cases check with
  | error error =>
      cases check' with
      | error error' => exact agree
      | ok found' => exact agree.elim
  | ok found =>
      cases check' with
      | error error' => exact agree.elim
      | ok found' =>
          refine ⟨implies _ _ agree.1, ?_⟩
          change _ = (found'.reports ++ []).map _
          rw [List.append_nil, agree.2]

theorem Agree.exists_finds {found : Checked α} (agree : Agree related check check')
    (ends : check.Finds found) : ∃ found', check'.Finds found' ∧ related found.value found'.value ∧
      found.reports.map (·.cause) = found'.reports.map (·.cause) := by
  cases check with
  | error error => cases ends
  | ok found =>
      cases ends
      cases check' with
      | error error' => exact agree.elim
      | ok found' => exact ⟨found', rfl, agree⟩

theorem Agree.symm (agree : Agree related check check') : Agree (flip related) check' check := by
  cases check with
  | error error =>
      cases check' with
      | error error' => exact Eq.symm agree
      | ok found' => exact agree.elim
  | ok found =>
      cases check' with
      | error error' => exact agree.elim
      | ok found' => exact ⟨agree.1, agree.2.symm⟩

/-- Checks one after the other, each on its own. -/
def all : List (Check α) → Check (List α)
  | [] => pure []
  | first :: rest => do
      let value ← first
      let values ← all rest
      return value :: values

/-- Checks on their own go on to the end exactly if each of them does. -/
theorem finds_all_iff {checks : List (Check α)} {found : Checked (List α)} :
    (all checks).Finds found ↔ ∃ parts : List (Checked α), List.Forall₂ Finds checks parts ∧
      found = ⟨parts.map (·.value), parts.flatMap (·.reports)⟩ := by
  induction checks generalizing found with
  | nil =>
      rw [all, finds_pure_iff]
      constructor
      · rintro rfl
        exact ⟨[], .nil, rfl⟩
      · rintro ⟨_, ⟨⟩, rfl⟩
        rfl
  | cons first rest ih =>
      simp only [all, finds_bind_iff, finds_pure_iff, ih]
      constructor
      · rintro ⟨part, _, begins, ⟨_, _, ⟨parts, each, rfl⟩, rfl, rfl⟩, rfl⟩
        exact ⟨part :: parts, .cons begins each, by simp⟩
      · rintro ⟨_, _ | ⟨begins, each⟩, rfl⟩
        exact ⟨_, _, begins, ⟨_, _, ⟨_, each, rfl⟩, rfl, rfl⟩, by simp⟩

/-- In another order checks on their own find the same, and complain of the same. -/
theorem exists_finds_all_of_perm {checks checks' : List (Check α)} {found : Checked (List α)}
    (perm : checks.Perm checks') (ends : (all checks).Finds found) :
    ∃ found', (all checks').Finds found' ∧
      found'.value.Perm found.value ∧ found'.reports.Perm found.reports := by
  obtain ⟨parts, each, rfl⟩ := finds_all_iff.mp ends
  obtain ⟨parts', each', perm'⟩ := List.perm_comp_forall₂ perm.symm each
  exact ⟨_, finds_all_iff.mpr ⟨parts', each', rfl⟩, perm'.map _, perm'.flatMap_right _⟩

/-- A check that agrees with some checks on their own, and one that agrees with them in another
order, complain of the same. -/
theorem Agree.exists_reordered {δ : Type} {last : Check δ} {checks checks' : List (Check γ)}
    {related : α → List γ → Prop} {related' : δ → List γ → Prop} {found : Checked α}
    (agree : Agree related check (all checks))
    (agree' : Agree related' last (all checks')) (perm : checks.Perm checks')
    (ends : check.Finds found) :
    ∃ found' values values', last.Finds found' ∧
      related found.value values ∧ related' found'.value values' ∧ values'.Perm values ∧
        (found'.reports.map (·.cause)).Perm (found.reports.map (·.cause)) := by
  obtain ⟨parts, each, holds, causes⟩ := agree.exists_finds ends
  obtain ⟨parts', each', values, reports⟩ := exists_finds_all_of_perm perm each
  obtain ⟨found', ends', holds', causes'⟩ := agree'.symm.exists_finds each'
  refine ⟨found', _, _, ends', holds, holds', values, ?_⟩
  rw [causes, ← causes']
  exact reports.map _

end Check

end SmallLang
