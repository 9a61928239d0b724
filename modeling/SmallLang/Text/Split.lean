/-!
# Splitting text

A text is cut at every separator. There is always one part more than separators.
-/

set_option autoImplicit false

namespace SmallLang.Text

/-- The parts of a text between the separators. -/
def split (separator : Char) : List Char → List (List Char)
  | [] => [[]]
  | c :: rest =>
      if c = separator then [] :: split separator rest
      else match split separator rest with
        | [] => [[c]]
        | part :: later => (c :: part) :: later

theorem split_ne_nil (separator : Char) (text : List Char) : split separator text ≠ [] := by
  cases text with
  | nil => simp [split]
  | cons c rest =>
      unfold split
      split
      · simp
      · split <;> simp

/-- The parts hold nothing that the text does not. -/
theorem mem_of_mem_split {separator c : Char} {text part : List Char}
    (found : part ∈ split separator text) (present : c ∈ part) : c ∈ text := by
  induction text generalizing part with
  | nil =>
      rw [List.mem_singleton.mp found] at present
      exact present
  | cons first rest ih =>
      unfold split at found
      split at found
      · cases found with
        | head => cases present
        | tail _ later => exact List.mem_cons_of_mem first (ih later present)
      · split at found
        · rw [List.mem_singleton.mp found, List.mem_singleton] at present
          exact present ▸ List.mem_cons_self
        · next head later cut =>
            cases found with
            | head =>
                cases present with
                | head => exact List.mem_cons_self
                | tail _ inside =>
                    exact List.mem_cons_of_mem first (ih (cut ▸ List.mem_cons_self) inside)
            | tail _ found =>
                exact List.mem_cons_of_mem first (ih (cut ▸ List.mem_cons_of_mem _ found) present)

def parts (separator : Char) (text : String) : List String :=
  (split separator text.toList).map String.ofList

end SmallLang.Text
