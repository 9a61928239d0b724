import SmallLang.Path

/-!
# Paths below others

Which segments a path has that was joined from two, and what the parts of a path tell of it: whether
it is absolute, and which of its segments lead somewhere.
-/

set_option autoImplicit false

namespace SmallLang

namespace Text

theorem split_append (separator : Char) (first second : List Char) :
    split separator (first ++ separator :: second) =
      split separator first ++ split separator second := by
  induction first with
  | nil => simp [split]
  | cons c rest ih =>
      rw [List.cons_append, split, split, ih]
      split
      · rfl
      · cases cut : split separator rest with
        | nil => exact absurd cut (split_ne_nil separator rest)
        | cons part later => rfl

theorem split_eq_singleton {separator : Char} {text : List Char} (whole : separator ∉ text) :
    split separator text = [text] := by
  induction text with
  | nil => rfl
  | cons c rest ih =>
      rw [List.mem_cons, not_or] at whole
      rw [split, if_neg (Ne.symm whole.1), ih whole.2]

end Text

namespace Path

/-- A segment that leads on, to a file or a directory, is its name. -/
structure IsName (segment : String) : Prop where
  leads : isIdle segment = false
  on : segment ≠ ".."
  whole : '/' ∉ segment.toList

instance (segment : String) : Decidable (IsName segment) :=
  decidable_of_iff (isIdle segment = false ∧ segment ≠ ".." ∧ '/' ∉ segment.toList)
    ⟨fun ⟨leads, on, whole⟩ => ⟨leads, on, whole⟩, fun name => ⟨name.leads, name.on, name.whole⟩⟩

section Segments

variable {names : List String}

theorem segments_append (first second : String) :
    segments ⟨first ++ "/" ++ second⟩ = segments ⟨first⟩ ++ segments ⟨second⟩ := by
  unfold segments Text.parts
  rw [String.toList_append, String.toList_append, List.append_assoc]
  exact (congrArg _ (Text.split_append '/' first.toList second.toList)).trans List.map_append

theorem segments_eq_singleton {text : String} (whole : '/' ∉ text.toList) :
    segments ⟨text⟩ = [text] := by
  rw [segments, Text.parts, Text.split_eq_singleton whole, List.map_singleton,
    String.ofList_toList]

/-- Names that were put together can be told apart again. -/
theorem segments_intercalate (some : names ≠ []) (proper : ∀ name ∈ names, IsName name) :
    segments ⟨String.intercalate "/" names⟩ = names := by
  induction names with
  | nil => exact absurd rfl some
  | cons first rest ih =>
      obtain ⟨properFirst, properRest⟩ := List.forall_mem_cons.mp proper
      cases rest with
      | nil => rw [String.intercalate_singleton, segments_eq_singleton properFirst.whole]
      | cons second later =>
          rw [String.intercalate_cons_cons, segments_append,
            segments_eq_singleton properFirst.whole, ih (List.cons_ne_nil _ _) properRest]
          rfl

theorem steps_intercalate (proper : ∀ name ∈ names, IsName name) :
    steps ⟨String.intercalate "/" names⟩ = names := by
  cases names with
  | nil => rfl
  | cons first rest =>
      rw [steps, segments_intercalate (List.cons_ne_nil _ _) proper, List.filter_eq_self]
      exact fun name present => by rw [(proper name present).leads]; rfl

/-- Names that were put together lead on from where one is. -/
theorem isAbsolute_intercalate (proper : ∀ name ∈ names, IsName name) :
    isAbsolute ⟨String.intercalate "/" names⟩ = false := by
  cases names with
  | nil => rfl
  | cons first rest =>
      have properFirst := proper first List.mem_cons_self
      obtain ⟨c, later, begins⟩ : ∃ c later, first.toList = c :: later :=
        List.exists_cons_of_ne_nil fun none => by
          have idle := properFirst.leads
          rw [String.toList_eq_nil_iff.mp none] at idle
          cases idle
      have apart : c ≠ '/' := by
        rintro rfl
        exact properFirst.whole (begins ▸ List.mem_cons_self)
      cases rest with
      | nil => simp [isAbsolute, String.intercalate_singleton, begins, apart]
      | cons second others => simp [isAbsolute, String.intercalate_cons_cons, begins, apart]

end Segments

section Join

variable {base inner inner' path path' : Path}

/-- A path below another goes on from the segments of that one, but for an empty one at the end. -/
theorem exists_segments_join (base : Path) :
    ∃ kept, (base.segments = kept ∨ base.segments = kept ++ [""]) ∧
      ∀ inner : Path, inner.isAbsolute = false →
        (base.join inner).segments = kept ++ inner.segments := by
  obtain ⟨text⟩ := base
  by_cases empty : text = ""
  · refine ⟨[], .inr (by rw [empty]; rfl), fun inner relative => ?_⟩
    rw [join, relative, Bool.false_or, if_pos (beq_iff_eq.mpr empty), List.nil_append]
  have joined : ∀ inner : Path, inner.isAbsolute = false → join ⟨text⟩ inner =
      if text.toList.getLast? == some '/' then ⟨text ++ inner.text⟩
      else ⟨text ++ "/" ++ inner.text⟩ := by
    intro inner relative
    rw [join, relative, Bool.false_or, if_neg (by simpa using empty)]
  by_cases slash : text.toList.getLast? = some '/'
  · obtain ⟨front, ends⟩ := List.getLast?_eq_some_iff.mp slash
    have same : text = String.ofList front ++ "/" := by
      rw [← String.toList_inj, ends, String.toList_append, String.toList_ofList]
      rfl
    refine ⟨segments ⟨String.ofList front⟩, .inr ?_, fun inner relative => ?_⟩
    · have closed := segments_append (String.ofList front) ""
      rwa [String.append_empty, ← same] at closed
    · rw [joined inner relative, if_pos (beq_iff_eq.mpr slash), same]
      exact segments_append _ _
  · refine ⟨segments ⟨text⟩, .inl rfl, fun inner relative => ?_⟩
    rw [joined inner relative, if_neg (by simpa using slash)]
    exact segments_append _ _

theorem steps_join (relative : inner.isAbsolute = false) :
    (base.join inner).steps = base.steps ++ inner.steps := by
  obtain ⟨kept, same, joined⟩ := exists_segments_join base
  rw [steps, joined inner relative, List.filter_append]
  rcases same with same | same
  · rw [← same]
    rfl
  · have idle : base.steps = kept.filter (!isIdle ·) := by
      rw [steps, same, List.filter_append]
      exact List.append_nil _
    rw [idle]
    rfl

theorem isAbsolute_join (relative : inner.isAbsolute = false) :
    (base.join inner).isAbsolute = base.isAbsolute := by
  obtain ⟨text⟩ := base
  unfold join
  rw [relative, Bool.false_or]
  split
  · next empty =>
      obtain rfl : text = "" := beq_iff_eq.mp empty
      exact relative
  · next some =>
      obtain ⟨c, rest, begins⟩ : ∃ c rest, text.toList = c :: rest :=
        List.exists_cons_of_ne_nil fun none => some (by simpa using none)
      split <;> simp [isAbsolute, begins]

end Join

section Parts

variable {path path' : Path}

/-- Paths below one path have the same parts if they go on by the same steps, and if neither goes on
with a dot of its own. -/
theorem parts_join_congr {base : Path} (relative : path.isAbsolute = false)
    (relative' : path'.isAbsolute = false) (same : path.steps = path'.steps)
    (plain : path.segments.head? ≠ some ".") (plain' : path'.segments.head? ≠ some ".") :
    (base.join path).parts = (base.join path').parts := by
  obtain ⟨kept, _, joined⟩ := exists_segments_join base
  have head : ((base.join path).segments.head? == some ".") =
      ((base.join path').segments.head? == some ".") := by
    rw [joined path relative, joined path' relative']
    cases kept with
    | nil => rw [List.nil_append, List.nil_append, beq_false_of_ne plain, beq_false_of_ne plain']
    | cons first rest => rfl
  unfold parts
  rw [isAbsolute_join relative, isAbsolute_join relative', steps_join relative,
    steps_join relative', same, head]

/-- A path that goes on by names to a file, and does not begin with a dot of its own. -/
structure Plain (path : Path) : Prop where
  named : ∀ name ∈ path.steps, IsName name
  ends : ∃ name ∈ path.steps, path.segments.getLast? = some name
  begins : path.segments.head? ≠ some "."

theorem Plain.steps_ne_nil (plain : path.Plain) : path.steps ≠ [] :=
  plain.ends.elim fun _ ends => List.ne_nil_of_mem ends.1

/-- Nothing but the steps of a plain path is told by the parts of one below another. -/
theorem Plain.parts_join {base : Path} (plain : path.Plain) (relative : path.isAbsolute = false) :
    (base.join ⟨String.intercalate "/" path.steps⟩).parts = (base.join path).parts := by
  refine parts_join_congr (isAbsolute_intercalate plain.named) relative
    (steps_intercalate plain.named) ?_ plain.begins
  rw [segments_intercalate plain.steps_ne_nil plain.named]
  intro dot
  exact absurd (plain.named "." (List.mem_of_head? dot)).leads (by decide)

end Parts

end Path

end SmallLang
