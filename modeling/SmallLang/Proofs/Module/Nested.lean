import SmallLang.Proofs.Module.Accesses
import SmallLang.Proofs.Module.Loaded
import SmallLang.Proofs.Module.Once

/-!
# Modules inside of modules

What a program with merged modules in it declares and uses, put together from what each of these
states itself.
-/

set_option autoImplicit false

namespace SmallLang

section Lists

variable {α β : Type} {R : α → β → Prop} {first : List α} {second : List β}

theorem exists_of_mem_left (related : List.Forall₂ R first second) :
    ∀ a ∈ first, ∃ b ∈ second, R a b := by
  induction related with
  | nil => simp
  | cons head _ ih =>
      intro a present
      rcases List.mem_cons.mp present with rfl | present
      · exact ⟨_, List.mem_cons_self, head⟩
      · obtain ⟨b, present', rest⟩ := ih a present
        exact ⟨b, List.mem_cons_of_mem _ present', rest⟩

theorem exists_of_mem_right (related : List.Forall₂ R first second) :
    ∀ b ∈ second, ∃ a ∈ first, R a b :=
  exists_of_mem_left related.flip

end Lists

variable {program module : Program} {mention : String × Position} {name : String}

/-- Induction over the modules that are merged into a program. -/
theorem Program.nested {P : Program → Prop}
    (step : ∀ program, (∀ body, Stmt.merged body ∈ program → P body) → P program)
    (program : Program) : P program :=
  step program fun body (_ : Stmt.merged body ∈ program) => Program.nested step body
termination_by sizeOf program
decreasing_by
  have smaller := List.sizeOf_lt_of_mem ‹Stmt.merged body ∈ program›
  simp only [Stmt.merged.sizeOf_spec] at smaller
  omega

theorem Stmt.mem_allModules : module ∈ Stmt.allModules program ↔
    ∃ body, Stmt.merged body ∈ program ∧ (module = body ∨ module ∈ Stmt.allModules body) := by
  induction program with
  | nil => simp [Stmt.allModules]
  | cons first rest ih =>
      have head : module ∈ first.modules ↔
          ∃ body, Stmt.merged body = first ∧ (module = body ∨ module ∈ Stmt.allModules body) := by
        cases first <;> simp [Stmt.modules]
      simp only [Stmt.allModules, List.mem_append, head, ih, List.mem_cons]
      constructor
      · rintro (⟨body, same, inside⟩ | ⟨body, present, inside⟩)
        · exact ⟨body, .inl same, inside⟩
        · exact ⟨body, .inr present, inside⟩
      · rintro ⟨body, same | present, inside⟩
        · exact .inl ⟨body, same, inside⟩
        · exact .inr ⟨body, present, inside⟩

theorem Stmt.mem_allAccesses {access : Access} :
    access ∈ Stmt.allAccesses program ↔ ∃ s ∈ program, access ∈ s.accesses := by
  induction program with
  | nil => simp [Stmt.allAccesses]
  | cons first rest ih => simp [Stmt.allAccesses, ih]

theorem Stmt.mem_allDeclares :
    name ∈ Stmt.allDeclares program ↔ ∃ s ∈ program, name ∈ s.declares := by
  induction program with
  | nil => simp [Stmt.allDeclares]
  | cons first rest ih => simp [Stmt.allDeclares, ih]

theorem Stmt.allLoaded_iff : Stmt.AllLoaded program ↔ ∀ s ∈ program, s.Loaded := by
  induction program with
  | nil => simp [Stmt.AllLoaded]
  | cons first rest ih => simp [Stmt.AllLoaded, ih]

theorem Stmt.mem_mentions_of_mem {s : Stmt} (present : s ∈ program)
    (used : ∀ site, mention ∈ (s.occurrences site).map Occurrence.mention) :
    ∀ site, mention ∈ (Stmt.allOccurrences site program).map Occurrence.mention := by
  induction program with
  | nil => simp at present
  | cons first rest ih =>
      intro site
      rw [Stmt.allOccurrences, List.map_append, List.mem_append]
      rcases List.mem_cons.mp present with rfl | present
      · exact .inl (used site)
      · exact .inr (ih present _)

/-- What a merged module uses, the whole program uses. -/
theorem Program.mem_mentions_of_mem_allModules (present : module ∈ Stmt.allModules program)
    (used : ∀ site, mention ∈ (Stmt.allOccurrences site module).map Occurrence.mention) :
    ∀ site, mention ∈ (Stmt.allOccurrences site program).map Occurrence.mention := by
  induction program using Program.nested with
  | step program ih =>
      obtain ⟨body, merged, inside⟩ := Stmt.mem_allModules.mp present
      refine Stmt.mem_mentions_of_mem merged ?_
      rcases inside with rfl | inside
      · exact used
      · exact ih body merged inside

theorem Stmt.mem_declares {s : Stmt} (loaded : s.Loaded) : name ∈ s.declares ↔
    s.declared? = some name ∨ ∃ body, s = .merged body ∧ name ∈ Stmt.allDeclares body := by
  cases s with
  | parameter | arm => exact loaded.elim
  | declare decl => simp [Stmt.declares, Stmt.declared?, eq_comm]
  | function header body => simp [Stmt.declares, Stmt.declared?, eq_comm]
  | _ => simp [Stmt.declares, Stmt.declared?]

/-- A program declares what it states itself and what the modules in it state. -/
theorem Program.mem_allDeclares (loaded : Stmt.AllLoaded program) :
    name ∈ Stmt.allDeclares program ↔
      name ∈ program.declared ∨ ∃ module ∈ Stmt.allModules program, name ∈ module.declared := by
  induction program using Program.nested with
  | step program ih =>
      have loaded' := Stmt.allLoaded_iff.mp loaded
      have inner : ∀ body, Stmt.merged body ∈ program → Stmt.AllLoaded body := fun _ => loaded' _
      rw [Stmt.mem_allDeclares, declared, List.mem_filterMap]
      constructor
      · rintro ⟨s, present, declares⟩
        rcases (Stmt.mem_declares (loaded' s present)).mp declares with itself | ⟨body, rfl, inside⟩
        · exact .inl ⟨s, present, itself⟩
        · rcases (ih body present (inner body present)).mp inside with
            itself | ⟨module, deeper, inside⟩
          · exact .inr ⟨body, Stmt.mem_allModules.mpr ⟨body, present, .inl rfl⟩, itself⟩
          · exact .inr ⟨module, Stmt.mem_allModules.mpr ⟨body, present, .inr deeper⟩, inside⟩
      · rintro (⟨s, present, itself⟩ | ⟨module, nested, inside⟩)
        · exact ⟨s, present, (Stmt.mem_declares (loaded' s present)).mpr (.inl itself)⟩
        · obtain ⟨body, present, deeper⟩ := Stmt.mem_allModules.mp nested
          refine ⟨.merged body, present, (ih body present (inner body present)).mpr ?_⟩
          rcases deeper with rfl | deeper
          · exact .inl inside
          · exact .inr ⟨module, deeper, inside⟩

/-- Inside of what a statement declares, no other names with a dot are declared. -/
def Stmt.Closed (s : Stmt) : Prop :=
  ∀ (site : Site), ∀ occurrence ∈ s.occurrences site,
    (site.declare s.declares).Reaches occurrence.site

theorem Stmt.closed_merged {body : List Stmt} (closed : ∀ s ∈ body, s.Closed) :
    (Stmt.merged body).Closed := by
  intro site
  change ∀ occurrence ∈ Stmt.allOccurrences site body,
    (site.declare (Stmt.allDeclares body)).Reaches occurrence.site
  induction body generalizing site with
  | nil => simp [Stmt.allOccurrences]
  | cons first rest ih =>
      intro occurrence present
      rw [Stmt.allDeclares, ← Site.declare_declare]
      rcases List.mem_append.mp present with present | present
      · have before : ((site.declare first.declares).declare (Stmt.allDeclares rest)).Reaches
            (site.declare first.declares) := fun _ visible => .inl (List.mem_append_left _ visible)
        exact before.trans (closed first List.mem_cons_self site occurrence present)
      · exact ih (fun s later => closed s (List.mem_cons_of_mem _ later)) _ occurrence present

/-- Modules do not see into one another. -/
theorem Program.closed_of_own (closed : ∀ s ∈ program.own, s.Closed)
    (inside : ∀ module ∈ Stmt.allModules program, ∀ s ∈ module.own, s.Closed) :
    ∀ s ∈ program, s.Closed := by
  induction program using Program.nested with
  | step program ih =>
      intro s present
      cases s with
      | merged body =>
          have nested := Stmt.mem_allModules.mpr ⟨body, present, .inl rfl⟩
          exact Stmt.closed_merged (ih body present (inside body nested) fun module deeper =>
            inside module (Stmt.mem_allModules.mpr ⟨body, present, .inr deeper⟩))
      | use used => exact fun _ => by simp [Stmt.occurrences]
      | _ => exact closed _ (List.mem_filter.mpr ⟨present, rfl⟩)

end SmallLang
