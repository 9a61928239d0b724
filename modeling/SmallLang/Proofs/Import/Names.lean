import SmallLang.Proofs.Module.Worded
import SmallLang.Proofs.Scope.Resolved

/-!
# Where a module names things

Every place in a module where a name is used or declared, with the names that are hidden there: the
parameters and declarations inside of the module that stand between the place and its top. Where
inference accepts a module, none of these names has a dot.
-/

set_option autoImplicit false

namespace SmallLang

/-- A name where it is used or declared. -/
structure Appearance where
  name : String
  position : Position
  /-- The names that are declared further in than at the top of the module. -/
  hidden : List String
  deriving DecidableEq, Repr

/-- Names that are used where some names are hidden. -/
def Appearance.ofMentions (hidden : List String) (mentions : List (String × Position)) :
    List Appearance :=
  mentions.map fun mention => ⟨mention.1, mention.2, hidden⟩

mutual

/-- The names in a statement further in than at the top. What it declares is hidden there. -/
def Stmt.appearances (hidden : List String) : Stmt → List Appearance
  | .expr e => Appearance.ofMentions hidden e.mentions
  | .comment _ | .use _ | .parameter _ | .merged _ => []
  | .returns value => Appearance.ofMentions hidden (Expr.mentions? value)
  | .declare decl =>
      ⟨decl.name, decl.position, decl.name :: hidden⟩ ::
        Appearance.ofMentions hidden (Expr.mentions? decl.value)
  | .function header none => [⟨header.name, header.position, header.name :: hidden⟩]
  | .function header (some body) =>
      let inside := header.parameters.map (·.name) ++ header.name :: hidden
      ⟨header.name, header.position, header.name :: hidden⟩ ::
        (header.parameters.map (fun param => ⟨param.name, param.typeName.position, inside⟩) ++
          Stmt.allAppearances inside body)
  | .branch condition body alternate =>
      Appearance.ofMentions hidden condition.mentions ++
        (Stmt.allAppearances hidden body ++ alternate.appearances hidden)
  | .loop condition body =>
      Appearance.ofMentions hidden condition.mentions ++ Stmt.allAppearances hidden body
  | .switch subject arms =>
      Appearance.ofMentions hidden subject.mentions ++ Arm.allAppearances hidden arms
  | .arm single => single.appearances hidden

def Alternate.appearances (hidden : List String) : Alternate → List Appearance
  | .none => []
  | .elseBranch condition body alternate =>
      Appearance.ofMentions hidden condition.mentions ++
        (Stmt.allAppearances hidden body ++ alternate.appearances hidden)
  | .otherwise body => Stmt.allAppearances hidden body

def Arm.appearances (hidden : List String) : Arm → List Appearance
  | .value pattern body =>
      Appearance.ofMentions hidden pattern.mentions ++ Stmt.allAppearances hidden body
  | .otherwise body => Stmt.allAppearances hidden body

/-- The names in the statements of a block. Each hides the name that it declares from those after
it. -/
def Stmt.allAppearances (hidden : List String) : List Stmt → List Appearance
  | [] => []
  | first :: rest =>
      first.appearances hidden ++ Stmt.allAppearances (first.declared?.toList ++ hidden) rest

def Arm.allAppearances (hidden : List String) : List Arm → List Appearance
  | [] => []
  | first :: rest => first.appearances hidden ++ Arm.allAppearances hidden rest

end

/-- The names in a statement at the top of a module. What it declares is not hidden. -/
def Stmt.topAppearances : Stmt → List Appearance
  | .declare decl =>
      ⟨decl.name, decl.position, []⟩ :: Appearance.ofMentions [] (Expr.mentions? decl.value)
  | .function header none => [⟨header.name, header.position, []⟩]
  | .function header (some body) =>
      let inside := header.parameters.map (·.name)
      ⟨header.name, header.position, []⟩ ::
        (header.parameters.map (fun param => ⟨param.name, param.typeName.position, inside⟩) ++
          Stmt.allAppearances inside body)
  | s => s.appearances []

/-- The names in a module. -/
def Program.appearances (program : Program) : List Appearance :=
  program.flatMap Stmt.topAppearances

/-- An expression names directly what it named, under its new name. -/
theorem Expr.symbol?_qualify {qualifier : Qualifier} {hidden : List String} {e : Expr}
    (undotted : ∀ mention ∈ e.mentions, Undotted mention.1) :
    (e.qualify qualifier hidden).symbol? = e.symbol?.map (qualifier.use hidden) := by
  cases e with
  | member object property =>
      cases object with
      | identifier space position =>
          have dotless := undotted (qualifiedName space property, position) List.mem_cons_self
          exact absurd rfl dotless.ne_qualifiedName
      | _ => rfl
  | _ => rfl

/-! ### Names without dots -/

/-- No name that was declared before a site has a dot. -/
def Site.Undotted (site : Site) : Prop := ∀ name ∈ site.visible, SmallLang.Undotted name

/-- A use of a name without a dot, unless a name with a dot was declared before. -/
def Occurrence.Undotted (occurrence : Occurrence) : Prop :=
  occurrence.site.Undotted → SmallLang.Undotted occurrence.name

section Undotted

variable {site : Site} {mentions : List (String × Position)}

theorem Site.Undotted.declare (undotted : site.Undotted) {names : List String}
    (plain : ∀ name ∈ names, SmallLang.Undotted name) : (site.declare names).Undotted := by
  intro name present
  exact (List.mem_append.mp present).elim (undotted name) (plain name)

theorem Site.Undotted.enter (undotted : site.Undotted) {names : List String}
    (plain : ∀ name ∈ names, SmallLang.Undotted name) : (site.enter names).Undotted := by
  intro name present
  exact (List.mem_append.mp present).elim (undotted name) (plain name)

theorem Site.Undotted.push (undotted : site.Undotted) : (site.enter []).Undotted :=
  undotted.enter (List.forall_mem_nil _)

theorem Site.Undotted.of_uses (undotted : site.Undotted) (hidden : List String)
    (uses : ∀ occurrence ∈ site.uses mentions, occurrence.Undotted) :
    ∀ appearance ∈ Appearance.ofMentions hidden mentions, SmallLang.Undotted appearance.name := by
  intro appearance present
  obtain ⟨mention, present', rfl⟩ := List.mem_map.mp present
  exact uses ⟨mention.1, mention.2, site⟩ (List.mem_map.mpr ⟨mention, present', rfl⟩) undotted

theorem Stmt.Worded.declares {s : Stmt} (worded : s.Worded) :
    ∀ name ∈ s.declares, SmallLang.Undotted name := by
  intro name present
  cases s with
  | declare decl =>
      rw [List.mem_singleton.mp present]
      exact worded
  | function header body =>
      rw [List.mem_singleton.mp present]
      cases body with
      | none => exact worded
      | some body => exact worded.1
  | parameter | arm | merged => exact worded.elim
  | _ => cases present

mutual

/-- The names in a statement have no dot if those that are used there have none. -/
theorem Stmt.Worded.undotted : ∀ {s : Stmt} {site : Site} (hidden : List String), s.Worded →
    site.Undotted → (∀ occurrence ∈ s.occurrences site, occurrence.Undotted) →
    ∀ appearance ∈ s.appearances hidden, SmallLang.Undotted appearance.name
  | .expr _, _, hidden, _, undotted, uses => undotted.of_uses hidden uses
  | .comment _, _, _, _, _, _ | .use _, _, _, _, _, _ => List.forall_mem_nil _
  | .returns _, _, hidden, _, undotted, uses => undotted.of_uses hidden uses
  | .declare decl, site, hidden, worded, undotted, uses => by
      have inside : (site.value decl.name).Undotted := undotted
      exact List.forall_mem_cons.mpr ⟨worded, inside.of_uses hidden uses⟩
  | .function _ none, _, _, worded, _, _ => List.forall_mem_singleton.mpr worded
  | .function header (some body), site, hidden, worded, undotted, uses => by
      obtain ⟨named, params, worded⟩ := worded
      have inside : (site.declare [header.name]).Undotted :=
        undotted.declare (List.forall_mem_singleton.mpr named)
      have inside' := inside.enter (List.forall_mem_map.mpr params)
      refine List.forall_mem_cons.mpr ⟨named, List.forall_mem_append.mpr ⟨?_, ?_⟩⟩
      · exact List.forall_mem_map.mpr params
      · exact Stmt.AllWorded.undotted _ worded inside' uses
  | .branch _ _ _, _, hidden, ⟨worded, worded'⟩, undotted, uses => by
      rw [Stmt.occurrences, List.forall_mem_append, List.forall_mem_append] at uses
      rw [Stmt.appearances, List.forall_mem_append, List.forall_mem_append]
      exact ⟨undotted.of_uses hidden uses.1, Stmt.AllWorded.undotted hidden worded undotted.push
        uses.2.1, Alternate.Worded.undotted hidden worded' undotted uses.2.2⟩
  | .loop _ _, _, hidden, worded, undotted, uses => by
      rw [Stmt.occurrences, List.forall_mem_append] at uses
      rw [Stmt.appearances, List.forall_mem_append]
      exact ⟨undotted.of_uses hidden uses.1,
        Stmt.AllWorded.undotted hidden worded undotted.push uses.2⟩
  | .switch _ _, _, hidden, worded, undotted, uses => by
      rw [Stmt.occurrences, List.forall_mem_append] at uses
      rw [Stmt.appearances, List.forall_mem_append]
      exact ⟨undotted.of_uses hidden uses.1, Arm.AllWorded.undotted hidden worded undotted uses.2⟩

theorem Alternate.Worded.undotted : ∀ {alternate : Alternate} {site : Site}
    (hidden : List String), alternate.Worded → site.Undotted →
    (∀ occurrence ∈ alternate.occurrences site, occurrence.Undotted) →
    ∀ appearance ∈ alternate.appearances hidden, SmallLang.Undotted appearance.name
  | .none, _, _, _, _, _ => List.forall_mem_nil _
  | .elseBranch _ _ _, _, hidden, ⟨worded, worded'⟩, undotted, uses => by
      rw [Alternate.occurrences, List.forall_mem_append, List.forall_mem_append] at uses
      rw [Alternate.appearances, List.forall_mem_append, List.forall_mem_append]
      exact ⟨undotted.of_uses hidden uses.1, Stmt.AllWorded.undotted hidden worded undotted.push
        uses.2.1, Alternate.Worded.undotted hidden worded' undotted uses.2.2⟩
  | .otherwise _, _, hidden, worded, undotted, uses =>
      Stmt.AllWorded.undotted hidden worded undotted.push uses

theorem Arm.Worded.undotted : ∀ {arm : Arm} {site : Site} (hidden : List String), arm.Worded →
    site.Undotted → (∀ occurrence ∈ arm.occurrences site, occurrence.Undotted) →
    ∀ appearance ∈ arm.appearances hidden, SmallLang.Undotted appearance.name
  | .value _ _, _, hidden, worded, undotted, uses => by
      rw [Arm.occurrences, List.forall_mem_append] at uses
      rw [Arm.appearances, List.forall_mem_append]
      exact ⟨undotted.of_uses hidden uses.1,
        Stmt.AllWorded.undotted hidden worded undotted.push uses.2⟩
  | .otherwise _, _, hidden, worded, undotted, uses =>
      Stmt.AllWorded.undotted hidden worded undotted.push uses

theorem Stmt.AllWorded.undotted : ∀ {body : List Stmt} {site : Site} (hidden : List String),
    Stmt.AllWorded body → site.Undotted →
    (∀ occurrence ∈ Stmt.allOccurrences site body, occurrence.Undotted) →
    ∀ appearance ∈ Stmt.allAppearances hidden body, SmallLang.Undotted appearance.name
  | [], _, _, _, _, _ => List.forall_mem_nil _
  | _ :: _, _, hidden, ⟨worded, worded'⟩, undotted, uses => by
      rw [Stmt.allOccurrences, List.forall_mem_append] at uses
      rw [Stmt.allAppearances, List.forall_mem_append]
      exact ⟨Stmt.Worded.undotted hidden worded undotted uses.1,
        Stmt.AllWorded.undotted _ worded' (undotted.declare worded.declares) uses.2⟩

theorem Arm.AllWorded.undotted : ∀ {arms : List Arm} {site : Site} (hidden : List String),
    Arm.AllWorded arms → site.Undotted →
    (∀ occurrence ∈ Arm.allOccurrences site arms, occurrence.Undotted) →
    ∀ appearance ∈ Arm.allAppearances hidden arms, SmallLang.Undotted appearance.name
  | [], _, _, _, _, _ => List.forall_mem_nil _
  | _ :: _, _, hidden, ⟨worded, worded'⟩, undotted, uses => by
      rw [Arm.allOccurrences, List.forall_mem_append] at uses
      rw [Arm.allAppearances, List.forall_mem_append]
      exact ⟨Arm.Worded.undotted hidden worded undotted uses.1,
        Arm.AllWorded.undotted hidden worded' undotted uses.2⟩

end

/-- No name that appears in a statement at the top has a dot, if none of its uses has. -/
theorem Stmt.Worded.undotted_top {s : Stmt} (worded : s.Worded) (undotted : site.Undotted)
    (uses : ∀ occurrence ∈ s.occurrences site, occurrence.Undotted) :
    ∀ appearance ∈ s.topAppearances, SmallLang.Undotted appearance.name := by
  have further := worded.undotted [] undotted uses
  cases s with
  | declare decl => exact List.forall_mem_cons.mpr (List.forall_mem_cons.mp further)
  | function header body =>
      cases body with
      | none => exact List.forall_mem_singleton.mpr worded
      | some body =>
          obtain ⟨named, params, worded⟩ := worded
          have inside := undotted.declare (List.forall_mem_singleton.mpr named)
          have inside' := inside.enter (List.forall_mem_map.mpr params)
          refine List.forall_mem_cons.mpr ⟨named, List.forall_mem_append.mpr ⟨?_, ?_⟩⟩
          · exact List.forall_mem_map.mpr params
          · exact Stmt.AllWorded.undotted _ worded inside' uses
  | _ => exact further

theorem Stmt.AllWorded.undotted_top : ∀ {program : Program} {site : Site},
    Stmt.AllWorded program → site.Undotted →
    (∀ occurrence ∈ Stmt.allOccurrences site program, occurrence.Undotted) →
    ∀ appearance ∈ program.appearances, SmallLang.Undotted appearance.name
  | [], _, _, _, _ => List.forall_mem_nil _
  | _ :: _, _, ⟨worded, worded'⟩, undotted, uses => by
      rw [Stmt.allOccurrences, List.forall_mem_append] at uses
      rw [Program.appearances, List.flatMap_cons, List.forall_mem_append]
      exact ⟨Stmt.Worded.undotted_top worded undotted uses.1,
        Stmt.AllWorded.undotted_top worded' (undotted.declare worded.declares) uses.2⟩

theorem Stmt.AllWorded.allDeclares : ∀ {body : List Stmt}, Stmt.AllWorded body →
    ∀ name ∈ Stmt.allDeclares body, SmallLang.Undotted name
  | [], _ => List.forall_mem_nil _
  | _ :: _, ⟨worded, worded'⟩ =>
      List.forall_mem_append.mpr ⟨worded.declares, Stmt.AllWorded.allDeclares worded'⟩

/-- Inference rejects names with dots in a module, since nothing in it declares any. -/
theorem Program.undotted_of_infer {source file : String} {program typed : Program}
    {order : ForwardOrder} (reads : Program.read source file = .ok program)
    (inferred : program.infer order = .ok typed) :
    ∀ appearance ∈ program.appearances, SmallLang.Undotted appearance.name := by
  have worded := allWorded_of_read reads
  have bound := bound_of_infer (allLoaded_of_read reads) inferred
  have start : Site.start.Undotted := List.forall_mem_nil _
  refine worded.undotted_top start ?_
  intro occurrence present undotted
  rcases bound occurrence present with visible | ⟨declared, _⟩
  · exact undotted _ visible
  · exact worded.allDeclares _ declared

end Undotted

end SmallLang
