import SmallLang.Proofs.Module.Rebound
import SmallLang.Proofs.Module.Worded
import SmallLang.Proofs.Import.Names

/-!
# Accesses in a file

The accesses to modules in a file, and the names that inference finds in their place once the file
is merged. Inside of a merged file nothing is declared under a name with a dot, so that such a name
can only be bound at the top.
-/

set_option autoImplicit false

namespace SmallLang

/-- An access to a module: a member of a plain name. -/
structure Access where
  space : String
  name : String
  position : Position
  deriving DecidableEq, Repr

/-- The use of a name that an access turns into under a namespace. -/
def Access.under (access : Access) (space : String) : String × Position :=
  (Expr.qualifiedName space access.name, access.position)

mutual

/-- The accesses in an expression. To inference a member of an access is a name of its own, and the
access inside of it is none. -/
def Expr.accesses : Expr → List Access
  | .member (.identifier space position) property => [⟨space, property, position⟩]
  | .member (.member (.identifier _ _) _) _ => []
  | .member object _ => object.accesses
  | .call callee arguments => Expr.allAccesses arguments ++ callee.accesses
  | .binary _ left right => left.accesses ++ right.accesses
  | .prefixed _ operand | .postfixed _ operand => operand.accesses
  | .identifier _ _ | .number _ | .string _ | .boolean _ | .null => []

def Expr.allAccesses : List Expr → List Access
  | [] => []
  | first :: rest => first.accesses ++ Expr.allAccesses rest

end

/-- The accesses in a value, if there is a value. -/
def Expr.accesses? : Option Expr → List Access
  | none => []
  | some e => e.accesses

mutual

/-- The accesses in a statement. -/
def Stmt.accesses : Stmt → List Access
  | .expr e => e.accesses
  | .comment _ | .use _ | .parameter _ | .function _ none | .merged _ => []
  | .returns value => Expr.accesses? value
  | .declare decl => Expr.accesses? decl.value
  | .function _ (some body) => Stmt.allAccesses body
  | .branch condition body alternate =>
      condition.accesses ++ (Stmt.allAccesses body ++ alternate.accesses)
  | .loop condition body => condition.accesses ++ Stmt.allAccesses body
  | .switch subject arms => subject.accesses ++ Arm.allAccesses arms
  | .arm single => single.accesses

def Alternate.accesses : Alternate → List Access
  | .none => []
  | .elseBranch condition body alternate =>
      condition.accesses ++ (Stmt.allAccesses body ++ alternate.accesses)
  | .otherwise body => Stmt.allAccesses body

def Arm.accesses : Arm → List Access
  | .value pattern body => pattern.accesses ++ Stmt.allAccesses body
  | .otherwise body => Stmt.allAccesses body

def Stmt.allAccesses : List Stmt → List Access
  | [] => []
  | first :: rest => first.accesses ++ Stmt.allAccesses rest

def Arm.allAccesses : List Arm → List Access
  | [] => []
  | first :: rest => first.accesses ++ Arm.allAccesses rest

end

/-- The name that is used, and where. -/
def Occurrence.mention (occurrence : Occurrence) : String × Position :=
  (occurrence.name, occurrence.position)

@[simp] theorem Site.map_mention_uses (site : Site) (mentions : List (String × Position)) :
    (site.uses mentions).map Occurrence.mention = mentions := by
  rw [uses, List.map_map]
  exact List.map_id mentions

section Replaced

variable {naming : Naming} {access : Access} {space : String}

mutual

/-- In the place of an access to a module with a namespace stands the name under the namespace. -/
theorem Expr.Rebound.mem_mentions (named : naming.space? access.space = some space)
    {hidden : List String} : ∀ {e e' : Expr}, e.Rebound naming hidden e' →
      access ∈ e.accesses → access.under space ∈ e'.mentions
  | _, _, .access found, present => by
      rw [Expr.accesses, List.mem_singleton] at present
      subst present
      rw [named] at found
      cases found
      exact List.mem_singleton_self _
  | .member object property, _, .member missing rebound, present => by
      cases object with
      | identifier name position =>
          rw [Expr.accesses, List.mem_singleton] at present
          subst present
          rw [missing name position rfl] at named
          cases named
      | member inner middle =>
          cases inner with
          | identifier name position => simp [Expr.accesses] at present
          | _ =>
              have inside := Expr.Rebound.mem_mentions named rebound present
              cases rebound
              exact inside
      | _ =>
          have inside := Expr.Rebound.mem_mentions named rebound present
          cases rebound
          exact inside
  | _, _, .call rebound rebound', present => by
      simp only [Expr.accesses, Expr.mentions, List.mem_append] at present ⊢
      exact present.imp (Expr.AllRebound.mem_mentions named rebound')
        (Expr.Rebound.mem_mentions named rebound)
  | _, _, .binary rebound rebound', present => by
      simp only [Expr.accesses, Expr.mentions, List.mem_append] at present ⊢
      exact present.imp (Expr.Rebound.mem_mentions named rebound)
        (Expr.Rebound.mem_mentions named rebound')
  | _, _, .prefixed rebound, present | _, _, .postfixed rebound, present => by
      simp only [Expr.accesses, Expr.mentions] at present ⊢
      exact Expr.Rebound.mem_mentions named rebound present
  | _, _, .own _ _, present | _, _, .other _, present | _, _, .number _, present
  | _, _, .string _, present | _, _, .boolean _, present | _, _, .null, present => by
      simp [Expr.accesses] at present

theorem Expr.AllRebound.mem_mentions (named : naming.space? access.space = some space)
    {hidden : List String} : ∀ {expressions expressions' : List Expr},
      Expr.AllRebound naming hidden expressions expressions' →
      access ∈ Expr.allAccesses expressions → access.under space ∈ Expr.allMentions expressions'
  | _, _, .nil, present => by simp [Expr.allAccesses] at present
  | _, _, .cons rebound rebound', present => by
      simp only [Expr.allAccesses, Expr.allMentions, List.mem_append] at present ⊢
      exact present.imp (Expr.Rebound.mem_mentions named rebound)
        (Expr.AllRebound.mem_mentions named rebound')

end

theorem Expr.Rebound?.mem_mentions (named : naming.space? access.space = Option.some space)
    {hidden : List String} {value value' : Option Expr}
    (rebound : Expr.Rebound? naming hidden value value')
    (present : access ∈ Expr.accesses? value) : access.under space ∈ Expr.mentions? value' := by
  cases rebound with
  | none => simp [Expr.accesses?] at present
  | some rebound => exact rebound.mem_mentions named present

mutual

theorem Stmt.Rebound.mem_mentions (named : naming.space? access.space = some space) :
    ∀ {s s' : Stmt} {hidden : List String}, s.Rebound naming hidden s' → access ∈ s.accesses →
      ∀ site, access.under space ∈ (s'.occurrences site).map Occurrence.mention
  | _, _, _, .expr rebound, present, site => by
      simpa [Stmt.occurrences] using rebound.mem_mentions named present
  | _, _, _, .comment _, present, _ | _, _, _, .use _, present, _
  | _, _, _, .prototype _, present, _ => by
      simp [Stmt.accesses] at present
  | _, _, _, .returns rebound, present, site => by
      simpa [Stmt.occurrences] using rebound.mem_mentions named present
  | _, _, _, .declare rebound, present, site => by
      simpa [Stmt.occurrences] using rebound.mem_mentions named present
  | _, _, _, .function rebound, present, _ =>
      Stmt.AllRebound.mem_mentions named rebound present _
  | _, _, _, .branch rebound inside rest, present, site => by
      simp only [Stmt.accesses, Stmt.occurrences, List.map_append, List.mem_append,
        Site.map_mention_uses] at present ⊢
      refine present.imp (rebound.mem_mentions named) ?_
      intro present
      refine present.imp (fun present => Stmt.AllRebound.mem_mentions named inside present _) ?_
      intro present
      exact Alternate.Rebound.mem_mentions named rest present site
  | _, _, _, .loop rebound inside, present, site => by
      simp only [Stmt.accesses, Stmt.occurrences, List.map_append, List.mem_append,
        Site.map_mention_uses] at present ⊢
      refine present.imp (rebound.mem_mentions named) ?_
      intro present
      exact Stmt.AllRebound.mem_mentions named inside present _
  | _, _, _, .switch rebound inside, present, site => by
      simp only [Stmt.accesses, Stmt.occurrences, List.map_append, List.mem_append,
        Site.map_mention_uses] at present ⊢
      refine present.imp (rebound.mem_mentions named) ?_
      intro present
      exact Arm.AllRebound.mem_mentions named inside present site

theorem Alternate.Rebound.mem_mentions (named : naming.space? access.space = some space) :
    ∀ {alternate alternate' : Alternate} {hidden : List String},
      alternate.Rebound naming hidden alternate' → access ∈ alternate.accesses →
      ∀ site, access.under space ∈ (alternate'.occurrences site).map Occurrence.mention
  | _, _, _, .none, present, _ => by simp [Alternate.accesses] at present
  | _, _, _, .elseBranch rebound inside rest, present, site => by
      simp only [Alternate.accesses, Alternate.occurrences, List.map_append, List.mem_append,
        Site.map_mention_uses] at present ⊢
      refine present.imp (rebound.mem_mentions named) ?_
      intro present
      refine present.imp (fun present => Stmt.AllRebound.mem_mentions named inside present _) ?_
      intro present
      exact Alternate.Rebound.mem_mentions named rest present site
  | _, _, _, .otherwise inside, present, _ => Stmt.AllRebound.mem_mentions named inside present _

theorem Arm.Rebound.mem_mentions (named : naming.space? access.space = some space) :
    ∀ {arm arm' : Arm} {hidden : List String}, arm.Rebound naming hidden arm' →
      access ∈ arm.accesses →
      ∀ site, access.under space ∈ (arm'.occurrences site).map Occurrence.mention
  | _, _, _, .value rebound inside, present, site => by
      simp only [Arm.accesses, Arm.occurrences, List.map_append, List.mem_append,
        Site.map_mention_uses] at present ⊢
      refine present.imp (rebound.mem_mentions named) ?_
      intro present
      exact Stmt.AllRebound.mem_mentions named inside present _
  | _, _, _, .otherwise inside, present, _ => Stmt.AllRebound.mem_mentions named inside present _

theorem Stmt.AllRebound.mem_mentions (named : naming.space? access.space = some space) :
    ∀ {body body' : List Stmt} {hidden : List String}, Stmt.AllRebound naming hidden body body' →
      access ∈ Stmt.allAccesses body →
      ∀ site, access.under space ∈ (Stmt.allOccurrences site body').map Occurrence.mention
  | _, _, _, .nil, present, _ => by simp [Stmt.allAccesses] at present
  | _, _, _, .cons rebound rest, present, site => by
      simp only [Stmt.allAccesses, Stmt.allOccurrences, List.map_append, List.mem_append]
        at present ⊢
      refine present.imp (fun present => Stmt.Rebound.mem_mentions named rebound present site) ?_
      intro present
      exact Stmt.AllRebound.mem_mentions named rest present _

theorem Arm.AllRebound.mem_mentions (named : naming.space? access.space = some space) :
    ∀ {arms arms' : List Arm} {hidden : List String}, Arm.AllRebound naming hidden arms arms' →
      access ∈ Arm.allAccesses arms →
      ∀ site, access.under space ∈ (Arm.allOccurrences site arms').map Occurrence.mention
  | _, _, _, .nil, present, _ => by simp [Arm.allAccesses] at present
  | _, _, _, .cons rebound rest, present, site => by
      simp only [Arm.allAccesses, Arm.allOccurrences, List.map_append, List.mem_append]
        at present ⊢
      refine present.imp (fun present => Arm.Rebound.mem_mentions named rebound present site) ?_
      intro present
      exact Arm.AllRebound.mem_mentions named rest present site

end

theorem Stmt.ReboundTop.mem_mentions (named : naming.space? access.space = some space)
    {s s' : Stmt} (rebound : s.ReboundTop naming s') (present : access ∈ s.accesses) (site : Site) :
    access.under space ∈ (s'.occurrences site).map Occurrence.mention := by
  cases rebound with
  | declare rebound => simpa [Stmt.occurrences] using rebound.mem_mentions named present
  | prototype header => simp [Stmt.accesses] at present
  | function rebound => exact rebound.mem_mentions named present _
  | inside _ rebound => exact rebound.mem_mentions named present site

end Replaced

section Inside

variable {naming : Naming} {site between later : Site} {names : List String}
  {mentions : List (String × Position)} {occurrence : Occurrence}

/-- At a later site no other names with a dot are declared. -/
def Site.Reaches (site later : Site) : Prop :=
  ∀ name ∈ later.visible, name ∈ site.visible ∨ SmallLang.Undotted name

namespace Site.Reaches

theorem refl (site : Site) : site.Reaches site := fun _ visible => .inl visible

theorem trans (first : site.Reaches between) (second : between.Reaches later) :
    site.Reaches later := by
  intro name visible
  rcases second name visible with visible | undotted
  · exact first name visible
  · exact .inr undotted

theorem declare (site : Site) (undotted : ∀ name ∈ names, SmallLang.Undotted name) :
    site.Reaches (site.declare names) := by
  intro name visible
  exact (List.mem_append.mp visible).imp_right (undotted name)

theorem enter (site : Site) (undotted : ∀ name ∈ names, SmallLang.Undotted name) :
    site.Reaches (site.enter names) := by
  intro name visible
  exact (List.mem_append.mp visible).imp_right (undotted name)

theorem push (site : Site) : site.Reaches (site.enter []) := enter site (List.forall_mem_nil _)

theorem of_uses (reaches : site.Reaches later) (present : occurrence ∈ later.uses mentions) :
    site.Reaches occurrence.site := by
  obtain ⟨mention, _, rfl⟩ := List.mem_map.mp present
  exact reaches

end Site.Reaches

mutual

/-- What a worded statement declares inside of it has no dot. -/
theorem Stmt.Worded.reaches : ∀ {s : Stmt} {site : Site}, s.Worded →
    ∀ occurrence ∈ s.occurrences site, site.Reaches occurrence.site
  | .expr _, site, _, _, present | .returns _, site, _, _, present =>
      (Site.Reaches.refl site).of_uses present
  | .declare decl, site, _, _, present => (Site.Reaches.refl (site.value decl.name)).of_uses present
  | .comment _, _, _, _, present | .use _, _, _, _, present
  | .function _ none, _, _, _, present => by
      simp [Stmt.occurrences] at present
  | .function header (some body), site, worded, _, present => by
      obtain ⟨named, params, worded⟩ := worded
      have declared : site.Reaches (site.declare [header.name]) :=
        .declare site (List.forall_mem_singleton.mpr named)
      exact (declared.trans (.enter _ (List.forall_mem_map.mpr params))).trans
        (Stmt.AllWorded.reaches worded _ present)
  | .branch condition body alternate, site, worded, _, present => by
      simp only [Stmt.occurrences, List.mem_append] at present
      rcases present with present | present | present
      · exact (Site.Reaches.refl site).of_uses present
      · exact (Site.Reaches.push site).trans (Stmt.AllWorded.reaches worded.1 _ present)
      · exact Alternate.Worded.reaches worded.2 _ present
  | .loop condition body, site, worded, _, present => by
      simp only [Stmt.occurrences, List.mem_append] at present
      rcases present with present | present
      · exact (Site.Reaches.refl site).of_uses present
      · exact (Site.Reaches.push site).trans (Stmt.AllWorded.reaches worded _ present)
  | .switch subject arms, site, worded, _, present => by
      simp only [Stmt.occurrences, List.mem_append] at present
      rcases present with present | present
      · exact (Site.Reaches.refl site).of_uses present
      · exact Arm.AllWorded.reaches worded _ present

theorem Alternate.Worded.reaches : ∀ {alternate : Alternate} {site : Site}, alternate.Worded →
    ∀ occurrence ∈ alternate.occurrences site, site.Reaches occurrence.site
  | .none, _, _, _, present => by simp [Alternate.occurrences] at present
  | .elseBranch condition body alternate, site, worded, _, present => by
      simp only [Alternate.occurrences, List.mem_append] at present
      rcases present with present | present | present
      · exact (Site.Reaches.refl site).of_uses present
      · exact (Site.Reaches.push site).trans (Stmt.AllWorded.reaches worded.1 _ present)
      · exact Alternate.Worded.reaches worded.2 _ present
  | .otherwise body, site, worded, _, present =>
      (Site.Reaches.push site).trans (Stmt.AllWorded.reaches worded _ present)

theorem Arm.Worded.reaches : ∀ {arm : Arm} {site : Site}, arm.Worded →
    ∀ occurrence ∈ arm.occurrences site, site.Reaches occurrence.site
  | .value pattern body, site, worded, _, present => by
      simp only [Arm.occurrences, List.mem_append] at present
      rcases present with present | present
      · exact (Site.Reaches.refl site).of_uses present
      · exact (Site.Reaches.push site).trans (Stmt.AllWorded.reaches worded _ present)
  | .otherwise body, site, worded, _, present =>
      (Site.Reaches.push site).trans (Stmt.AllWorded.reaches worded _ present)

theorem Stmt.AllWorded.reaches : ∀ {body : List Stmt} {site : Site}, Stmt.AllWorded body →
    ∀ occurrence ∈ Stmt.allOccurrences site body, site.Reaches occurrence.site
  | [], _, _, _, present => by simp [Stmt.allOccurrences] at present
  | first :: rest, site, worded, _, present => by
      simp only [Stmt.allOccurrences, List.mem_append] at present
      rcases present with present | present
      · exact Stmt.Worded.reaches worded.1 _ present
      · exact (Site.Reaches.declare site worded.1.declares).trans
          (Stmt.AllWorded.reaches worded.2 _ present)

theorem Arm.AllWorded.reaches : ∀ {arms : List Arm} {site : Site}, Arm.AllWorded arms →
    ∀ occurrence ∈ Arm.allOccurrences site arms, site.Reaches occurrence.site
  | [], _, _, _, present => by simp [Arm.allOccurrences] at present
  | first :: rest, site, worded, _, present => by
      simp only [Arm.allOccurrences, List.mem_append] at present
      rcases present with present | present
      · exact Arm.Worded.reaches worded.1 _ present
      · exact Arm.AllWorded.reaches worded.2 _ present

end

mutual

/-- What is declared inside of a file keeps its name. -/
theorem Stmt.Rebound.worded : ∀ {s s' : Stmt} {hidden : List String}, s.Rebound naming hidden s' →
    s.Worded → s'.Worded
  | _, _, _, .expr _, _ | _, _, _, .comment _, _ | _, _, _, .use _, _ | _, _, _, .returns _, _ =>
      trivial
  | _, _, _, .declare _, worded | _, _, _, .prototype _, worded => worded
  | _, _, _, .function inside, ⟨named, params, worded⟩ =>
      ⟨named, params, Stmt.AllRebound.worded inside worded⟩
  | _, _, _, .branch _ inside rest, worded =>
      ⟨Stmt.AllRebound.worded inside worded.1, Alternate.Rebound.worded rest worded.2⟩
  | _, _, _, .loop _ inside, worded => Stmt.AllRebound.worded inside worded
  | _, _, _, .switch _ inside, worded => Arm.AllRebound.worded inside worded

theorem Alternate.Rebound.worded : ∀ {alternate alternate' : Alternate} {hidden : List String},
    alternate.Rebound naming hidden alternate' → alternate.Worded → alternate'.Worded
  | _, _, _, .none, _ => trivial
  | _, _, _, .elseBranch _ inside rest, worded =>
      ⟨Stmt.AllRebound.worded inside worded.1, Alternate.Rebound.worded rest worded.2⟩
  | _, _, _, .otherwise inside, worded => Stmt.AllRebound.worded inside worded

theorem Arm.Rebound.worded : ∀ {arm arm' : Arm} {hidden : List String},
    arm.Rebound naming hidden arm' → arm.Worded → arm'.Worded
  | _, _, _, .value _ inside, worded | _, _, _, .otherwise inside, worded =>
      Stmt.AllRebound.worded inside worded

theorem Stmt.AllRebound.worded : ∀ {body body' : List Stmt} {hidden : List String},
    Stmt.AllRebound naming hidden body body' → Stmt.AllWorded body → Stmt.AllWorded body'
  | _, _, _, .nil, _ => trivial
  | _, _, _, .cons rebound rest, worded =>
      ⟨Stmt.Rebound.worded rebound worded.1, Stmt.AllRebound.worded rest worded.2⟩

theorem Arm.AllRebound.worded : ∀ {arms arms' : List Arm} {hidden : List String},
    Arm.AllRebound naming hidden arms arms' → Arm.AllWorded arms → Arm.AllWorded arms'
  | _, _, _, .nil, _ => trivial
  | _, _, _, .cons rebound rest, worded =>
      ⟨Arm.Rebound.worded rebound worded.1, Arm.AllRebound.worded rest worded.2⟩

end

/-- Inside of a merged file only a name from its top may have a dot. -/
theorem Stmt.ReboundTop.reaches {s s' : Stmt} (rebound : s.ReboundTop naming s')
    (worded : s.Worded) : ∀ occurrence ∈ s'.occurrences site,
      (site.declare s'.declares).Reaches occurrence.site := by
  intro occurrence present
  have before : (site.declare s'.declares).Reaches site :=
    fun _ visible => .inl (List.mem_append_left _ visible)
  cases rebound with
  | @declare decl _ _ =>
      exact before.trans ((Site.Reaches.refl (site.value _)).of_uses present)
  | prototype header => simp [Stmt.occurrences] at present
  | function inside =>
      obtain ⟨_, params, worded⟩ := worded
      exact (Site.Reaches.enter _ (List.forall_mem_map.mpr params)).trans
        ((inside.worded worded).reaches _ present)
  | inside _ inside => exact before.trans ((inside.worded worded).reaches _ present)

end Inside

end SmallLang
