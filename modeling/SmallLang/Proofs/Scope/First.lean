import Mathlib.Data.List.Perm.Basic
import SmallLang.Proofs.Position.Ordered
import SmallLang.Proofs.Scope.Resolved
import SmallLang.Proofs.Typing.Places

/-!
# The undeclared name that is reported

A name that nothing declares is remembered where inference comes by it first, and of all that are
remembered the first in the source is reported. Inference goes from the left to the right, except
that it comes by the arguments of a call before it comes by what is called. So the first undeclared
name is reported unless it is called with arguments that use it, too.
-/

set_option autoImplicit false

namespace SmallLang

/-! ### Where expressions stand -/

/-- An expression at some site. -/
structure Spot where
  site : Site
  expression : Expr

/-- The uses of names in an expression at some site. -/
def Spot.occurrences (spot : Spot) : List Occurrence := spot.site.uses spot.expression.mentions

mutual

/-- The expressions of a statement at a site. -/
def Stmt.spots (site : Site) : Stmt → List Spot
  | .expr e => [⟨site, e⟩]
  | .comment _ | .use _ | .parameter _ | .function _ none => []
  | .returns value => value.toList.map (⟨site, ·⟩)
  | .declare decl => decl.value.toList.map (⟨site.value decl.name, ·⟩)
  | .function header (some body) =>
      Stmt.allSpots ((site.declare [header.name]).enter (header.parameters.map (·.name))) body
  | .branch condition body alternate =>
      ⟨site, condition⟩ :: (Stmt.allSpots (site.enter []) body ++ alternate.spots site)
  | .loop condition body => ⟨site, condition⟩ :: Stmt.allSpots (site.enter []) body
  | .switch subject arms => ⟨site, subject⟩ :: Arm.allSpots site arms
  | .arm single => single.spots site
  | .merged body => Stmt.allSpots site body

def Alternate.spots (site : Site) : Alternate → List Spot
  | .none => []
  | .elseBranch condition body alternate =>
      ⟨site, condition⟩ :: (Stmt.allSpots (site.enter []) body ++ alternate.spots site)
  | .otherwise body => Stmt.allSpots (site.enter []) body

def Arm.spots (site : Site) : Arm → List Spot
  | .value pattern body => ⟨site, pattern⟩ :: Stmt.allSpots (site.enter []) body
  | .otherwise body => Stmt.allSpots (site.enter []) body

/-- The expressions of statements, each of which sees what those before it declare. -/
def Stmt.allSpots (site : Site) : List Stmt → List Spot
  | [] => []
  | first :: rest => first.spots site ++ Stmt.allSpots (site.declare first.declares) rest

def Arm.allSpots (site : Site) : List Arm → List Spot
  | [] => []
  | first :: rest => first.spots site ++ Arm.allSpots site rest

end

/-- The expressions of a program. -/
def Program.spots (program : Program) : List Spot := Stmt.allSpots .start program

section Spots

theorem Spot.occurrences_toList (site : Site) (value : Option Expr) :
    (value.toList.map (Spot.mk site)).flatMap Spot.occurrences =
      site.uses (Expr.mentions? value) := by
  cases value with
  | none => rfl
  | some e => exact List.append_nil _

mutual

/-- The uses of names in a statement are those in its expressions. -/
theorem Stmt.occurrences_spots : ∀ (s : Stmt) (site : Site),
    (s.spots site).flatMap Spot.occurrences = s.occurrences site
  | .expr _, _ => List.append_nil _
  | .comment _, _ | .use _, _ | .parameter _, _ | .function _ none, _ => rfl
  | .returns value, site => Spot.occurrences_toList site value
  | .declare decl, site => Spot.occurrences_toList (site.value decl.name) decl.value
  | .function _ (some body), _ => Stmt.occurrences_allSpots body _
  | .branch _ body alternate, site => by
      rw [Stmt.spots, List.flatMap_cons, List.flatMap_append, Stmt.occurrences_allSpots body,
        alternate.occurrences_spots, Stmt.occurrences, Spot.occurrences]
  | .loop _ body, site => by
      rw [Stmt.spots, List.flatMap_cons, Stmt.occurrences_allSpots body, Stmt.occurrences,
        Spot.occurrences]
  | .switch _ arms, site => by
      rw [Stmt.spots, List.flatMap_cons, Arm.occurrences_allSpots arms, Stmt.occurrences,
        Spot.occurrences]
  | .arm single, site => single.occurrences_spots site
  | .merged body, site => Stmt.occurrences_allSpots body site

theorem Alternate.occurrences_spots : ∀ (alternate : Alternate) (site : Site),
    (alternate.spots site).flatMap Spot.occurrences = alternate.occurrences site
  | .none, _ => rfl
  | .elseBranch _ body alternate, site => by
      rw [Alternate.spots, List.flatMap_cons, List.flatMap_append, Stmt.occurrences_allSpots body,
        alternate.occurrences_spots, Alternate.occurrences, Spot.occurrences]
  | .otherwise body, _ => Stmt.occurrences_allSpots body _

theorem Arm.occurrences_spots : ∀ (arm : Arm) (site : Site),
    (arm.spots site).flatMap Spot.occurrences = arm.occurrences site
  | .value _ body, site => by
      rw [Arm.spots, List.flatMap_cons, Stmt.occurrences_allSpots body, Arm.occurrences,
        Spot.occurrences]
  | .otherwise body, _ => Stmt.occurrences_allSpots body _

theorem Stmt.occurrences_allSpots : ∀ (body : List Stmt) (site : Site),
    (Stmt.allSpots site body).flatMap Spot.occurrences = Stmt.allOccurrences site body
  | [], _ => rfl
  | first :: rest, site => by
      rw [Stmt.allSpots, List.flatMap_append, first.occurrences_spots,
        Stmt.occurrences_allSpots rest, Stmt.allOccurrences]

theorem Arm.occurrences_allSpots : ∀ (arms : List Arm) (site : Site),
    (Arm.allSpots site arms).flatMap Spot.occurrences = Arm.allOccurrences site arms
  | [], _ => rfl
  | first :: rest, site => by
      rw [Arm.allSpots, List.flatMap_append, first.occurrences_spots,
        Arm.occurrences_allSpots rest, Arm.allOccurrences]

end

theorem Program.occurrences_spots (program : Program) :
    program.spots.flatMap Spot.occurrences = program.occurrences :=
  Stmt.occurrences_allSpots program .start

/-- Where the identifiers in the expression of a spot stand. -/
def Spot.marks (spot : Spot) : List Position := spot.expression.marks

theorem Spot.marks_toList (site : Site) (value : Option Expr) :
    (value.toList.map (Spot.mk site)).flatMap Spot.marks = Expr.marks? value := by
  cases value with
  | none => rfl
  | some e => exact List.append_nil _

mutual

/-- The marks of the expressions in a statement are among those of the statement, in the same
order. -/
theorem Stmt.marks_spots : ∀ (s : Stmt) (site : Site),
    ((s.spots site).flatMap Spot.marks).Sublist s.marks
  | .expr e, site => by
      rw [Stmt.spots, List.flatMap_singleton]
      exact List.Sublist.refl _
  | .comment _, _ | .use _, _ | .parameter _, _ | .function _ none, _ => List.nil_sublist _
  | .returns value, site => by
      rw [Stmt.spots, Spot.marks_toList]
      exact List.Sublist.refl _
  | .declare decl, site => by
      rw [Stmt.spots, Spot.marks_toList]
      exact List.sublist_cons_self ..
  | .function _ (some body), _ => (Stmt.marks_allSpots body _).cons _
  | .branch condition body alternate, site => by
      rw [Stmt.spots, List.flatMap_cons, List.flatMap_append]
      exact ((Stmt.marks_allSpots body _).append (alternate.marks_spots site)).append_left
        condition.marks
  | .loop condition body, _ => (Stmt.marks_allSpots body _).append_left condition.marks
  | .switch subject arms, site => (Arm.marks_allSpots arms site).append_left subject.marks
  | .arm single, site => single.marks_spots site
  | .merged body, site => Stmt.marks_allSpots body site

theorem Alternate.marks_spots : ∀ (alternate : Alternate) (site : Site),
    ((alternate.spots site).flatMap Spot.marks).Sublist alternate.marks
  | .none, _ => List.nil_sublist _
  | .elseBranch condition body alternate, site => by
      rw [Alternate.spots, List.flatMap_cons, List.flatMap_append]
      exact ((Stmt.marks_allSpots body _).append (alternate.marks_spots site)).append_left
        condition.marks
  | .otherwise body, _ => Stmt.marks_allSpots body _

theorem Arm.marks_spots : ∀ (arm : Arm) (site : Site),
    ((arm.spots site).flatMap Spot.marks).Sublist arm.marks
  | .value pattern body, _ => (Stmt.marks_allSpots body _).append_left pattern.marks
  | .otherwise body, _ => Stmt.marks_allSpots body _

theorem Stmt.marks_allSpots : ∀ (body : List Stmt) (site : Site),
    ((Stmt.allSpots site body).flatMap Spot.marks).Sublist (Stmt.allMarks body)
  | [], _ => List.nil_sublist _
  | first :: rest, site => by
      rw [Stmt.allSpots, List.flatMap_append]
      exact (first.marks_spots site).append (Stmt.marks_allSpots rest _)

theorem Arm.marks_allSpots : ∀ (arms : List Arm) (site : Site),
    ((Arm.allSpots site arms).flatMap Spot.marks).Sublist (Arm.allMarks arms)
  | [], _ => List.nil_sublist _
  | first :: rest, site => by
      rw [Arm.allSpots, List.flatMap_append]
      exact (first.marks_spots site).append (Arm.marks_allSpots rest site)

end

end Spots

/-! ### The order of the names in an expression -/

/-- A name in what is called, among some expressions, that is also used in the arguments. -/
def Expr.Belated (parts : List Expr) (mention : String × Position) : Prop :=
  ∃ callee arguments, .call callee arguments ∈ parts ∧ mention ∈ callee.mentions ∧
    mention.1 ∈ (Expr.allMentions arguments).map Prod.fst

/-- Two uses of the same name, the second behind the first unless it is belated. -/
def Expr.InTurn (parts : List Expr) (earlier later : String × Position) : Prop :=
  earlier.1 = later.1 → earlier.2.offset < later.2.offset ∨ Expr.Belated parts later

namespace Expr

variable {parts parts' : List Expr} {earlier later mention : String × Position}

theorem Belated.mono (within : parts ⊆ parts') (belated : Belated parts mention) :
    Belated parts' mention := by
  obtain ⟨callee, arguments, present, about⟩ := belated
  exact ⟨callee, arguments, within present, about⟩

theorem InTurn.mono (within : parts ⊆ parts') (inTurn : InTurn parts earlier later) :
    InTurn parts' earlier later :=
  fun same => (inTurn same).imp_right (Belated.mono within)

/-- Names that stand one behind the other are in turn. -/
theorem inTurn_append {first second : List (String × Position)} {marks marks' : List Position}
    (among : first.map Prod.snd ⊆ marks) (among' : second.map Prod.snd ⊆ marks')
    (across : ∀ earlier ∈ marks, ∀ later ∈ marks', earlier.Precedes later)
    (inTurn : first.Pairwise (InTurn parts)) (inTurn' : second.Pairwise (InTurn parts)) :
    (first ++ second).Pairwise (InTurn parts) := by
  refine List.pairwise_append.mpr ⟨inTurn, inTurn', fun earlier present later present' _ => ?_⟩
  have precedes := across _ (among (List.mem_map_of_mem present)) _
    (among' (List.mem_map_of_mem present'))
  exact .inl precedes.2

mutual

/-- The names that an expression uses stand where its identifiers do. -/
theorem perm_marks : (e : Expr) → (e.mentions.map Prod.snd).Perm e.marks
  | .identifier _ _ | .number _ | .string _ | .boolean _ | .null => .refl _
  | .member object _ => by
      have inside := object.perm_marks
      cases object with
      | identifier space position => exact .refl _
      | _ => exact inside
  | .call callee arguments => by
      rw [mentions, List.map_append, marks_call]
      exact ((perm_allMarks arguments).append callee.perm_marks).trans List.perm_append_comm
  | .binary _ left right => by
      rw [mentions, List.map_append, marks_binary]
      exact left.perm_marks.append right.perm_marks
  | .prefixed _ operand => operand.perm_marks
  | .postfixed _ operand => operand.perm_marks

theorem perm_allMarks : (expressions : List Expr) →
    ((Expr.allMentions expressions).map Prod.snd).Perm (Expr.allMarks expressions)
  | [] => .refl _
  | first :: rest => by
      rw [allMentions, List.map_append, allMarks_cons]
      exact first.perm_marks.append (perm_allMarks rest)

end

mutual

/-- The uses of a name in an expression are in turn. -/
theorem inTurn_mentions : (e : Expr) → e.marks.Pairwise Position.Precedes →
    e.mentions.Pairwise (InTurn e.parts)
  | .identifier _ _, _ => List.pairwise_singleton ..
  | .number _, _ | .string _, _ | .boolean _, _ | .null, _ => .nil
  | .member object _, ordered => by
      have inside := object.inTurn_mentions ordered
      cases object with
      | identifier space position => exact List.pairwise_singleton ..
      | _ => exact inside.imp (InTurn.mono (List.subset_cons_self ..))
  | .call callee arguments, ordered => by
      rw [marks_call, List.pairwise_append] at ordered
      have called := callee.inTurn_mentions ordered.1
      have given := inTurn_allMentions arguments ordered.2.1
      -- The arguments come first, so that a name of theirs is belated where it is called.
      refine List.pairwise_append.mpr ⟨?_, ?_, fun earlier present later present' same => ?_⟩
      · exact given.imp (InTurn.mono (List.subset_cons_of_subset _ (List.subset_append_right ..)))
      · exact called.imp (InTurn.mono (List.subset_cons_of_subset _ (List.subset_append_left ..)))
      · refine .inr ⟨callee, arguments, List.mem_cons_self, present', ?_⟩
        exact same ▸ List.mem_map_of_mem present
  | .binary _ left right, ordered => by
      rw [marks_binary, List.pairwise_append] at ordered
      have first := left.inTurn_mentions ordered.1
      have second := right.inTurn_mentions ordered.2.1
      refine inTurn_append left.perm_marks.subset right.perm_marks.subset ordered.2.2 ?_ ?_
      · exact first.imp (InTurn.mono (List.subset_cons_of_subset _ (List.subset_append_left ..)))
      · exact second.imp (InTurn.mono (List.subset_cons_of_subset _ (List.subset_append_right ..)))
  | .prefixed _ operand, ordered =>
      (operand.inTurn_mentions ordered).imp (InTurn.mono (List.subset_cons_self ..))
  | .postfixed _ operand, ordered =>
      (operand.inTurn_mentions ordered).imp (InTurn.mono (List.subset_cons_self ..))

theorem inTurn_allMentions : (expressions : List Expr) →
    (Expr.allMarks expressions).Pairwise Position.Precedes →
      (Expr.allMentions expressions).Pairwise (InTurn (Expr.allParts expressions))
  | [], _ => .nil
  | first :: rest, ordered => by
      rw [allMarks_cons, List.pairwise_append] at ordered
      have begins := first.inTurn_mentions ordered.1
      have others := inTurn_allMentions rest ordered.2.1
      refine inTurn_append first.perm_marks.subset (perm_allMarks rest).subset ordered.2.2 ?_ ?_
      · exact begins.imp (InTurn.mono (List.subset_append_left ..))
      · exact others.imp (InTurn.mono (List.subset_append_right ..))

end

section Calls

variable {callee : Expr} {arguments : List Expr}

mutual

/-- The names that a call uses are used by every expression around it, in the same order. -/
theorem mentions_sublist_of_call : (e : Expr) → .call callee arguments ∈ e.parts →
    (Expr.call callee arguments).mentions.Sublist e.mentions
  | .identifier _ _, present | .number _, present | .string _, present | .boolean _, present
  | .null, present => by simp [parts] at present
  | .member object _, present => by
      have present := (List.mem_cons.mp present).resolve_left nofun
      have inside := object.mentions_sublist_of_call present
      cases object with
      | identifier space position => simp [parts] at present
      | _ => exact inside
  | .call other others, present => by
      rw [parts, List.mem_cons] at present
      obtain same | present := present
      · rw [same]
      · rw [mentions]
        obtain present | present := List.mem_append.mp present
        · exact (other.mentions_sublist_of_call present).trans (List.sublist_append_right ..)
        · exact (allMentions_sublist_of_call others present).trans (List.sublist_append_left ..)
  | .binary _ left right, present => by
      rw [parts, List.mem_cons] at present
      rw [mentions]
      obtain present | present := List.mem_append.mp (present.resolve_left nofun)
      · exact (left.mentions_sublist_of_call present).trans (List.sublist_append_left ..)
      · exact (right.mentions_sublist_of_call present).trans (List.sublist_append_right ..)
  | .prefixed _ operand, present =>
      operand.mentions_sublist_of_call ((List.mem_cons.mp present).resolve_left nofun)
  | .postfixed _ operand, present =>
      operand.mentions_sublist_of_call ((List.mem_cons.mp present).resolve_left nofun)

theorem allMentions_sublist_of_call : (expressions : List Expr) →
    .call callee arguments ∈ Expr.allParts expressions →
      (Expr.call callee arguments).mentions.Sublist (Expr.allMentions expressions)
  | [], present => nomatch present
  | first :: rest, present => by
      rw [allMentions]
      obtain present | present := List.mem_append.mp present
      · exact (first.mentions_sublist_of_call present).trans (List.sublist_append_left ..)
      · exact (allMentions_sublist_of_call rest present).trans (List.sublist_append_right ..)

end

end Calls

/-- Before inference comes by a belated name it has come by the same name in the arguments. -/
theorem Belated.sublist {e : Expr} (belated : Belated e.parts mention) :
    ∃ position, [(mention.1, position), mention].Sublist e.mentions := by
  obtain ⟨callee, arguments, present, called, given⟩ := belated
  obtain ⟨⟨name, position⟩, given, rfl⟩ := List.mem_map.mp given
  have together := (List.singleton_sublist.mpr given).append (List.singleton_sublist.mpr called)
  exact ⟨position, together.trans (mentions_sublist_of_call e present)⟩

end Expr

/-! ### The order of the names in a program -/

namespace Occurrence

/-- The use of a name that nothing declares: neither a scope that is open there, nor the root scope
anywhere. -/
def Undeclared (occurrence : Occurrence) (program : Program) : Prop :=
  occurrence.name ∉ occurrence.site.visible ∧ occurrence.name ∉ Stmt.allDeclares program

/-- The use of a name in what is called, where the arguments of the call use the name, too. -/
def Belated (occurrence : Occurrence) (program : Program) : Prop :=
  ∃ spot ∈ program.spots, occurrence.site = spot.site ∧
    Expr.Belated spot.expression.parts (occurrence.name, occurrence.position)

/-- Before inference comes by a belated name it has come by the same name at the same site. -/
theorem Belated.sublist {occurrence : Occurrence} {program : Program}
    (belated : occurrence.Belated program) : ∃ argument : Occurrence,
      argument.name = occurrence.name ∧ argument.site = occurrence.site ∧
        [argument, occurrence].Sublist program.occurrences := by
  obtain ⟨name, position, site⟩ := occurrence
  obtain ⟨spot, present, rfl, belated⟩ := belated
  obtain ⟨position', before⟩ := Expr.Belated.sublist belated
  refine ⟨⟨name, position', spot.site⟩, rfl, rfl, ?_⟩
  have inside : [⟨name, position', spot.site⟩, ⟨name, position, spot.site⟩].Sublist
      spot.occurrences :=
    before.map fun mention : String × Position => (⟨mention.1, mention.2, spot.site⟩ : Occurrence)
  rw [← Program.occurrences_spots, List.flatMap_def]
  exact inside.trans (List.sublist_flatten_of_mem (List.mem_map_of_mem present))

end Occurrence

/-- At the end of a walk over a program every undeclared name that is used in it waits for a
declaration. -/
theorem Engine.Accounts.waits_of_undeclared {program : Program} {engine last : Engine}
    {occurrences : List Occurrence} {occurrence : Occurrence}
    (accounts : engine.Accounts last occurrences)
    (tracks : last.Tracks (Site.start.declare (Stmt.allDeclares program)))
    (used : occurrence ∈ occurrences) (undeclared : occurrence.Undeclared program) :
    ∃ reference ∈ last.forward, reference.name = occurrence.name := by
  obtain ⟨notType, -, expects⟩ := (accounts.found occurrence used).resolve_left undeclared.1
  refine expects.resolve_right ?_
  intro known
  cases (tracks.declared occurrence.name).mp known with
  | inl isType => exact Bool.false_ne_true (notType.symm.trans isType)
  | inr declared => exact undeclared.2 declared

namespace Program

variable {source file : String} {program part : Program} {last : Engine}
  {occurrence other : Occurrence}

section Order

variable (reads : Program.read source file = .ok program)
include reads

theorem marks_spots_precede : (program.spots.flatMap Spot.marks).Pairwise Position.Precedes :=
  (marks_precede reads).sublist (Stmt.marks_allSpots program .start)

/-- No two names stand at the same position. -/
theorem nodup_positions : (program.occurrences.map (·.position)).Nodup := by
  have perm : (program.occurrences.map (·.position)).Perm (program.spots.flatMap Spot.marks) := by
    rw [← occurrences_spots, List.map_flatMap]
    refine List.Perm.flatMap_left _ ?_
    intro spot _
    rw [Spot.occurrences, Site.uses, List.map_map]
    exact spot.expression.perm_marks
  refine perm.nodup_iff.mpr ((marks_spots_precede reads).imp fun precedes same => ?_)
  exact Nat.lt_irrefl _ (same ▸ precedes).2

/-- Inference comes by the uses of a name in the order of the source, except for belated ones. -/
theorem occurrences_inTurn : program.occurrences.Pairwise fun earlier later =>
    earlier.name = later.name →
      earlier.position.offset < later.position.offset ∨ later.Belated program := by
  obtain ⟨inside, across⟩ := List.pairwise_flatMap.mp (marks_spots_precede reads)
  rw [← occurrences_spots, List.pairwise_flatMap]
  refine ⟨fun spot present => List.pairwise_map.mpr ?_, across.imp ?_⟩
  · refine (spot.expression.inTurn_mentions (inside spot present)).imp fun inTurn same => ?_
    exact (inTurn same).imp_right fun belated => ⟨spot, present, rfl, belated⟩
  · intro spot spot' precede earlier present later present' _
    obtain ⟨mention, used, rfl⟩ := List.mem_map.mp present
    obtain ⟨mention', used', rfl⟩ := List.mem_map.mp present'
    exact .inl (precede _ (spot.expression.perm_marks.subset (List.mem_map_of_mem used)) _
      (spot'.expression.perm_marks.subset (List.mem_map_of_mem used'))).2

/-- What inference comes by first is not belated. -/
theorem not_belated_of_first
    (found : Occurrence.firstHidden? occurrence.name program.occurrences = some occurrence) :
    ¬ occurrence.Belated program := by
  intro belated
  obtain ⟨argument, same, here, both⟩ := belated.sublist
  have hidden := (Occurrence.firstHidden?_spec found).2.2
  obtain ⟨front, back, split, early, late⟩ := List.cons_sublist_iff.mp both
  -- The argument is hidden as well, so what is found first is in front of what is called.
  rw [Occurrence.firstHidden?, split, List.find?_append] at found
  cases first : front.find? fun other =>
      other.name = occurrence.name ∧ other.name ∉ other.site.visible with
  | none => exact List.find?_eq_none.mp first argument early (by simpa [same, here] using hidden)
  | some other =>
      rw [first, Option.some_or] at found
      obtain rfl := Option.some.inj found
      have distinct := nodup_positions reads
      rw [split, List.map_append, List.nodup_append] at distinct
      exact distinct.2.2 _ (List.mem_map_of_mem (List.mem_of_find?_eq_some first)) _
        (List.mem_map_of_mem (List.singleton_sublist.mp late)) rfl

/-- What inference comes by first stands in front of all that is not belated. -/
theorem le_of_first
    (found : Occurrence.firstHidden? other.name program.occurrences = some occurrence)
    (used : other ∈ program.occurrences) (hidden : other.name ∉ other.site.visible)
    (inTurn : ¬ other.Belated program) :
    occurrence.position.offset ≤ other.position.offset := by
  obtain ⟨_, same, _⟩ := Occurrence.firstHidden?_spec found
  obtain ⟨-, before, after, split, visible⟩ := List.find?_eq_some_iff_append.mp found
  have ordered := occurrences_inTurn reads
  rw [split] at used ordered
  cases List.mem_append.mp used with
  | inl early =>
      have seen := visible other early
      simp [hidden] at seen
  | inr late =>
      cases List.mem_cons.mp late with
      | inl itself => exact itself ▸ Nat.le_refl _
      | inr later =>
          have behind := (List.pairwise_append.mp ordered).2.1
          refine Nat.le_of_lt (((List.pairwise_cons.mp behind).1 other later same).resolve_right ?_)
          exact inTurn

/-- A walk over the whole program has dealt with all uses of names. -/
theorem accounts_of_ends
    (ends : (Stmt.walkAll program).Ends (Engine.start.learn program) part last) :
    last.Tracks (Site.start.declare (Stmt.allDeclares program)) ∧
      Engine.start.Accounts last program.occurrences := by
  obtain ⟨tokens, scans, parsed⟩ := exists_tokens_of_read reads
  have loaded := (Program.Loaded.parsed parsed).allLoaded
  have walked := Stmt.resolves_walkAll program .start loaded rfl .start Engine.tracks_start
  obtain ⟨term, ended⟩ := ends
  rw [Engine.learn_of_loaded .start loaded] at ended
  unfold Walk.Meets at walked
  rw [ended] at walked
  exact walked

end Order

/-- Where a walk is done and a name still waits for its declaration, the name is reported. -/
theorem infer_of_firstForward? {order : ForwardOrder} {reference : ForwardReference}
    (ends : (Stmt.walkAll program).Ends (Engine.start.learn program) part last)
    (first : last.firstForward? order = some reference) :
    program.infer order = .error ⟨.notDeclared reference.name, reference.position⟩ := by
  unfold infer
  rw [Infer.run_of_waiting ends first]

/-- The undeclared name that is reported: if inference comes to the end of a program that was read,
and names still wait for a declaration, then what is reported is the first undeclared name in the
source that is not belated, and where it stands. The offsets are those of 32 bits as long as the
source has less than 4 GiB. -/
theorem first_undeclared (order : ForwardOrder) (reads : Program.read source file = .ok program)
    (ends : (Stmt.walkAll program).Ends (Engine.start.learn program) part last)
    (waits : last.forward ≠ []) :
    ∃ occurrence ∈ program.occurrences,
      program.infer order = .error ⟨.notDeclared occurrence.name, occurrence.position⟩ ∧
        occurrence.Undeclared program ∧ ¬ occurrence.Belated program ∧
        ∀ other ∈ program.occurrences, other.Undeclared program → ¬ other.Belated program →
          occurrence.position.offset ≤ other.position.offset := by
  obtain ⟨tracks, accounts⟩ := accounts_of_ends reads ends
  obtain ⟨reference, first⟩ : ∃ reference, last.firstForward? order = some reference :=
    Option.ne_none_iff_exists'.mp fun none => waits (Engine.firstForward?_eq_none_iff.mp none)
  have stopped := infer_of_firstForward? ends first
  obtain ⟨present, least⟩ := Engine.firstForward?_spec first
  -- Whatever waits stands where its name is used first without being visible.
  have hidden : ∀ waiting ∈ last.forward, ∃ occurrence,
      Occurrence.firstHidden? waiting.name program.occurrences = some occurrence ∧
        occurrence.position = waiting.position := fun waiting present =>
    ((accounts.adds waiting present).resolve_left List.not_mem_nil).2
  obtain ⟨occurrence, found, stands⟩ := hidden reference present
  obtain ⟨used, same, unseen⟩ := Occurrence.firstHidden?_spec found
  rw [← same] at found
  rw [← same, ← stands] at stopped
  refine ⟨occurrence, used, stopped, ⟨unseen, fun declared => ?_⟩,
    not_belated_of_first reads found, fun other used' undeclared inTurn => ?_⟩
  · have known := (tracks.declared occurrence.name).mpr (.inr declared)
    rw [same, tracks.waits reference present] at known
    cases known
  · obtain ⟨reference', present', same'⟩ := accounts.waits_of_undeclared tracks used' undeclared
    obtain ⟨occurrence', found', stands'⟩ := hidden reference' present'
    rw [same'] at found'
    calc occurrence.position.offset
      _ = reference.position.offset := by rw [stands]
      _ ≤ reference'.position.offset := least reference' present'
      _ = occurrence'.position.offset := by rw [stands']
      _ ≤ other.position.offset := le_of_first reads found' used' undeclared.1 inTurn

end Program

namespace CalledWithItself

/-- A call of an undeclared name, with another one and itself. -/
def call : Expr :=
  .call (.identifier "a" ⟨"main", 0⟩) [.identifier "b" ⟨"main", 2⟩, .identifier "a" ⟨"main", 5⟩]

def program : Program := [.expr call]

/-- The engine at the end of the walk. -/
def last : Engine := (Stmt.walkAll program (Engine.start.learn program)).engine

/-- The name that is called. -/
def called : Occurrence := ⟨"a", ⟨"main", 0⟩, .start⟩

end CalledWithItself

open CalledWithItself in
/-- What is called stands in front and is undeclared as well, but the first argument is reported. -/
theorem Program.first_undeclared_called_with_itself :
    Program.read "a(b, a)" "main" = .ok program ∧
      (Stmt.walkAll program).Ends (Engine.start.learn program) program last ∧ last.forward ≠ [] ∧
      program.infer .byUse = .error ⟨.notDeclared "b", ⟨"main", 2⟩⟩ ∧
      (∃ occurrence ∈ program.occurrences,
        program.infer .byUse = .error ⟨.notDeclared occurrence.name, occurrence.position⟩ ∧
          occurrence.Undeclared program ∧ ¬ occurrence.Belated program ∧
          ∀ other ∈ program.occurrences, other.Undeclared program → ¬ other.Belated program →
            occurrence.position.offset ≤ other.position.offset) ∧
      called ∈ program.occurrences ∧ called.Undeclared program ∧ called.Belated program := by
  have reads : Program.read "a(b, a)" "main" = .ok program := read_of_toOption (by decide +kernel)
  have ends : (Stmt.walkAll program).Ends (Engine.start.learn program) program last := ⟨_, rfl⟩
  have waits : last.forward ≠ [] := by decide +kernel
  have used : program.occurrences =
      [⟨"b", ⟨"main", 2⟩, .start⟩, ⟨"a", ⟨"main", 5⟩, .start⟩, called] := rfl
  refine ⟨reads, ends, waits, rfl, first_undeclared .byUse reads ends waits, ?_, ?_, ?_⟩
  · simp [used]
  · exact ⟨List.not_mem_nil, List.not_mem_nil⟩
  · refine ⟨⟨.start, call⟩, List.mem_cons_self, rfl, ?_⟩
    refine ⟨.identifier "a" ⟨"main", 0⟩, _, List.mem_cons_self, List.mem_cons_self, ?_⟩
    simp [Expr.allMentions, Expr.mentions, called]

end SmallLang
