import SmallLang.Proofs.Order.Rooted

/-!
# The order of declarations

A program in order that passes its check is inferred in every other order of its declarations with
types of the same kinds, and passes the check again, as long as numbers of different kinds are
divided by each other only where their types do not depend on the order. Only a function whose
returns all come down to calls of itself can keep it from that: then nothing may be left that
decides its result.
-/

set_option autoImplicit false

namespace SmallLang

open Infer Walk

section Weights

variable {weights : List Kind} {waiting : String → Option Kind} {engine : Engine} {term : Term}

/-- What is settled of a note is of the weight that it has. -/
theorem NoteWeighs.settled {note note' : Option Term} {kind : Kind}
    (weighs : NoteWeighs weights note kind) (weighed : engine.Weighed waiting weights)
    (settles : (engine.table.unify engine.constraints).Settles note note') :
    NotesKind note' kind := by
  obtain ⟨term, rfl, weighs⟩ := weighs
  obtain ⟨rfl, settled⟩ := settles
  cases resolved : (engine.table.unify engine.constraints).resolve term with
  | pending root => cases settled (.pending root) (by rw [Option.map_some, resolved]; rfl)
  | concrete type =>
      refine ⟨type, by rw [Option.map_some, resolved], ?_⟩
      rw [weighed.table] at resolved
      exact weighed.balanced.kind_of_resolve weighs resolved

/-- A note that comes down to a type can be settled. -/
theorem Term.Grounded.settles (grounded : term.Grounded engine.constraints)
    (weighed : engine.Weighed waiting weights) :
    ∃ note, (engine.table.unify engine.constraints).Settles (some term) note := by
  have swept : Table.Swept weights.length engine.constraints
      (engine.table.unify engine.constraints) := by
    rw [weighed.table]
    exact Table.swept_unify_unbound weighed.balanced.within
  obtain ⟨type, resolved⟩ := grounded.exists_resolve swept
  refine ⟨some (.concrete type), by rw [Option.map_some, resolved], ?_⟩
  rintro _ ⟨⟩
  rfl

end Weights

section Start

variable {Γ : Env Binding}

/-- The root scope before any declaration: every name is waited for, and none is known. -/
def Env.awaiting (Γ : Env Binding) : Env Meaning :=
  ⟨fun name => (Γ.kindOf name).map fun kind => ⟨none, kind, true⟩, fun _ => none⟩

theorem Env.lookup_awaiting (Γ : Env Binding) (name : String) :
    Γ.awaiting.lookup name = (Γ.kindOf name).map fun kind => ⟨none, kind, true⟩ := rfl

theorem Env.agrees_awaiting (Γ : Env Binding) (name : String) : Γ.Agrees Γ.awaiting name := by
  intro binding inScope
  refine ⟨⟨none, binding.type.kind, true⟩, ?_, rfl, nofun⟩
  rw [lookup_awaiting, kindOf_eq inScope, Option.map_some]

theorem Env.unknown_awaiting (Γ : Env Binding) : Γ.awaiting.unknown = fun _ => true := by
  funext name
  rw [unknown, Meaning.unknown, lookup_awaiting]
  cases Γ.kindOf name <;> rfl

theorem Env.fresh_awaiting (Γ : Env Binding) : Γ.awaiting.Fresh Scopes.start := by
  rintro name ⟨notType, _⟩
  rw [Scopes.innermost_of_isRoot rfl, Scopes.resolve?_start, Ty.isTypeName_eq_false_iff.mp notType]
  rfl

theorem Engine.ready_start (apart : ∀ name binding, Γ.lookup name = some binding →
    Ty.isTypeName name = false) : Engine.start.Ready Γ.kindOf [] Γ.awaiting where
  weighed := ⟨rfl, .nil, nofun, nofun⟩
  idle := rfl
  sane := Scopes.sane_start
  follows := by
    intro name meaning known
    rw [Env.lookup_awaiting] at known
    obtain ⟨kind, awaits, rfl⟩ := Option.map_eq_some_iff.mp known
    obtain ⟨binding, inScope, rfl⟩ := Option.map_eq_some_iff.mp awaits
    refine .waits ?_ nofun awaits rfl
    rw [lookup?, show start.scopes.resolve? name = _ from Scopes.resolve?_start name,
      Ty.isTypeName_eq_false_iff.mp (apart name binding inScope)]
    rfl

end Start

/-! ### All declarations of a root scope -/

section Notes

variable {part result : List Stmt} {last : Engine} {weights : List Kind}
  {waiting : String → Option Kind} {first second : List (Option Term)} {kinds : List Kind}

/-- What is settled after a walk is of the kinds that the walk has noted. -/
theorem forall₂_notesKind_of_settles {table : Table} (weighed : last.Weighed waiting weights)
    (same : table = last.table.unify last.constraints)
    (noted : List.Forall₂ (NoteWeighs weights) first kinds)
    (settles : List.Forall₂ table.Settles first second) : List.Forall₂ NotesKind second kinds := by
  induction noted generalizing second with
  | nil =>
      cases settles
      exact .nil
  | cons weighs _ ih =>
      cases settles with
      | cons holds others => exact .cons (weighs.settled weighed (same ▸ holds)) (ih others)

theorem forall₂_notesSameKind (notes : List.Forall₂ NotesKind first kinds)
    (notes' : List.Forall₂ NotesKind second kinds) :
    List.Forall₂ NotesSameKind first second := by
  induction notes generalizing second with
  | nil =>
      cases notes'
      exact .nil
  | cons holds _ ih =>
      cases notes' with
      | cons holds' others => exact .cons ⟨_, holds, holds'⟩ (ih others)

/-- Trees that differ at most in their notes are alike if these are of the same kinds. -/
theorem Stmt.allAlike_of_notesKind {body result : List Stmt}
    (bare : Stmt.allBare result = Stmt.allBare body)
    (notes : List.Forall₂ NotesKind (Stmt.allNotes body) kinds)
    (notes' : List.Forall₂ NotesKind (Stmt.allNotes result) kinds) :
    Stmt.AllAlike NotesSameKind body result := by
  have left := Stmt.allBare_allAlike body
  have right := Stmt.allBare_allAlike result
  rw [bare] at right
  exact (left.compare (fun _ _ _ _ _ => trivial) right).of_allNotes
    (forall₂_notesSameKind notes notes')

end Notes

/-- All declarations of a typed root scope, in some order. None needs itself, each name of the scope
is declared once, and numbers of different kinds are divided only where their types are known. -/
structure Stmt.AllRooted (Γ : Env Binding) (body : List Stmt) : Prop where
  rooted : ∀ s ∈ body, ∃ name binding, s.Rooted Γ name binding
  divides : ∀ s ∈ body, s.DividesKnown Γ fun _ => true
  own : ∀ s ∈ body, ∀ name ∈ s.declared?, name ∉ s.needs []
  distinct : (body.filterMap Stmt.declared?).Nodup
  complete : ∀ name binding, Γ.lookup name = some binding → name ∈ body.filterMap Stmt.declared?

namespace Stmt.AllRooted

variable {Γ : Env Binding} {body moved typed result : List Stmt}

theorem declared (rooted : ∀ s ∈ body, ∃ name binding, s.Rooted Γ name binding) :
    body.filterMap declared? = (allAnnounced body).map Prod.fst := by
  induction body with
  | nil => rfl
  | cons first rest ih =>
      obtain ⟨name, binding, rooted'⟩ := rooted first List.mem_cons_self
      rw [List.filterMap_cons_some rooted'.declared, allAnnounced, rooted'.announced,
        ih fun s present => rooted s (List.mem_cons_of_mem first present)]
      rfl

/-- The declarations of a well-typed program in order are all that its root scope has. -/
theorem of_typed {last : Env Binding} {returned : List Ty}
    (typing : TypedAll .plain none (.announcing (allAnnounced typed)) typed last returned)
    (divides : Program.DividesKnown typed) (declares : ∀ s ∈ typed, s.declared?.isSome)
    (noted : AllNoted Term.IsType typed) (parsed : AllParsed (allBare typed))
    (ordered : allNeeds [] typed = []) :
    AllRooted (.announcing (allAnnounced typed)) typed := by
  have known : ∀ entry ∈ allAnnounced typed,
      (Env.announcing (allAnnounced typed)).lookup entry.1 = entry.2 := by
    intro entry present
    rw [Env.lookup_announcing, Scope.lookup_of_mem typing.announceable.distinct present]
    rfl
  have rooted := typing.rooted declares noted parsed rfl known
  have names := declared rooted
  have distinct : (typed.filterMap declared?).Nodup := names ▸ typing.announceable.distinct
  refine ⟨rooted, divides, fun s present name declared used => ?_, distinct,
    fun name binding inScope => ?_⟩
  · have needed := mem_allNeeds_of_needs declares distinct s present name declared used
    rw [ordered] at needed
    cases needed
  · rw [names]
    rw [Env.lookup_announcing] at inScope
    by_contra missing
    rw [Scope.lookup_eq_none_iff.mpr missing] at inScope
    cases inScope

theorem perm (all : AllRooted Γ body) (same : moved.Perm body) : AllRooted Γ moved where
  rooted := fun s present => all.rooted s (same.mem_iff.mp present)
  divides := fun s present => all.divides s (same.mem_iff.mp present)
  own := fun s present => all.own s (same.mem_iff.mp present)
  distinct := (same.filterMap _).nodup_iff.mpr all.distinct
  complete := fun name binding inScope =>
    (same.filterMap _).mem_iff.mpr (all.complete name binding inScope)

theorem declares (all : AllRooted Γ body) : ∀ s ∈ allBare body, s.declared?.isSome := by
  intro s present
  rw [allBare_eq_map] at present
  obtain ⟨s, present', rfl⟩ := List.mem_map.mp present
  obtain ⟨name, _, rooted⟩ := all.rooted s present'
  rw [s.declared?_bare, rooted.declared]
  rfl

theorem apart (all : AllRooted Γ body) (name : String) (binding : Binding)
    (inScope : Γ.lookup name = some binding) : Ty.isTypeName name = false := by
  obtain ⟨s, present, declared⟩ := List.mem_filterMap.mp (all.complete name binding inScope)
  obtain ⟨other, _, rooted⟩ := all.rooted s present
  rw [rooted.declared, Option.some.injEq] at declared
  exact declared ▸ rooted.notType

/-- In every order of the declarations the walk succeeds. No name is left without a declaration, and
what is noted is of the kinds that were noted before. -/
theorem walk (all : AllRooted Γ body) : ∃ part last weights kinds,
    (walkAll (allBare body)).Ends Engine.start part last ∧ last.forward = [] ∧ last.known = [] ∧
      last.Weighed Γ.kindOf weights ∧ List.Forall₂ NotesKind (allNotes body) kinds ∧
      List.Forall₂ (NoteWeighs weights) (allNotes part) kinds := by
  obtain ⟨kinds, notes, part, weights, last, ends, noted, advances, _⟩ := advances_rooted all.rooted
    all.divides all.own all.distinct (fun _ _ => rfl) Γ.agrees_awaiting Γ.unknown_awaiting
    (Engine.ready_start all.apart) Γ.fresh_awaiting
  obtain ⟨honours, walked, _⟩ := walked_walkAll ends all.declares rfl Scopes.sane_start
  refine ⟨part, last, weights, kinds, ends, ?_, honours.known, advances.weighed, notes, noted⟩
  rw [List.eq_nil_iff_forall_not_mem]
  intro reference waits
  obtain ⟨kind, awaits, _⟩ := advances.weighed.forward reference waits
  obtain ⟨binding, inScope, _⟩ := Option.map_eq_some_iff.mp awaits
  obtain ⟨s, present, declared⟩ := List.mem_filterMap.mp (all.complete _ binding inScope)
  have present' : s.bare ∈ allBare body := by
    rw [allBare_eq_map]
    exact List.mem_map.mpr ⟨s, present, rfl⟩
  obtain ⟨_, _, _, walked⟩ := walked s.bare present'
  obtain ⟨symbol, _, found, _⟩ := walked.after.declares
    (walked.declares _ (s.declared?_bare.trans declared))
  rw [← Scopes.lookup_root_of_isRoot (advances.isRoot.trans rfl),
    advances.weighed.unmet reference waits] at found
  cases found

/-- Each declaration comes down to types where what it needs does, unless a function in it is
circular. -/
theorem grounding (all : AllRooted Γ body) {s : Stmt} (present : s ∈ body)
    (decided : NoneCircular s.bare.declarations) : s.bare.Grounding := by
  obtain ⟨name, binding, rooted⟩ := all.rooted s present
  obtain ⟨meaning, kinds, worth, _⟩ := rooted.worth (all.divides s present)
    (all.own s present name rooted.declared) (fun other _ => Γ.agrees_awaiting other) rfl
    Γ.unknown_awaiting
  have isDeclared : s.bare.declared?.isSome := by
    rw [s.declared?_bare, rooted.declared]
    rfl
  have own : ∀ other ∈ s.bare.declared?, other ∉ s.bare.needs [] := by
    rw [s.declared?_bare, Stmt.needs_bare]
    exact all.own s present
  intro _ _ _ _ _ ends
  exact worth.grounding isDeclared decided own ends

/-- Where notes have changed their widths, the declarations pass the check, in whatever order. -/
theorem check_eq (all : AllRooted (.announcing (allAnnounced typed)) body)
    (distinct : ((allAnnounced typed).map Prod.fst).Nodup) (same : body.Perm typed)
    (alike : AllAlike NotesSameKind body result) : Program.check result = .ok [] := by
  have looks := looksAlike_announcing all.rooted alike
  have announced : (allAnnounced typed).Perm (allAnnounced body) := by
    rw [allAnnounced_eq_flatMap, allAnnounced_eq_flatMap]
    exact (same.flatMap_right _).symm
  have looks' : (Env.announcing (allAnnounced typed)).LooksAlike
      (.announcing (allAnnounced result)) := fun name =>
    Env.lookup_announcing_perm distinct announced ▸ looks name
  obtain ⟨last, returned, typing⟩ :=
    typedAll_sameKind all.rooted alike all.distinct (fun _ _ => rfl) looks'
  exact (Program.check_eq_ok_nil_iff result).mpr ⟨last, returned, typing⟩

end Stmt.AllRooted

section Programs

variable {program moved typed : Program} {order order' : ForwardOrder}

/-- The declarations of a program in order, in another order, with the types that were found. -/
theorem Program.exists_rooted_perm (shape : Stmt.AllParsed program)
    (declares : ∀ s ∈ program, s.declared?.isSome) (ordered : program.InOrder)
    (inferred : program.infer order = .ok typed) (wellTyped : typed.WellTyped .plain)
    (divides : typed.DividesKnown) (same : moved.Perm program) :
    ((Stmt.allAnnounced typed).map Prod.fst).Nodup ∧ ∃ before, moved = Stmt.allBare before ∧
      before.Perm typed ∧ Stmt.AllRooted (.announcing (Stmt.allAnnounced typed)) before := by
  obtain ⟨noted, bare, _⟩ := Program.noted_of_infer shape.allLoaded inferred
  obtain ⟨last, returned, typing⟩ := wellTyped
  have declares' : ∀ s ∈ typed, s.declared?.isSome := by
    intro s present
    rw [← s.declared?_bare]
    refine declares _ ?_
    rw [← bare, Stmt.allBare_eq_map]
    exact List.mem_map_of_mem present
  have ordered' : Stmt.allNeeds [] typed = [] := by
    rw [← Stmt.allNeeds_bare, bare]
    exact ordered
  have all := Stmt.AllRooted.of_typed typing divides declares' noted (bare.symm ▸ shape) ordered'
  have lists : moved.Perm (typed.map Stmt.bare) := by
    rwa [← Stmt.allBare_eq_map, bare]
  have lifted := congrFun (congrFun (List.eq_map_comp_perm Stmt.bare) moved) typed
  obtain ⟨before, rfl, moves⟩ := lifted.mpr lists
  exact ⟨typing.announceable.distinct, before, (Stmt.allBare_eq_map before).symm, moves,
    all.perm moves⟩

/-- A program of declarations alone, each of another name and behind those that it uses, with the
types that inference finds for it, in which the check finds nothing wrong. -/
structure Program.AcceptedInOrder (order : ForwardOrder) (program typed : Program) : Prop where
  parsed : Stmt.AllParsed program
  declares : ∀ s ∈ program, s.declared?.isSome
  distinct : (program.filterMap Stmt.declared?).Nodup
  ordered : program.InOrder
  inferred : program.infer order = .ok typed
  passes : typed.check = .ok []

/-- The declarations of a program in order that passes its check can be put into any other order, if
numbers of different kinds are divided by each other in it only where their types do not come from
the root scope. What is inferred then has types of the same kinds, and passes the check again.
Inference can only fail for a type that nothing decides, and does not fail if no function only
returns what it returns itself. -/
theorem Program.infer_perm (accepted : program.AcceptedInOrder order typed)
    (divides : typed.DividesKnown) (same : moved.Perm program) :
    (∀ result, moved.infer order' = .ok result → result.check = .ok [] ∧
      ∃ before, before.Perm typed ∧ Stmt.AllAlike NotesSameKind before result) ∧
    (∀ error, moved.infer order' = .error error → ∃ name, error.cause = .unresolvedType name) ∧
    (Stmt.NoneCircular (Stmt.allDeclarations program) →
      ∃ result, moved.infer order' = .ok result) := by
  obtain ⟨shape, declares, _, ordered, inferred, passes⟩ := accepted
  have parsed : Stmt.AllParsed moved := Stmt.allParsed_iff.mpr fun s present =>
    Stmt.allParsed_iff.mp shape s (same.mem_iff.mp present)
  obtain ⟨distinct, before, bare, moves, all⟩ := Program.exists_rooted_perm shape declares ordered
    inferred ((Program.check_eq_ok_nil_iff typed).mp passes) divides same
  obtain ⟨part, last, weights, kinds, ends, settled, unknown, weighed, notes, noted⟩ := all.walk
  rw [← bare] at ends
  have walked : (Stmt.walkAll moved).Ends (Engine.start.learn moved) part last := by
    rwa [Engine.learn_of_loaded _ parsed.allLoaded]
  rw [Program.infer_of_walk walked settled]
  refine ⟨fun result inferred => ?_, fun error fails => ?_, fun decided => ?_⟩
  · have alike := (Stmt.settleAll_eq_ok_iff part).mp inferred
    have bare' : Stmt.allBare result = Stmt.allBare before := by
      have same := (Stmt.passes_walkAll moved ends Scopes.sane_start).alike
      rw [← alike.allBare_eq, ← same.allBare_eq, parsed.allLoaded.allBare_eq, bare]
    have kinds := forall₂_notesKind_of_settles weighed rfl noted alike.allNotes
    have alike' := Stmt.allAlike_of_notesKind bare' notes kinds
    exact ⟨all.check_eq distinct moves alike', before, moves, alike'⟩
  · exact Stmt.cause_of_settleAll_eq_error part fails
  · have grounding : ∀ s ∈ program, s.Grounding := by
      intro s present
      have present' := same.mem_iff.mpr present
      rw [bare, Stmt.allBare_eq_map] at present'
      obtain ⟨s, among, rfl⟩ := List.mem_map.mp present'
      intro _ _ _ _ _ walked
      exact all.grounding among (decided.of_mem present) walked
    have needed : ∀ name ∈ Stmt.allNeeds [] program, last.GroundsRoot name := by
      rw [show Stmt.allNeeds [] program = [] from ordered]
      exact List.forall_mem_nil _
    obtain ⟨_, walks, walked⟩ := Stmt.walked_walkAll ends (bare ▸ all.declares) rfl
      Scopes.sane_start
    have settles : ∀ note ∈ Stmt.allNotes part,
        ∃ note', (last.table.unify last.constraints).Settles note note' := by
      intro note present
      obtain ⟨s', among, present⟩ := Stmt.mem_allNotes_iff.mp present
      obtain ⟨s, among, engine, engine', walked⟩ := walked s' among
      have grounded := Stmt.grounded_of_walked unknown settled grounding declares
        (fun s present => walks s (same.mem_iff.mpr present)) needed s (same.mem_iff.mp among) s'
        engine engine' walked note present
      cases note with
      | none => exact ⟨none, rfl, nofun⟩
      | some term => exact (grounded term rfl).settles weighed
    obtain ⟨result, alike⟩ := Stmt.exists_allAlike part settles
    exact ⟨result, (Stmt.settleAll_eq_ok_iff part).mpr alike⟩

end Programs

namespace Reordered

/-- `let a := 1 / 2.5` -/
def share (note : Option Ty) : Stmt :=
  .declare ⟨"a", true, none, some (.binary .divide (.number "1") (.number "2.5")), ⟨"main", 0⟩,
    note.map .concrete⟩

/-- `fn g(n: int, x: float) \x7b if n < 1 \x7b return n / x \x7d return g(n - 1, x) \x7d`, with line
breaks between the statements. -/
def quotient (note : Option Ty) : Stmt :=
  .function ⟨"g", [⟨"n", "int", ⟨"main", 25⟩⟩, ⟨"x", "float", ⟨"main", 33⟩⟩], none, [],
      ⟨"main", 17⟩, note.map .concrete⟩
    (some [
      .branch (.binary .less (.identifier "n" ⟨"main", 45⟩) (.number "1"))
        [.returns (some (.binary .divide (.identifier "n" ⟨"main", 60⟩)
          (.identifier "x" ⟨"main", 64⟩)))] .none,
      .returns (some (.call (.identifier "g" ⟨"main", 75⟩)
        [.binary .subtract (.identifier "n" ⟨"main", 77⟩) (.number "1"),
          .identifier "x" ⟨"main", 84⟩]))])

/-- `let c := g(2, a)` -/
def total (note : Option Ty) : Stmt :=
  .declare ⟨"c", true, none, some (.call (.identifier "g" ⟨"main", 98⟩)
    [.number "2", .identifier "a" ⟨"main", 103⟩]), ⟨"main", 89⟩, note.map .concrete⟩

/-- Three declarations, each behind those that it uses. -/
def program : Program := [share none, quotient none, total none]

/-- The declarations with their types. -/
def typed : Program := [share (some .float), quotient (some .float), total (some .float)]

theorem accepted : program.AcceptedInOrder .byUse typed where
  parsed := ⟨rfl, ⟨rfl, rfl, ⟨⟨trivial, trivial⟩, trivial⟩, trivial, trivial⟩, rfl, trivial⟩
  declares := by decide
  distinct := by decide
  ordered := rfl
  inferred := by rfl
  passes := by decide +kernel

theorem divides : typed.DividesKnown := by
  intro s present
  simp only [typed, List.mem_cons, List.not_mem_nil, or_false] at present
  rcases present with rfl | rfl | rfl
  · simp [share, Stmt.DividesKnown, Expr.DividesKnown, Expr.parts, Expr.allParts, Expr.isOpen]
  · simp [quotient, Stmt.DividesKnown, Stmt.AllDivideKnown, Alternate.DividesKnown,
      Expr.DividesKnown, Expr.parts, Expr.allParts, Expr.isOpen, FunctionHeader.unknownInside]
  · simp [total, Stmt.DividesKnown, Expr.DividesKnown, Expr.parts, Expr.allParts]

end Reordered

open Reordered in
/-- A function that calls itself without a written result, and what is computed from it, succeed
also the other way round. -/
theorem Program.infer_perm_reversed :
    program.AcceptedInOrder .byUse typed ∧ typed.DividesKnown ∧ program.reverse.Perm program ∧
      Stmt.NoneCircular (Stmt.allDeclarations program) ∧
      ∃ result, Program.infer program.reverse .byUse = .ok result ∧ result.check = .ok [] := by
  have decided : Stmt.NoneCircular (Stmt.allDeclarations program) := by
    intro header body present
    have named : Stmt.function header (some body) = quotient none := by
      simpa [program, share, quotient, total, Stmt.allDeclarations, Stmt.declarations,
        Alternate.declarations] using present
    cases named
    rfl
  have same : program.reverse.Perm program := List.reverse_perm program
  obtain ⟨passes, _, succeeds⟩ := Program.infer_perm accepted divides same
  obtain ⟨result, inferred⟩ := succeeds decided
  exact ⟨accepted, divides, same, decided, result, inferred, (passes result inferred).1⟩

namespace Reordered

/-- `let a := 1` -/
def whole (note : Option Ty) : Stmt :=
  .declare ⟨"a", true, none, some (.number "1"), ⟨"main", 0⟩, note.map .concrete⟩

/-- `let c := a / 2.5` -/
def ratio (note : Option Ty) : Stmt :=
  .declare ⟨"c", true, none, some (.binary .divide (.identifier "a" ⟨"main", 20⟩)
    (.number "2.5")), ⟨"main", 11⟩, note.map .concrete⟩

/-- `let d := a + 1` -/
def next (note : Option Ty) : Stmt :=
  .declare ⟨"d", true, none, some (.binary .add (.identifier "a" ⟨"main", 37⟩)
    (.number "1")), ⟨"main", 28⟩, note.map .concrete⟩

/-- A function `g` that returns `a + h()`, with an `h` of its own: `fn h()` of the statements
`let c := h() / 2.5` and `return 1`. -/
def housing (own ratio sum : Option Ty) : Stmt :=
  .function ⟨"g", [], some ⟨"int", ⟨"main", 21⟩⟩, [], ⟨"main", 11⟩, own.map .concrete⟩
    (some [
      .function ⟨"h", [], none, [], ⟨"main", 27⟩, own.map .concrete⟩
        (some [
          .declare ⟨"c", true, none, some (.binary .divide
            (.call (.identifier "h" ⟨"main", 45⟩) []) (.number "2.5")), ⟨"main", 36⟩,
            ratio.map .concrete⟩,
          .returns (some (.number "1"))]),
      .declare ⟨"b", true, none, some (.binary .add (.identifier "a" ⟨"main", 75⟩)
        (.call (.identifier "h" ⟨"main", 79⟩) [])), ⟨"main", 66⟩, sum.map .concrete⟩,
      .returns (some (.identifier "b" ⟨"main", 90⟩))])

/-- `let z := a + 1` -/
def last (note : Option Ty) : Stmt :=
  .declare ⟨"z", true, none, some (.binary .add (.identifier "a" ⟨"main", 103⟩)
    (.number "1")), ⟨"main", 94⟩, note.map .concrete⟩

/-- `fn k(x: int) -> int \x7b return x \x7d` -/
def keep (note : Option Ty) : Stmt :=
  .function ⟨"k", [⟨"x", "int", ⟨"main", 8⟩⟩], some ⟨"int", ⟨"main", 16⟩⟩, [], ⟨"main", 0⟩,
      note.map .concrete⟩
    (some [.returns (some (.identifier "x" ⟨"main", 29⟩))])

/-- `fn f(n: int) \x7b k(f(n)) return f(n) \x7d`, with a line break before `return`. -/
def endless (note : Option Ty) : Stmt :=
  .function ⟨"f", [⟨"n", "int", ⟨"main", 41⟩⟩], none, [], ⟨"main", 33⟩, note.map .concrete⟩
    (some [.expr (.call (.identifier "k" ⟨"main", 48⟩)
        [.call (.identifier "f" ⟨"main", 50⟩) [.identifier "n" ⟨"main", 52⟩]]),
      .returns (some (.call (.identifier "f" ⟨"main", 63⟩) [.identifier "n" ⟨"main", 65⟩]))])

/-- `fn f(n: int) \x7b k(f(n)) let r := f(n) return -r \x7d`, with line breaks between the
statements. -/
def winding (note own : Option Ty) : Stmt :=
  .function ⟨"f", [⟨"n", "int", ⟨"main", 41⟩⟩], none, [], ⟨"main", 33⟩, own.map .concrete⟩
    (some [.expr (.call (.identifier "k" ⟨"main", 48⟩)
        [.call (.identifier "f" ⟨"main", 50⟩) [.identifier "n" ⟨"main", 52⟩]]),
      .declare ⟨"r", true, none, some (.call (.identifier "f" ⟨"main", 65⟩)
        [.identifier "n" ⟨"main", 67⟩]), ⟨"main", 56⟩, note.map .concrete⟩,
      .returns (some (.prefixed .negate (.identifier "r" ⟨"main", 78⟩)))])

end Reordered

open Reordered in
/-- An integer that is divided by a float before it is declared makes floats of what is computed
from it behind, and so does a local function whose result is divided inside of it. A function that
only returns what it returns itself has a type because of what is called in it, if that is declared
before. -/
theorem Program.order_matters :
    (Program.AcceptedInOrder .byUse [whole none, ratio none, next none]
        [whole (some .int), ratio (some .float), next (some .int)] ∧
      [ratio none, next none, whole none].Perm [whole none, ratio none, next none] ∧
      Program.infer [ratio none, next none, whole none] .byUse =
        .ok [ratio (some .float), next (some .float), whole (some .int)] ∧
      Program.check [ratio (some .float), next (some .float), whole (some .int)] ≠ .ok []) ∧
    (Program.AcceptedInOrder .byUse [whole none, housing none none none, last none]
        [whole (some .int), housing (some .int) (some .float) (some .int), last (some .int)] ∧
      [housing none none none, last none, whole none].Perm
        [whole none, housing none none none, last none] ∧
      Program.infer [housing none none none, last none, whole none] .byUse =
        .ok [housing (some .int) (some .float) (some .float), last (some .float),
          whole (some .int)] ∧
      Program.check [housing (some .int) (some .float) (some .float), last (some .float),
        whole (some .int)] ≠ .ok []) ∧
    (Program.AcceptedInOrder .byUse [keep none, endless none]
        [keep (some .int), endless (some .int)] ∧
      [endless none, keep none].Perm [keep none, endless none] ∧
      Program.infer [endless none, keep none] .byUse =
        .error ⟨.unresolvedType "f", ⟨"main", 33⟩⟩) ∧
    Program.AcceptedInOrder .byUse [keep none, winding none none]
        [keep (some .int), winding (some .int) (some .int)] ∧
      [winding none none, keep none].Perm [keep none, winding none none] ∧
      Program.infer [winding none none, keep none] .byUse =
        .error ⟨.unresolvedType "f", ⟨"main", 33⟩⟩ := by
  have turned : ∀ first second third : Stmt,
      [second, third, first].Perm [first, second, third] := fun first second third =>
    List.perm_append_singleton first [second, third]
  refine ⟨⟨⟨?_, by decide, by decide, rfl, by rfl, by decide +kernel⟩, turned _ _ _, by rfl,
      by decide +kernel⟩,
    ⟨⟨?_, by decide, by decide, rfl, by rfl, by decide +kernel⟩, turned _ _ _, by rfl,
      by decide +kernel⟩,
    ⟨⟨?_, by decide, by decide, rfl, by rfl, by decide +kernel⟩, .swap _ _ _, by rfl⟩,
    ⟨?_, by decide, by decide, rfl, by rfl, by decide +kernel⟩, .swap _ _ _, by rfl⟩
  · exact ⟨rfl, rfl, rfl, trivial⟩
  · exact ⟨rfl, ⟨rfl, rfl, ⟨rfl, rfl, rfl, trivial, trivial⟩, rfl, trivial, trivial⟩, rfl, trivial⟩
  · exact ⟨⟨rfl, rfl, trivial, trivial⟩, ⟨rfl, rfl, trivial, trivial, trivial⟩, trivial⟩
  · exact ⟨⟨rfl, rfl, trivial, trivial⟩, ⟨rfl, rfl, trivial, rfl, trivial, trivial⟩, trivial⟩

end SmallLang
