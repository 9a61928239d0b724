import Mathlib.Data.List.Perm.Basic
import SmallLang.Proofs.Inference.Again
import SmallLang.Proofs.Order.Kinds
import SmallLang.Proofs.Order.Promises
import SmallLang.Proofs.Order.Walk
import SmallLang.Proofs.Tree.Declarations

/-!
# Declarations of the root scope

The typed declarations of a root scope, each for itself. What a name stands for does not depend on
where in the scope it is declared, so the declarations can be walked in any order, and they stay
typed in any order, also where widths have changed.
-/

set_option autoImplicit false

namespace SmallLang

open Infer Walk

section Announcing

theorem Env.lookup_announcing (announced : List (String × Option Binding)) (name : String) :
    (announcing announced).lookup name = (announced.lookup name).join := rfl

theorem Env.lookup_announcing_cons (name other : String) (binding : Binding)
    (announced : List (String × Option Binding)) :
    (announcing ((name, some binding) :: announced)).lookup other =
      if other = name then some binding else (announcing announced).lookup other := by
  rw [lookup_announcing, Scope.lookup_cons]
  split <;> rfl

/-- The order in which names are announced does not matter. -/
theorem Env.lookup_announcing_perm {announced announced' : List (String × Option Binding)}
    (distinct : (announced.map Prod.fst).Nodup) (same : announced.Perm announced') :
    (announcing announced).lookup = (announcing announced').lookup := by
  funext name
  rw [lookup_announcing, lookup_announcing]
  congr 1
  have names := same.map Prod.fst
  cases found : announced.lookup name with
  | none =>
      rw [eq_comm, Scope.lookup_eq_none_iff, ← names.mem_iff]
      exact Scope.lookup_eq_none_iff.mp found
  | some binding? =>
      obtain ⟨before, after, split, _⟩ := List.lookup_eq_some_iff.mp found
      have present : (name, binding?) ∈ announced := by simp [split]
      exact (Scope.lookup_of_mem (names.nodup_iff.mp distinct) (same.mem_iff.mp present)).symm

theorem Stmt.allAnnounced_eq_flatMap (body : List Stmt) :
    Stmt.allAnnounced body = body.flatMap Stmt.announced := by
  induction body with
  | nil => rfl
  | cons first rest ih => rw [Stmt.allAnnounced, List.flatMap_cons, ih]

end Announcing

theorem Stmt.Typed.eq_declare {rules : Discipline} {ρ : Option Ty} {s : Stmt} {Γ Γ' : Env Binding}
    {returned : List Ty} {name : String} (typed : s.Typed rules ρ Γ Γ' returned)
    (declared : s.declared? = some name) : ∃ binding, Γ' = Γ.declare name binding := by
  cases typed with
  | declare | prototype | function =>
      cases declared
      exact ⟨_, rfl⟩
  | _ => cases declared

/-- Where widths have changed, the name of a function stands for the same up to widths. -/
theorem FunctionHeader.binding?_sameKind {header : FunctionHeader} {note : Option Term}
    {binding : Binding} (same : NotesSameKind header.resolved note)
    (known : header.binding? = some binding) :
    ∃ binding', FunctionHeader.binding? { header with resolved := note } = some binding' ∧
      binding.SameKind binding' := by
  have kinds := header.map_kind_resultType? same
  unfold binding? at known
  split at known
  · next parameters result known' states =>
      cases known
      obtain ⟨result', states', kind⟩ := Ty.exists_of_map_kind kinds states
      refine ⟨.function parameters result', ?_, .function parameters kind⟩
      rw [binding?, show parameterTypes? { header with resolved := note } = _ from known', states']
  · cases known

/-- A typed declaration of a root scope, with the name and what it stands for in the whole
scope. -/
structure Stmt.Rooted (Γ : Env Binding) (s : Stmt) (name : String) (binding : Binding) : Prop where
  declared : s.declared? = some name
  announced : s.announced = [(name, some binding)]
  inScope : Γ.lookup name = some binding
  notType : Ty.isTypeName name = false
  typed : ∃ Δ : Env Binding, Δ.lookup = Γ.lookup ∧ s.Typed .plain none Δ (Δ.declare name binding) []
  noted : s.Noted Term.IsType
  parsed : s.bare.Parsed

namespace Stmt

variable {Γ Γ' : Env Binding} {s s' : Stmt} {name : String} {binding : Binding}

/-- A typed declaration announces what it declares. -/
theorem Typed.announces {rules : Discipline} {ρ : Option Ty} {returned : List Ty}
    (typed : s.Typed rules ρ Γ Γ' returned) (noted : s.Noted Term.IsType)
    (declared : s.declared? = some name) :
    ∃ binding, s.announced = [(name, some binding)] ∧ Γ' = Γ.declare name binding ∧
      returned = [] := by
  cases typed with
  | @declare _ _ decl type typed _ =>
      cases declared
      refine ⟨.value type decl.mutable, ?_, rfl, rfl⟩
      rw [Engine.announced_declare noted.1, Variable.resolvedType?,
        typed.resolved_eq noted.1 noted.2]
      rfl
  | prototype known states | function known states =>
      cases declared
      exact ⟨_, by rw [announced, FunctionHeader.binding?_eq_some known states], rfl, rfl⟩
  | _ => cases declared

/-- Each declaration of a typed root scope is typed for itself. -/
theorem TypedAll.rooted {base : Env Binding} : ∀ {body : List Stmt} {Γ Γ' : Env Binding}
    {returned : List Ty}, TypedAll .plain none Γ body Γ' returned →
      (∀ s ∈ body, s.declared?.isSome) → AllNoted Term.IsType body → AllParsed (allBare body) →
      Γ.lookup = base.lookup → (∀ entry ∈ allAnnounced body, base.lookup entry.1 = entry.2) →
      ∀ s ∈ body, ∃ name binding, s.Rooted base name binding
  | [], _, _, _, _, _, _, _, _, _, _, present => nomatch present
  | first :: rest, Γ, _, _, .cons typed typedRest, declares, noted, parsed, same, known, s,
      present => by
      obtain ⟨name, declared⟩ := Option.isSome_iff_exists.mp (declares first List.mem_cons_self)
      obtain ⟨binding, announced, rfl, rfl⟩ := typed.announces noted.1 declared
      have inScope : base.lookup name = some binding :=
        known (name, some binding) (by rw [allAnnounced, announced]; exact List.mem_cons_self)
      cases present with
      | head =>
          exact ⟨name, binding, declared, announced, inScope, (typed.free name declared).1,
            ⟨Γ, same, typed⟩, noted.1, parsed.1⟩
      | tail _ present =>
          refine TypedAll.rooted typedRest
            (fun s present => declares s (List.mem_cons_of_mem first present)) noted.2 parsed.2 ?_
            (fun entry present => known entry (List.mem_append_right _ present)) s present
          funext other
          rw [Env.lookup_declare, same]
          split
          · next own => rw [own, inScope]
          · rfl

/-- After the declaration, its name stands for what it stands for in the whole scope. -/
theorem Rooted.lookup_declare (rooted : s.Rooted Γ name binding) {Δ : Env Binding}
    (same : Δ.lookup = Γ.lookup) : (Δ.declare name binding).lookup = Γ.lookup := by
  funext other
  rw [Env.lookup_declare, same]
  split
  · next own => rw [own, rooted.inScope]
  · rfl

theorem announced_of_noted {decl : Variable} {type : Ty}
    (noted : decl.resolved = some (.concrete type)) : (declare decl).announced =
      [(decl.name, decl.statedType?.map fun type => .value type decl.mutable)] := by
  rw [announced, Variable.resolvedType?, noted, if_pos]
  exact Bool.or_true _

/-- Where widths have changed, a declaration announces the same up to widths. -/
theorem Rooted.announced_alike (rooted : s.Rooted Γ name binding)
    (alike : s.Alike NotesSameKind s') :
    ∃ binding', s'.announced = [(name, some binding')] ∧ binding.SameKind binding' := by
  have announced := rooted.announced
  cases alike with
  | @declare decl note same =>
      have kinds := decl.map_kind_statedType? same
      obtain ⟨_, ⟨type, noted, _⟩, type', noted', _⟩ := same
      rw [announced_of_noted noted] at announced
      simp only [List.cons.injEq, Prod.mk.injEq, and_true, Option.map_eq_some_iff] at announced
      obtain ⟨rfl, stated, states, rfl⟩ := announced
      obtain ⟨stated', states', kind⟩ := Ty.exists_of_map_kind kinds states
      refine ⟨.value stated' decl.mutable, ?_, .value kind⟩
      rw [announced_of_noted
        (show Variable.resolved { decl with resolved := note } = _ from noted'),
        states']
      rfl
  | prototype same | function same =>
      simp only [Stmt.announced, List.cons.injEq, Prod.mk.injEq, and_true] at announced
      obtain ⟨rfl, known⟩ := announced
      obtain ⟨binding', known', kind⟩ := FunctionHeader.binding?_sameKind same known
      exact ⟨binding', by rw [Stmt.announced, known'], kind⟩
  | _ => cases rooted.declared

end Stmt

section Typed

variable {Γ : Env Binding}

/-- Where widths have changed, what declarations announce looks alike. -/
theorem Stmt.looksAlike_announcing : ∀ {body body' : List Stmt},
    (∀ s ∈ body, ∃ name binding, s.Rooted Γ name binding) →
      Stmt.AllAlike NotesSameKind body body' →
      (Env.announcing (Stmt.allAnnounced body)).LooksAlike (.announcing (Stmt.allAnnounced body'))
  | _, _, _, .nil => .refl _
  | first :: _, _, rooted, .cons alike alikeRest => by
      obtain ⟨name, binding, rooted'⟩ := rooted first List.mem_cons_self
      obtain ⟨binding', announced, same⟩ := rooted'.announced_alike alike
      intro other
      rw [Stmt.allAnnounced, Stmt.allAnnounced, rooted'.announced, announced, List.singleton_append,
        List.singleton_append, Env.lookup_announcing_cons, Env.lookup_announcing_cons]
      split
      · exact .some same
      · exact Stmt.looksAlike_announcing
          (fun s present => rooted s (List.mem_cons_of_mem first present)) alikeRest other

/-- Declarations stay typed, one after the other in any order, where widths have changed. -/
theorem Stmt.typedAll_sameKind : ∀ {body body' : List Stmt} {Δ : Env Binding},
    (∀ s ∈ body, ∃ name binding, s.Rooted Γ name binding) →
      Stmt.AllAlike NotesSameKind body body' → (body.filterMap Stmt.declared?).Nodup →
      (∀ name ∈ body.filterMap Stmt.declared?, Δ.block name = none) → Γ.LooksAlike Δ →
      ∃ Δ' returned, Stmt.TypedAll .plain none Δ body' Δ' returned
  | _, _, _, _, .nil, _, _, _ => ⟨_, _, .nil⟩
  | first :: rest, _, Δ, rooted, .cons alike alikeRest, distinct, new, looks => by
      obtain ⟨name, binding, rooted'⟩ := rooted first List.mem_cons_self
      rw [List.filterMap_cons_some rooted'.declared] at distinct new
      obtain ⟨Γ', same, typed⟩ := rooted'.typed
      have looks' : Γ'.LooksAlike Δ := fun other => same ▸ looks other
      obtain ⟨Δ', returned, typed', after, _⟩ := typed.sameKind alike rooted'.parsed rfl looks'
        fun other declared => by
          rw [rooted'.declared, Option.mem_some_iff] at declared
          exact declared ▸ ⟨rooted'.notType, new name List.mem_cons_self⟩
      obtain ⟨binding', rfl⟩ := typed'.eq_declare (alike.declared?_eq.trans rooted'.declared)
      have new' : ∀ other ∈ rest.filterMap Stmt.declared?,
          (Δ.declare name binding').block other = none := by
        intro other later
        rw [Env.block_declare, if_neg, new other (List.mem_cons_of_mem name later)]
        rintro rfl
        exact (List.nodup_cons.mp distinct).1 later
      obtain ⟨Δ', more, typedRest⟩ := Stmt.typedAll_sameKind
        (fun s present => rooted s (List.mem_cons_of_mem first present)) alikeRest
        (List.nodup_cons.mp distinct).2 new' fun other => rooted'.lookup_declare same ▸ after other
      exact ⟨Δ', _, .cons typed' typedRest⟩

end Typed

namespace Env

variable {β : Type}

/-- The environment where a name is not known from outside of the block. -/
def without (Δ : Env β) (name : String) : Env β :=
  { Δ with outer := Function.update Δ.outer name none }

theorem lookup_without (Δ : Env β) {name other : String} (differs : other ≠ name) :
    (Δ.without name).lookup other = Δ.lookup other := by
  simp only [lookup, without, Function.update_of_ne differs]

theorem lookup_without_self {Δ : Env β} {name : String} (new : Δ.block name = none) :
    (Δ.without name).lookup name = none := by
  simp only [lookup, without, Function.update_self, new, Option.or_none]

theorem lookup_declare_without (Δ : Env β) (name : String) (binding : β) :
    ((Δ.without name).declare name binding).lookup = (Δ.declare name binding).lookup := by
  funext other
  rw [lookup_declare, lookup_declare]
  split
  · rfl
  · next differs => exact Δ.lookup_without differs

/-- Where no name is known, none is known without one of them either. -/
theorem unknown_without {Δ : Env Meaning} {name : String} (new : Δ.block name = none)
    (unknown : Δ.unknown = fun _ => true) : (Δ.without name).unknown = fun _ => true := by
  funext other
  by_cases same : other = name
  · rw [Env.unknown, Meaning.unknown, same, lookup_without_self new]
    rfl
  · rw [Env.unknown, Meaning.unknown, Δ.lookup_without same]
    exact congrFun unknown other

end Env

section Measured

variable {Γ : Env Binding} {Δ : Env Meaning}

theorem Stmt.Worth.eq_declare {s : Stmt} {Δ Δ' : Env Meaning}
    {returned notes : List Kind} {name : String} (worth : Stmt.Worth Δ s Δ' returned notes)
    (declared : s.declared? = some name) : ∃ meaning, Δ' = Δ.declare name meaning := by
  cases worth with
  | declare | prototype | function =>
      cases declared
      exact ⟨_, rfl⟩
  | _ => cases declared

/-- A declaration that does not need itself has kinds where all other names do, whether they were
declared before or are waited for, and none of them is known. -/
theorem Stmt.Rooted.worth {s : Stmt} {name : String} {binding : Binding}
    (rooted : s.Rooted Γ name binding) (divides : s.DividesKnown Γ fun _ => true)
    (own : name ∉ s.needs []) (agrees : ∀ other, other ≠ name → Γ.Agrees Δ other)
    (new : Δ.block name = none) (unknown : Δ.unknown = fun _ => true) :
    ∃ meaning kinds, s.bare.Worth Δ (Δ.declare name meaning) [] kinds ∧
      List.Forall₂ NotesKind s.notes kinds ∧ meaning.Fits binding := by
  obtain ⟨Γ', same, typed⟩ := rooted.typed
  have agrees' : ∀ other ∈ s.needs [name], Γ'.Agrees Δ other := by
    intro other used
    rw [Stmt.needs_of_declared rooted.declared, List.mem_append, List.mem_filter] at used
    have differs : other ≠ name := by
      rintro rfl
      rcases used with used | ⟨_, used⟩
      · exact own used
      · exact bne_iff_ne.mp used rfl
    intro binding inScope
    exact agrees other differs binding (same ▸ inScope)
  have divides' : s.DividesKnown Γ' Δ.unknown := by
    rw [unknown]
    exact divides.congr same.symm
  obtain ⟨Δ', kinds, worth, notes, after, _⟩ := typed.worth rooted.noted rooted.parsed agrees'
    divides' fun other declared => by
      rw [rooted.declared, Option.mem_some_iff] at declared
      exact declared ▸ ⟨rooted.notType, new⟩
  obtain ⟨meaning, rfl⟩ := worth.eq_declare (s.declared?_bare.trans rooted.declared)
  refine ⟨meaning, kinds, worth, notes, ?_⟩
  obtain ⟨meaning', known, fits⟩ := after name List.mem_cons_self binding
    (by rw [Env.lookup_declare, if_pos rfl])
  rw [Env.lookup_declare, if_pos rfl, Option.some.injEq] at known
  exact known ▸ fits

theorem Engine.Knows.vague {waiting : String → Option Kind} {weights : List Kind} {engine : Engine}
    {name : String} {meaning : Meaning} (knows : engine.Knows waiting weights name meaning) :
    engine.Knows waiting weights name { meaning with isOpen := true } := by
  cases knows with
  | declared found isTerm weighs parameters _ =>
      exact .declared found isTerm weighs parameters fun known => by cases known
  | waits unknown other awaited _ => exact .waits unknown other awaited rfl

/-- After a declaration of the root scope an engine stays ready for the others, also where the type
of what was declared is no longer taken for known. -/
theorem Engine.Ready.vague {waiting : String → Option Kind} {weights : List Kind}
    {engine : Engine} {name : String} {meaning : Meaning}
    (ready : engine.Ready waiting weights ((Δ.without name).declare name meaning)) :
    engine.Ready waiting weights (Δ.declare name { meaning with isOpen := true }) := by
  refine ⟨ready.weighed, ready.idle, ready.sane, fun other found known => ?_⟩
  have follows := ready.follows other
  rw [Env.lookup_declare_without, Env.lookup_declare] at follows
  rw [Env.lookup_declare] at known
  by_cases same : other = name
  · rw [if_pos same, Option.some.injEq] at known
    rw [if_pos same] at follows
    exact known ▸ (follows meaning rfl).vague
  · rw [if_neg same] at known follows
    exact follows found known

theorem Engine.Ready.without {waiting : String → Option Kind} {weights : List Kind}
    {engine : Engine} {name : String} (ready : engine.Ready waiting weights Δ)
    (new : Δ.block name = none) : engine.Ready waiting weights (Δ.without name) := by
  refine ⟨ready.weighed, ready.idle, ready.sane, fun other found known => ?_⟩
  have differs : other ≠ name := by
    rintro rfl
    rw [Env.lookup_without_self new] at known
    cases known
  exact ready.follows other found (Δ.lookup_without differs ▸ known)

/-- Declarations of a typed root scope can be walked in any order. What the walk notes is of the
kinds that are noted in them. -/
theorem Stmt.advances_rooted : ∀ {body : List Stmt} {Δ : Env Meaning} {weights : List Kind}
    {engine : Engine}, (∀ s ∈ body, ∃ name binding, s.Rooted Γ name binding) →
      (∀ s ∈ body, s.DividesKnown Γ fun _ => true) →
      (∀ s ∈ body, ∀ name ∈ s.declared?, name ∉ s.needs []) →
      (body.filterMap Stmt.declared?).Nodup →
      (∀ name ∈ body.filterMap Stmt.declared?, Δ.block name = none) →
      (∀ name, Γ.Agrees Δ name) → (Δ.unknown = fun _ => true) →
      engine.Ready Γ.kindOf weights Δ → Δ.Fresh engine.scopes →
      ∃ kinds, List.Forall₂ NotesKind (Stmt.allNotes body) kinds ∧
        (Stmt.walkAll (Stmt.allBare body)).Advances Γ.kindOf weights Stmt.allNotes
          engine [] kinds fun _ _ => True
  | [], _, _, engine, _, _, _, _, _, _, _, ready, _ =>
      ⟨[], .nil, [], _, engine, Stmt.ends_nil.mpr ⟨rfl, rfl⟩, .nil,
        (Engine.Gains.refl ready.weighed).advances ready.idle, trivial⟩
  | first :: rest, Δ, weights, engine, rooted, divides, own, distinct, new, agrees, unknown, ready,
      fresh => by
      obtain ⟨name, binding, rooted'⟩ := rooted first List.mem_cons_self
      rw [List.filterMap_cons_some rooted'.declared] at distinct new
      have unseen := new name List.mem_cons_self
      -- While the declaration is walked, its own name is not known yet.
      obtain ⟨meaning, kinds, worth, notes, fits⟩ := @Stmt.Rooted.worth _ (Δ.without name) _ _ _
        rooted' (divides first List.mem_cons_self)
        (own first List.mem_cons_self name rooted'.declared)
        (fun other differs binding inScope => by
          rw [Δ.lookup_without differs]
          exact agrees other binding inScope) unseen (Env.unknown_without unseen unknown)
      obtain ⟨first', _, between, ends, noted, advances, after, fresh'⟩ :=
        worth.advances (ready.without unseen) fun other declared => by
          rw [first.declared?_bare, rooted'.declared, Option.mem_some_iff] at declared
          subst declared
          refine ⟨fresh name ⟨rooted'.notType, unseen⟩, fun _ =>
            ⟨Env.lookup_without_self unseen, ?_⟩⟩
          intro found known
          rw [Env.lookup_declare, if_pos rfl, Option.some.injEq] at known
          rw [Env.kindOf_eq rooted'.inScope, ← known, fits.kind]
      let vague : Meaning := { meaning with isOpen := true }
      have new' : ∀ other ∈ rest.filterMap Stmt.declared?,
          (Δ.declare name vague).block other = none := by
        intro other later
        rw [Env.block_declare, if_neg, new other (List.mem_cons_of_mem name later)]
        rintro rfl
        exact (List.nodup_cons.mp distinct).1 later
      have agrees' : ∀ other, Γ.Agrees (Δ.declare name vague) other := by
        intro other binding' inScope
        rw [Env.lookup_declare]
        split
        · next same =>
            rw [same, rooted'.inScope, Option.some.injEq] at inScope
            exact ⟨vague, rfl, inScope ▸ ⟨fits.kind, fits.parameters⟩⟩
        · exact agrees other binding' inScope
      have unknown' : (Δ.declare name vague).unknown = fun _ => true := by
        rw [Env.unknown_declare, unknown, Function.update_eq_self_iff]
      have unseen' : (Δ.declare name vague).Fresh between.scopes := by
        rintro other ⟨notType, new⟩
        refine fresh' fresh other ⟨notType, ?_⟩
        rw [Env.block_declare] at new ⊢
        split at new
        · cases new
        · next differs => rwa [if_neg differs]
      obtain ⟨more, notes', rest', weights', last, ends', noted', advances', _⟩ :=
        Stmt.advances_rooted (fun s present => rooted s (List.mem_cons_of_mem first present))
          (fun s present => divides s (List.mem_cons_of_mem first present))
          (fun s present => own s (List.mem_cons_of_mem first present))
          (List.nodup_cons.mp distinct).2 new' agrees' unknown' after.vague unseen'
      exact ⟨kinds ++ more, List.rel_append notes notes', first' :: rest', weights', last,
        Stmt.ends_cons.mpr ⟨first', between, rest', ends, ends', rfl⟩,
        List.rel_append (NoteWeighs.mono_all noted advances'.more) noted',
        advances.trans advances', trivial⟩

end Measured

end SmallLang
