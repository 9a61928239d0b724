import SmallLang.Proofs.Order.Decided

/-!
# Names that wait for the root scope

A name that is used ahead of its declaration is promised one. While the declarations of the root
scope are walked, nothing that is known is lost, and a promise is either still open or tied to the
declaration that has come. So all declarations of a program in order are grounded, in whatever
order they are walked.
-/

set_option autoImplicit false

namespace SmallLang

open Infer Walk

namespace Engine

/-- From one engine to a later one, nothing is lost that is known in the root scope, and a name
that waits for its declaration waits on, or is tied to it. -/
structure Honours (engine engine' : Engine) : Prop where
  constraints : engine.constraints ⊆ engine'.constraints
  known : engine'.known = engine.known
  symbols : ∀ name symbol, engine.scopes.resolve? name = some symbol →
    engine'.scopes.resolve? name = some symbol
  met : ∀ name reference, engine.forward.find? (·.name == name) = some reference →
    engine'.forward.find? (·.name == name) = some reference ∨
      ∃ symbol term, engine'.scopes.resolve? name = some symbol ∧ symbol.term? = some term ∧
        ⟨.pending reference.placeholder, term⟩ ∈ engine'.constraints

variable {engine engine' engine'' : Engine}

namespace Honours

theorem refl (engine : Engine) : engine.Honours engine :=
  ⟨List.Subset.refl _, rfl, fun _ _ => id, fun _ _ => .inl⟩

theorem trans (first : engine.Honours engine') (second : engine'.Honours engine'') :
    engine.Honours engine'' where
  constraints := List.Subset.trans first.constraints second.constraints
  known := second.known.trans first.known
  symbols := fun name symbol found => second.symbols name symbol (first.symbols name symbol found)
  met := by
    intro name reference waits
    rcases first.met name reference waits with waits | ⟨symbol, term, found, isTerm, tied⟩
    · exact second.met name reference waits
    · exact .inr ⟨symbol, term, second.symbols name symbol found, isTerm, second.constraints tied⟩

end Honours

theorem Stays.honours (stays : engine.Stays engine') : engine.Honours engine' where
  constraints := stays.learns.constraints.subset
  known := stays.learns.known
  symbols := fun _ _ found => by rw [stays.scopes, found]
  met := fun _ _ waits => .inl (stays.forward.find?_eq_some waits)

/-- A declaration in the root scope meets what waits for it. -/
theorem honours_define {name : String} {symbol : Symbol} {term : Term}
    (isTerm : symbol.term? = some term) (isRoot : engine.scopes.isRoot = true)
    (new : engine.scopes.innermost.lookup name = none) :
    engine.Honours
      ({ engine with scopes := engine.scopes.insert name symbol }.settleForward name term) := by
  let declared : Engine := { engine with scopes := engine.scopes.insert name symbol }
  have begun : engine.Learns declared := ⟨rfl, List.prefix_rfl, fun count same => ⟨count, same⟩⟩
  have learns := begun.settleForward name term
  have scopes : (declared.settleForward name term).scopes = engine.scopes.insert name symbol := by
    rw [settleForward_eq]
  refine ⟨learns.constraints.subset, learns.known, fun other found known => ?_,
    fun other reference waits => ?_⟩
  · rw [scopes, Scopes.resolve?_insert, if_neg, known]
    rintro rfl
    rw [Scopes.innermost_of_isRoot isRoot, known] at new
    cases new
  · by_cases same : other = name
    · subst same
      refine .inr ⟨symbol, term, ?_, isTerm, ?_⟩
      · rw [scopes, Scopes.resolve?_insert, if_pos rfl]
      · have isRoot' : declared.scopes.isRoot = true := (Scopes.isRoot_insert ..).trans isRoot
        have waits' : declared.forward.find? (·.name == other) = some reference := waits
        unfold settleForward
        rw [if_pos isRoot', waits']
        exact List.mem_append_right _ (List.mem_singleton.mpr rfl)
    · exact .inl ((find?_settleForward same term).trans waits)

/-- A name that has been declared in the root scope, with a term. -/
def Declares (engine : Engine) (name : String) : Prop :=
  ∃ symbol term, engine.scopes.resolve? name = some symbol ∧ symbol.term? = some term

theorem declares_define {name : String} {symbol : Symbol} {term : Term}
    (isTerm : symbol.term? = some term) :
    ({ engine with scopes := engine.scopes.insert name symbol }.settleForward name term).Declares
      name := by
  refine ⟨symbol, term, ?_, isTerm⟩
  rw [settleForward_eq, Scopes.resolve?_insert, if_pos rfl]

theorem Honours.declares {name : String} (honours : engine.Honours engine')
    (declares : engine.Declares name) : engine'.Declares name := by
  obtain ⟨symbol, term, found, isTerm⟩ := declares
  exact ⟨symbol, term, honours.symbols name symbol found, isTerm⟩

end Engine

section Walks

variable {engine engine' : Engine}

theorem Variable.honours_walk {decl decl' : Variable} (ends : decl.walk.Ends engine decl' engine')
    (isRoot : engine.scopes.isRoot = true) :
    engine.Honours engine' ∧ engine'.Declares decl.name := by
  obtain ⟨known, between, term, begins, declares, rfl⟩ := Variable.ends_walk.mp ends
  obtain ⟨last, starts, _, new, rfl⟩ := yields_declare.mp declares
  obtain ⟨annotated, value, inner, _, valued, rfl, _⟩ := yields_initial.mp begins
  have stays := (stays_value? valued).1
  have fresh := (grows_orFresh starts).1
  have scopes : last.scopes = engine.scopes := fresh.scopes.trans stays.scopes
  have isTerm : (Symbol.variable term decl.mutable).term? = some term := rfl
  have begun : engine.Honours { inner with declaring := none } :=
    ⟨stays.honours.constraints, stays.honours.known, stays.honours.symbols, stays.honours.met⟩
  have declared := Engine.honours_define isTerm (scopes ▸ isRoot) new
  exact ⟨(begun.trans fresh.honours).trans declared, Engine.declares_define isTerm⟩

theorem Infer.honours_function {header : FunctionHeader} {declared : Option Ty} {term : Term}
    (yields : Yields (Infer.function header) engine (declared, term) engine')
    (isRoot : engine.scopes.isRoot = true) :
    engine.Honours engine' ∧ engine'.Declares header.name := by
  obtain ⟨parameters, between, _, _, starts, _, new, rfl⟩ := yields_function.mp yields
  have fresh := (grows_orFresh starts).1
  have isTerm : (Symbol.function parameters term).term? = some term := rfl
  have begun : engine.Honours between := ⟨fresh.honours.constraints, fresh.honours.known,
    fresh.honours.symbols, fresh.honours.met⟩
  have declared := Engine.honours_define isTerm (fresh.scopes ▸ isRoot) new
  exact ⟨begun.trans declared, Engine.declares_define isTerm⟩

/-- Walking a declaration of the root scope honours what was promised before. -/
theorem Stmt.honours_walk {s s' : Stmt} {name : String} (ends : s.walk.Ends engine s' engine')
    (declared : s.declared? = some name) (isRoot : engine.scopes.isRoot = true)
    (sane : engine.scopes.Sane) : engine.Honours engine' ∧ engine'.Declares name := by
  cases s with
  | declare decl =>
      cases declared
      obtain ⟨decl', walked, rfl⟩ := Stmt.ends_declare.mp ends
      exact Variable.honours_walk walked isRoot
  | function header body =>
      cases declared
      cases body with
      | none =>
          obtain ⟨_, term, yields, rfl⟩ := Stmt.ends_prototype.mp ends
          exact Infer.honours_function yields isRoot
      | some body =>
          obtain ⟨_, before, inner, start, body', last, term, begins, given, walked, concluded,
            rfl⟩ := Stmt.ends_function.mp ends
          obtain ⟨honours, declares⟩ := Infer.honours_function begins isRoot
          have opened := grows_parameters given
          obtain ⟨⟨_, _, grows⟩, _, _⟩ := Stmt.passes_walkAll body walked
            (opened.sane ((grows_function begins).sane sane).push)
          obtain ⟨left, _, leaves⟩ := (opened.andThen grows).leave
          obtain ⟨stays, _, _⟩ := stays_conclusion concluded
          have inside : inner.Honours last.leave := ⟨leaves.learns.constraints.subset,
            leaves.learns.known, fun _ _ found => by rw [left, found], fun _ _ waits =>
              .inl (((opened.andThen grows).forward rfl).find?_eq_some waits)⟩
          have after := inside.trans stays.honours
          exact ⟨honours.trans after, after.declares declares⟩
  | _ => cases declared

/-- What is known of the walk over one declaration of the root scope, at the end of the walk over
all of them. -/
structure Stmt.Walked (last : Engine) (s s' : Stmt) (engine engine' : Engine) : Prop where
  ends : s.walk.Ends engine s' engine'
  isRoot : engine.scopes.isRoot = true
  sane : engine.scopes.Sane
  before : engine.Honours last
  after : engine'.Honours last
  declares : ∀ name ∈ s.declared?, engine'.Declares name

/-- The walk over declarations of the root scope is one over each of them. -/
theorem Stmt.walked_walkAll {last : Engine} : ∀ {body part : List Stmt} {engine : Engine},
    (Stmt.walkAll body).Ends engine part last → (∀ s ∈ body, s.declared?.isSome) →
      engine.scopes.isRoot = true → engine.scopes.Sane →
      engine.Honours last ∧
        (∀ s ∈ body, ∃ s' engine engine', Stmt.Walked last s s' engine engine') ∧
        ∀ s' ∈ part, ∃ s ∈ body, ∃ engine engine', Stmt.Walked last s s' engine engine'
  | [], _, _, ends, _, _, _ => by
      obtain ⟨rfl, rfl⟩ := Stmt.ends_nil.mp ends
      exact ⟨.refl _, nofun, nofun⟩
  | first :: rest, _, engine, ends, declares, isRoot, sane => by
      obtain ⟨first', between, rest', walked, walked', rfl⟩ := Stmt.ends_cons.mp ends
      obtain ⟨name, declared⟩ := Option.isSome_iff_exists.mp (declares first List.mem_cons_self)
      obtain ⟨honours, declares'⟩ := Stmt.honours_walk walked declared isRoot sane
      obtain ⟨⟨_, _, grows⟩, _, _⟩ := Stmt.passes_walk first walked sane
      obtain ⟨after, forth, back⟩ := Stmt.walked_walkAll walked'
        (fun s present => declares s (List.mem_cons_of_mem first present))
        (grows.isRoot.trans isRoot) (grows.sane sane)
      have own : Stmt.Walked last first first' engine between := by
        refine ⟨walked, isRoot, sane, honours.trans after, after, fun other same => ?_⟩
        rw [declared, Option.mem_some_iff] at same
        exact same ▸ declares'
      refine ⟨honours.trans after, fun s present => ?_, fun s' present => ?_⟩
      · cases present with
        | head => exact ⟨first', engine, between, own⟩
        | tail _ present => exact forth s present
      · cases present with
        | head => exact ⟨first, List.mem_cons_self, engine, between, own⟩
        | tail _ present =>
            obtain ⟨s, present, walked⟩ := back s' present
            exact ⟨s, List.mem_cons_of_mem first present, walked⟩

end Walks

theorem Stmt.needs_of_declared {s : Stmt} {name : String} (declared : s.declared? = some name)
    (later : List String) : s.needs later = s.needs [] ++ later.filter (· != name) := by
  cases s with
  | declare decl =>
      cases declared
      simp [Stmt.needs]
  | function header body =>
      cases declared
      cases body <;> simp [Stmt.needs]
  | _ => cases declared

/-- In a program in order no declaration needs itself. -/
theorem Stmt.mem_allNeeds_of_needs : ∀ {body : List Stmt}, (∀ s ∈ body, s.declared?.isSome) →
    (body.filterMap Stmt.declared?).Nodup → ∀ s ∈ body, ∀ name ∈ s.declared?, name ∈ s.needs [] →
      name ∈ Stmt.allNeeds [] body
  | [], _, _, _, present, _, _, _ => nomatch present
  | first :: rest, declares, distinct, s, present, name, same, used => by
      obtain ⟨other, declared⟩ := Option.isSome_iff_exists.mp (declares first List.mem_cons_self)
      rw [List.filterMap_cons_some declared, List.nodup_cons] at distinct
      rw [Stmt.allNeeds, Stmt.needs_of_declared declared, List.mem_append]
      cases present with
      | head => exact .inl used
      | tail _ present =>
          refine .inr (List.mem_filter.mpr ⟨Stmt.mem_allNeeds_of_needs
            (fun s present => declares s (List.mem_cons_of_mem first present)) distinct.2 s present
            name same used, bne_iff_ne.mpr ?_⟩)
          rintro rfl
          exact distinct.1 (List.mem_filterMap.mpr ⟨s, present, same⟩)

section Grounded

variable {last : Engine}

/-- A name of the root scope comes down to a type in the end. -/
def Engine.GroundsRoot (last : Engine) (name : String) : Prop :=
  ∀ symbol term, last.scopes.resolve? name = some symbol → symbol.term? = some term →
    term.Grounded last.constraints

theorem Engine.Honours.grounds {engine engine' : Engine} {name : String}
    (before : engine.Honours last) (after : engine'.Honours last) (unknown : last.known = [])
    (settled : last.forward = []) (grounds : last.GroundsRoot name) :
    engine.Grounds last.constraints engine'.forward name where
  declared := by
    intro symbol term found isTerm
    rw [Engine.lookup?, ← before.known, unknown, List.lookup_nil, Option.or_none] at found
    exact grounds symbol term (before.symbols name symbol found) isTerm
  awaited := by
    intro _ reference waits
    rcases after.met name reference waits with waits | ⟨symbol, term, found, isTerm, tied⟩
    · rw [settled] at waits
      cases waits
    · exact (grounds symbol term found isTerm).of_ties (.inl tied)

/-- What each kind of declaration of the root scope has to meet so that it is grounded where the
names that it needs are. -/
def Stmt.Grounding (s : Stmt) : Prop :=
  ∀ {final : List Constraint} {ahead : List ForwardReference} {engine engine' : Engine} {s' : Stmt},
    s.walk.Ends engine s' engine' → engine.scopes.isRoot = true → engine.scopes.Sane →
    engine'.constraints ⊆ final → engine'.forward <+: ahead →
    (∀ name ∈ s.needs [], engine.Grounds final ahead name) →
    (∀ note ∈ s'.notes, ∀ term ∈ note, term.Grounded final) ∧
      ∀ name ∈ s.declared?, engine'.Grounds final ahead name

/-- A declaration of known kinds that does not need itself is grounded where the names that it
needs are, if no function in it is circular. -/
theorem Stmt.Worth.grounding {s : Stmt} {Δ Δ' : Env Meaning}
    {returned notes : List Kind} (worth : Stmt.Worth Δ s Δ' returned notes)
    (declared : s.declared?.isSome) (decided : NoneCircular s.declarations)
    (own : ∀ name ∈ s.declared?, name ∉ s.needs []) : s.Grounding := by
  intro final ahead engine engine' s' ends isRoot sane within forward grounds
  have known : engine.GroundsKnown final ahead (fun _ => false) (s.needs []) :=
    fun name used _ => grounds name used
  cases worth with
  | @declare _ decl _ _ _ valued stated _ =>
      obtain ⟨decl', walked, rfl⟩ := Stmt.ends_declare.mp ends
      have founded := Variable.founded_of_worth valued stated
      obtain ⟨noted, grounds'⟩ := Variable.grounded_walk walked
        (fun _ used => own _ rfl (List.mem_append_left _ used)) within forward
        fun name used _ => grounds name (List.mem_append_left _ used)
      refine ⟨List.forall_mem_singleton.mpr (noted founded), fun name same => ?_⟩
      refine grounds' name (fun _ => founded) ?_
      intro differs
      exact absurd (Option.mem_some_iff.mp same).symm differs
  | prototype _ _ external _ =>
      obtain ⟨_, noted, grounds'⟩ := @Stmt.grounded_prototype _ ahead _ _ _ _ ends external
      refine ⟨noted, fun name same => grounds' name fun differs => ?_⟩
      exact absurd (Option.mem_some_iff.mp same).symm differs
  | @function _ _ _ header body _ _ _ _ _ _ _ _ _ _ worth _ =>
      have decided' : NoneCircular (Stmt.allDeclarations body) :=
        fun _ _ present => decided _ _ (List.mem_cons_of_mem _ present)
      have founded := decided header body List.mem_cons_self
      have noted := Stmt.grounded_function worth (fun walked inside grounds =>
        Stmt.AllWorth.grounded worth decided' walked inside grounds) founded ends sane within
        forward known
      obtain ⟨_, grounds'⟩ := Stmt.grounds_walk_function (fun walked inside grounds =>
        Stmt.AllWorth.leaves worth walked inside grounds) ends sane within forward known
      refine ⟨noted, fun name same => ?_⟩
      obtain rfl := Option.mem_some_iff.mp same
      refine grounds' header.name ?_ fun differs => absurd rfl differs
      rw [Stmt.unknownAfter, Function.update_self]
      exact founded
  | _ => cases declared

/-- Declarations of the root scope are grounded if what they need before them is, in whatever order
they were walked. -/
theorem Stmt.grounded_of_walked (unknown : last.known = []) (settled : last.forward = []) :
    ∀ {body : List Stmt}, (∀ s ∈ body, s.Grounding) → (∀ s ∈ body, s.declared?.isSome) →
      (∀ s ∈ body, ∃ s' engine engine', Stmt.Walked last s s' engine engine') →
      (∀ name ∈ Stmt.allNeeds [] body, last.GroundsRoot name) →
      ∀ s ∈ body, ∀ s' engine engine', Stmt.Walked last s s' engine engine' →
        ∀ note ∈ s'.notes, ∀ term ∈ note, term.Grounded last.constraints
  | [], _, _, _, _, _, present => nomatch present
  | first :: rest, grounding, declares, walks, needed, s, present => by
      obtain ⟨name, declared⟩ := Option.isSome_iff_exists.mp (declares first List.mem_cons_self)
      rw [Stmt.allNeeds, Stmt.needs_of_declared declared] at needed
      obtain ⟨needed, later⟩ := List.forall_mem_append.mp needed
      have ground : ∀ {s' : Stmt} {engine engine' : Engine},
          Stmt.Walked last first s' engine engine' →
            (∀ note ∈ s'.notes, ∀ term ∈ note, term.Grounded last.constraints) ∧
              ∀ name ∈ first.declared?, engine'.Grounds last.constraints engine'.forward name := by
        intro s' engine engine' walked
        refine grounding first List.mem_cons_self walked.ends walked.isRoot walked.sane
          walked.after.constraints List.prefix_rfl ?_
        intro other used
        exact walked.before.grounds walked.after unknown settled (needed other used)
      have own : last.GroundsRoot name := by
        obtain ⟨s', engine, engine', walked⟩ := walks first List.mem_cons_self
        obtain ⟨symbol, term, found, isTerm⟩ := walked.declares name declared
        have inScope : engine'.lookup? name = some symbol := by
          rw [Engine.lookup?, found, Option.some_or]
        have grounded := ((ground walked).2 name declared).declared symbol term inScope isTerm
        intro symbol' term' found' isTerm'
        rw [walked.after.symbols name symbol found] at found'
        cases found'
        rw [isTerm] at isTerm'
        cases isTerm'
        exact grounded
      cases present with
      | head => exact fun s' engine engine' walked => (ground walked).1
      | tail _ present =>
          refine Stmt.grounded_of_walked unknown settled
            (fun s present => grounding s (List.mem_cons_of_mem first present))
            (fun s present => declares s (List.mem_cons_of_mem first present))
            (fun s present => walks s (List.mem_cons_of_mem first present)) (fun other used => ?_) s
            present
          by_cases same : other = name
          · exact same ▸ own
          · exact later other (List.mem_filter.mpr ⟨used, bne_iff_ne.mpr same⟩)

end Grounded

end SmallLang
