import SmallLang.Proofs.Inference.Settled

/-!
# Inference of a program

Inference succeeds exactly if the walk over the program succeeds, no name is left without a
declaration, and everything that the walk has noted can be settled. The order in which names that
wait are gone through decides at most which of several at one offset is reported.
-/

set_option autoImplicit false

namespace SmallLang

open Infer Walk

namespace Engine

variable {engine : Engine} {order order' : ForwardOrder} {reference reference' : ForwardReference}

/-- Of some forward references, the search for the first one finds one of least offset. -/
theorem foldl_least (rest : List ForwardReference) : ∀ start : ForwardReference,
    let found := rest.foldl (fun least reference =>
      if reference.position.offset < least.position.offset then reference else least) start
    found ∈ start :: rest ∧
      ∀ other ∈ start :: rest, found.position.offset ≤ other.position.offset := by
  induction rest with
  | nil =>
      intro start
      exact ⟨List.mem_singleton_self start, List.forall_mem_singleton.mpr (Nat.le_refl _)⟩
  | cons next rest ih =>
      intro start
      dsimp only
      rw [List.foldl_cons]
      split
      · next less =>
          obtain ⟨among, least⟩ := ih next
          have here := Nat.le_trans (least next List.mem_cons_self) (Nat.le_of_lt less)
          exact ⟨List.mem_cons_of_mem _ among, List.forall_mem_cons.mpr ⟨here, least⟩⟩
      · next notLess =>
          obtain ⟨among, least⟩ := ih start
          obtain ⟨here, others⟩ := List.forall_mem_cons.mp least
          have there := Nat.le_trans here (Nat.le_of_not_lt notLess)
          refine ⟨?_, List.forall_mem_cons.mpr ⟨here, List.forall_mem_cons.mpr ⟨there, others⟩⟩⟩
          cases List.mem_cons.mp among with
          | inl same =>
              rw [same]
              exact List.mem_cons_self
          | inr later => exact List.mem_cons_of_mem _ (List.mem_cons_of_mem _ later)

theorem firstForward?_eq_none_iff : engine.firstForward? order = none ↔ engine.forward = [] := by
  have perm := order.perm engine.forward
  unfold firstForward?
  cases arranged : order.arrange engine.forward with
  | nil =>
      rw [arranged] at perm
      exact iff_of_true rfl perm.symm.eq_nil
  | cons first rest =>
      rw [arranged] at perm
      refine iff_of_false nofun ?_
      intro empty
      rw [empty] at perm
      cases perm.eq_nil

/-- Whatever the order, the forward reference that is reported is one of those that the engine waits
for, and none of them stands in front of it. -/
theorem firstForward?_spec (first : engine.firstForward? order = some reference) :
    reference ∈ engine.forward ∧
      ∀ other ∈ engine.forward, reference.position.offset ≤ other.position.offset := by
  have perm := order.perm engine.forward
  unfold firstForward? at first
  split at first
  · cases first
  · next start rest arranged =>
      obtain rfl := Option.some.inj first
      obtain ⟨among, least⟩ := foldl_least rest start
      rw [← arranged] at among least
      exact ⟨perm.mem_iff.mp among, fun other waits => least other (perm.mem_iff.mpr waits)⟩

/-- Each of those that stand first is reported in some order. -/
theorem exists_firstForward?_eq_some_iff :
    (∃ order, engine.firstForward? order = some reference) ↔ reference ∈ engine.forward ∧
      ∀ other ∈ engine.forward, reference.position.offset ≤ other.position.offset := by
  refine ⟨fun ⟨order, first⟩ => firstForward?_spec first, fun ⟨waits, least⟩ => ?_⟩
  let order : ForwardOrder :=
    { arrange := fun waiting =>
        if reference ∈ waiting then reference :: waiting.erase reference else waiting
      perm := fun waiting => by
        split
        · next among => exact (List.perm_cons_erase among).symm
        · exact .refl _ }
  have stays : ∀ rest : List ForwardReference,
      (∀ other ∈ rest, reference.position.offset ≤ other.position.offset) →
        rest.foldl (fun least other =>
          if other.position.offset < least.position.offset then other else least) reference =
            reference := by
    intro rest least
    induction rest with
    | nil => rfl
    | cons next rest ih =>
        obtain ⟨here, later⟩ := List.forall_mem_cons.mp least
        rw [List.foldl_cons, if_neg (Nat.not_lt.mpr here)]
        exact ih later
  refine ⟨order, ?_⟩
  have arranged : order.arrange engine.forward = reference :: engine.forward.erase reference :=
    if_pos waits
  unfold firstForward?
  rw [arranged]
  exact congrArg some (stays _ fun other among => least other (List.mem_of_mem_erase among))

/-- In two orders, what is reported stands at the same offset. -/
theorem offset_eq_of_firstForward? (first : engine.firstForward? order = some reference)
    (first' : engine.firstForward? order' = some reference') :
    reference.position.offset = reference'.position.offset := by
  obtain ⟨waits, least⟩ := firstForward?_spec first
  obtain ⟨waits', least'⟩ := firstForward?_spec first'
  exact Nat.le_antisymm (least reference' waits') (least' reference waits)

end Engine

namespace Infer

variable {α β : Type} {engine engine' : Engine}

theorem bind_of_yields {first : Infer α} {second : α → Infer β} {value : α}
    (yields : Yields first engine value engine') :
    (first >>= second) engine = second value engine' := by
  change EStateM.bind first second engine = _
  unfold Yields at yields
  simp only [EStateM.bind, yields]

theorem bind_of_error {first : Infer α} {second : α → Infer β} {error : Error}
    (fails : first engine = .error error engine') :
    (first >>= second) engine = .error error engine' := by
  change EStateM.bind first second engine = _
  simp only [EStateM.bind, fails]

theorem yields_walk {program part : Program} :
    Yields (Infer.walk program) engine part engine' ↔
      (Stmt.walkAll program).Ends engine part engine' := by
  unfold Yields Infer.walk Ends
  cases walked : Stmt.walkAll program engine with
  | mk found last outcome =>
      cases outcome with
      | error error => simp
      | ok term => simp

theorem yields_requireSettled {order : ForwardOrder} {found : Unit} :
    Yields (requireSettled order) engine found engine' ↔
      engine.forward = [] ∧ engine' = engine := by
  have waits : engine.firstForward? order = none ↔ engine.forward = [] :=
    Engine.firstForward?_eq_none_iff
  rw [← waits]
  simp only [requireSettled, yields_bind, yields_get]
  constructor
  · rintro ⟨_, _, ⟨rfl, rfl⟩, yields⟩
    split at yields
    · next none => exact ⟨none, (yields_pure.mp yields).2⟩
    · exact (yields_fail.mp yields).elim
  · rintro ⟨none, rfl⟩
    refine ⟨_, _, ⟨rfl, rfl⟩, ?_⟩
    rw [none]
    exact yields_pure.mpr ⟨rfl, rfl⟩

/-- A run that succeeds: its walk, and what settling makes of the part that was walked. -/
theorem yields_run {order : ForwardOrder} {program typed : Program} {last : Engine} :
    Yields (run order program) engine typed last ↔ ∃ part walked,
      (Stmt.walkAll program).Ends (engine.learn program) part walked ∧ walked.forward = [] ∧
        last = walked.sweep ∧ Stmt.AllAlike last.table.Settles part typed := by
  simp only [run, yields_bind, yields_update, yields_walk, yields_requireSettled, yields_ofExcept]
  constructor
  · rintro ⟨_, _, rfl, part, walked, ends, _, _, ⟨declared, rfl⟩, _, _, rfl, settled, rfl⟩
    exact ⟨part, _, ends, declared, rfl, (Stmt.settleAll_eq_ok_iff part).mp settled⟩
  · rintro ⟨part, walked, ends, declared, rfl, alike⟩
    exact ⟨(), _, rfl, part, walked, ends, (), walked, ⟨declared, rfl⟩, (), _, rfl,
      (Stmt.settleAll_eq_ok_iff part).mpr alike, rfl⟩

/-- After a walk that leaves names open, a run fails with the one that comes first. -/
theorem run_of_waiting {order : ForwardOrder} {program part : Program} {last : Engine}
    {reference : ForwardReference}
    (ends : (Stmt.walkAll program).Ends (engine.learn program) part last)
    (first : last.firstForward? order = some reference) :
    run order program engine =
      .error ⟨.notDeclared reference.name, reference.position⟩ last := by
  have misses : requireSettled order last =
      .error ⟨.notDeclared reference.name, reference.position⟩ last := by
    unfold requireSettled
    rw [bind_of_yields (yields_get.mpr ⟨rfl, rfl⟩), first]
    rfl
  unfold run
  rw [bind_of_yields (show Yields (update (·.learn program)) engine () _ from rfl),
    bind_of_yields (yields_walk.mpr ends)]
  exact bind_of_error misses

/-- In two orders, runs come to the same, but for a name that they miss at one offset. They leave
the same engine in any case. -/
theorem run_eq_or_tied (order order' : ForwardOrder) (program : Program) (engine : Engine) :
    run order program engine = run order' program engine ∨
      ∃ (first second : ForwardReference) (last : Engine),
        run order program engine = .error ⟨.notDeclared first.name, first.position⟩ last ∧
        run order' program engine = .error ⟨.notDeclared second.name, second.position⟩ last ∧
        first.position.offset = second.position.offset := by
  cases walked : walk program (engine.learn program) with
  | error error last =>
      have stops : ∀ order, run order program engine = .error error last := by
        intro order
        unfold run
        rw [bind_of_yields (show Yields (update (·.learn program)) engine () _ from rfl),
          bind_of_error walked]
      exact .inl ((stops order).trans (stops order').symm)
  | ok part last =>
      have ends := yields_walk.mp walked
      cases first : last.firstForward? order with
      | none =>
          have declared := Engine.firstForward?_eq_none_iff.mp first
          have passes : ∀ order, run order program engine =
              ofExcept (fun engine => Stmt.settleAll engine.table part) last.sweep := by
            intro order
            unfold run
            rw [bind_of_yields (show Yields (update (·.learn program)) engine () _ from rfl),
              bind_of_yields walked,
              bind_of_yields (show Yields (requireSettled order) last () last from
                yields_requireSettled.mpr ⟨declared, rfl⟩),
              bind_of_yields (show Yields (update (·.sweep)) last () _ from rfl)]
          exact .inl ((passes order).trans (passes order').symm)
      | some reference =>
          obtain ⟨reference', second⟩ : ∃ found, last.firstForward? order' = some found := by
            refine Option.ne_none_iff_exists'.mp ?_
            intro none
            have declared := Engine.firstForward?_eq_none_iff.mp none
            rw [Engine.firstForward?_eq_none_iff.mpr declared] at first
            cases first
          exact .inr ⟨reference, reference', last, run_of_waiting ends first,
            run_of_waiting ends second, Engine.offset_eq_of_firstForward? first second⟩

end Infer

namespace Program

variable {order : ForwardOrder} {program part typed : Program} {last : Engine}

/-- After a successful walk that leaves no name open, settling decides. -/
theorem infer_of_walk (ends : (Stmt.walkAll program).Ends (Engine.start.learn program) part last)
    (declared : last.forward = []) :
    program.infer order = Stmt.settleAll (last.table.unify last.constraints) part := by
  have runs : Infer.run order program .start =
      Infer.ofExcept (fun engine => Stmt.settleAll engine.table part) last.sweep := by
    unfold Infer.run
    rw [bind_of_yields (show Yields (update (·.learn program)) .start () _ from rfl),
      bind_of_yields (yields_walk.mpr ends),
      bind_of_yields (show Yields (requireSettled order) last () last from
        yields_requireSettled.mpr ⟨declared, rfl⟩),
      bind_of_yields (show Yields (update (·.sweep)) last () _ from rfl)]
  unfold Program.infer
  rw [runs]
  have swept : Stmt.settleAll last.sweep.table part =
    Stmt.settleAll (last.table.unify last.constraints) part := rfl
  rw [← swept]
  cases settled : Stmt.settleAll last.sweep.table part <;> simp only [Infer.ofExcept, settled]

theorem infer_eq_ok_iff :
    program.infer order = .ok typed ↔ ∃ part last,
      (Stmt.walkAll program).Ends (Engine.start.learn program) part last ∧ last.forward = [] ∧
        Stmt.AllAlike (last.table.unify last.constraints).Settles part typed := by
  constructor
  · intro inferred
    unfold Program.infer at inferred
    split at inferred
    · next runs =>
        cases inferred
        obtain ⟨part, walked, ends, declared, rfl, alike⟩ := yields_run.mp runs
        exact ⟨part, walked, ends, declared, alike⟩
    · cases inferred
  · rintro ⟨part, last, ends, declared, settled⟩
    rw [infer_of_walk ends declared]
    exact (Stmt.settleAll_eq_ok_iff part).mpr settled

/-- Whether inference succeeds, and with which types, does not depend on the order. -/
theorem infer_eq_or_tied (order order' : ForwardOrder) (program : Program) :
    program.infer order = program.infer order' ∨ ∃ first second : ForwardReference,
      program.infer order = .error ⟨.notDeclared first.name, first.position⟩ ∧
      program.infer order' = .error ⟨.notDeclared second.name, second.position⟩ ∧
      first.position.offset = second.position.offset := by
  unfold infer
  obtain same | ⟨first, second, last, runs, runs', tied⟩ :=
    Infer.run_eq_or_tied order order' program .start
  · exact .inl (by rw [same])
  · exact .inr ⟨first, second, by rw [runs], by rw [runs'], tied⟩

/-- Inference leaves a type in every declaration with a type or a value, and in every function. -/
theorem allNoted_of_infer (inferred : program.infer order = .ok typed) :
    Stmt.AllNoted Term.IsType typed := by
  obtain ⟨part, last, ends, _, settled⟩ := infer_eq_ok_iff.mp inferred
  exact (Stmt.passes_walkAll program ends Scopes.sane_start).noted.settled settled

end Program

end SmallLang
