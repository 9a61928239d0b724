import SmallLang.Proofs.Inference.Closed
import SmallLang.Proofs.Inference.Frame

/-!
# What every walk leaves in order

Whether inference succeeds or fails, it closes the scopes and the frames that it has opened, takes
no name away, and only adds placeholders and constraints. So an engine on which a run has failed is
as good for the next run as a new one.
-/

set_option autoImplicit false

namespace SmallLang

namespace Scopes

variable {scopes scopes' scopes'' : Scopes} {name : String} {symbol : Symbol} {position : Position}

/-- The scopes around the innermost one, from the inside to the outside. -/
def outer (scopes : Scopes) : List Scope := (scopes.inner ++ [scopes.root]).tail

/-- As many scopes are open as before, those around the innermost one are the same, and the
innermost one has still what it had. -/
structure Keeps (scopes scopes' : Scopes) : Prop where
  depth : scopes'.depth = scopes.depth
  outer : scopes'.outer = scopes.outer
  names : ∀ name symbol, scopes.innermost.lookup name = some symbol →
    scopes'.innermost.lookup name = some symbol

theorem Keeps.refl (scopes : Scopes) : scopes.Keeps scopes :=
  ⟨rfl, rfl, fun _ _ found => found⟩

theorem Keeps.trans (first : scopes.Keeps scopes') (second : scopes'.Keeps scopes'') :
    scopes.Keeps scopes'' :=
  ⟨second.depth.trans first.depth, second.outer.trans first.outer,
    fun name symbol found => second.names name symbol (first.names name symbol found)⟩

theorem keeps_define (defined : scopes.define name symbol position = .ok scopes') :
    scopes.Keeps scopes' := by
  obtain ⟨_, new, rfl⟩ := define_eq_ok_iff.mp defined
  constructor
  · obtain ⟨root, inner⟩ := scopes
    cases inner <;> rfl
  · obtain ⟨root, inner⟩ := scopes
    cases inner <;> rfl
  · intro other earlier found
    rw [lookup_innermost_insert, if_neg]
    · exact found
    · rintro rfl
      rw [new] at found
      cases found

/-- Only the innermost scope is lost when it is closed. -/
theorem Keeps.pop (keeps : scopes.push.Keeps scopes') : scopes'.pop = scopes := by
  obtain ⟨root, inner⟩ := scopes
  obtain ⟨root', inner'⟩ := scopes'
  have around : (inner' ++ [root']).tail = inner ++ [root] := keeps.outer
  cases inner' with
  | nil => simp at around
  | cons scope rest =>
      obtain ⟨same, same'⟩ :=
        List.append_inj' (show rest ++ [root'] = inner ++ [root] from around) rfl
      cases same
      cases same'
      rfl

theorem Keeps.isRoot (keeps : scopes.Keeps scopes') : scopes'.isRoot = scopes.isRoot := by
  have depth : scopes'.inner.length = scopes.inner.length := Nat.succ.inj keeps.depth
  obtain ⟨root, inner⟩ := scopes
  obtain ⟨root', inner'⟩ := scopes'
  cases inner <;> cases inner' <;> first | rfl | cases depth

end Scopes

namespace Engine

variable {engine engine' engine'' : Engine}

/-- What an engine retains while it walks some part of a program, also where the walk fails. The
innermost frame may have got terms, and nothing that is being declared is left so. -/
structure Retains (engine engine' : Engine) : Prop where
  scopes : engine.scopes.Keeps engine'.scopes
  frames : ∃ returned, engine'.frames = framesAfter engine.frames returned
  table : engine.table.slots.toList <+: engine'.table.slots.toList
  constraints : engine.constraints <+: engine'.constraints
  declaring : engine.declaring = none → engine'.declaring = none

theorem Retains.refl (engine : Engine) : engine.Retains engine :=
  ⟨.refl _, ⟨[], (framesAfter_nil _).symm⟩, List.prefix_rfl, List.prefix_rfl, id⟩

theorem Retains.trans (first : engine.Retains engine') (second : engine'.Retains engine'') :
    engine.Retains engine'' where
  scopes := first.scopes.trans second.scopes
  frames := by
    obtain ⟨returned, frames⟩ := first.frames
    obtain ⟨more, frames'⟩ := second.frames
    exact ⟨returned ++ more, by rw [frames', frames, framesAfter_append]⟩
  table := first.table.trans second.table
  constraints := first.constraints.trans second.constraints
  declaring := second.declaring ∘ first.declaring

theorem retains_constrain (engine : Engine) (left right : Term) :
    engine.Retains (engine.constrain left right) := by
  have retains := Retains.refl engine
  unfold constrain
  split
  · exact { retains with constraints := List.prefix_append .. }
  · exact retains

theorem retains_constrainAll (pairs : List (Term × Term)) :
    ∀ engine : Engine, engine.Retains (engine.constrainAll pairs) := by
  induction pairs with
  | nil => exact Retains.refl
  | cons pair rest ih => exact fun engine => (retains_constrain engine _ _).trans (ih _)

theorem retains_grow (engine : Engine) : engine.Retains engine.grow :=
  { Retains.refl engine with
    table := by
      show _ <+: (engine.table.slots.push .unbound).toList
      rw [Array.toList_push]
      exact List.prefix_append .. }

theorem retains_settleForward (engine : Engine) (name : String) (term : Term) :
    engine.Retains (engine.settleForward name term) := by
  have retains := Retains.refl engine
  unfold settleForward
  split
  · split
    · exact retains
    · refine Retains.trans ?_ (retains_constrain _ _ _)
      exact ⟨retains.scopes, retains.frames, retains.table, retains.constraints, retains.declaring⟩
  · exact retains

theorem retains_addReturn (engine : Engine) (term : Term) :
    engine.Retains (engine.addReturn term) := by
  have retains := Retains.refl engine
  unfold addReturn
  cases outside : engine.frames with
  | nil => exact retains
  | cons frame outer => exact { retains with frames := ⟨[term], by rw [outside]; rfl⟩ }

theorem Retains.block (retains : engine.push.Retains engine') : engine.Retains engine'.pop :=
  { retains with scopes := by rw [pop, retains.scopes.pop]; exact .refl _ }

/-- Leaving a function closes its frame. -/
theorem Retains.leave (retains : engine.enter.Retains engine') : engine.Retains engine'.leave := by
  obtain ⟨returned, frames⟩ := retains.frames
  refine { retains with scopes := ?_, frames := ⟨[], ?_⟩ }
  · rw [Engine.leave, pop, show engine'.scopes.pop = engine.scopes from retains.scopes.pop]
    exact .refl _
  · rw [framesAfter_nil, Engine.leave, frames]
    rfl

end Engine

namespace Infer

variable {α β : Type}

/-- Whatever comes of a step, the engine retains what it had. -/
def Retains (work : Infer α) : Prop :=
  ∀ engine, work.Meets engine (fun _ => engine.Retains) (fun _ => engine.Retains)

theorem retains_pure (value : α) : Retains (pure value) := Engine.Retains.refl

theorem retains_fail (error : Error) : Retains (fail error : Infer α) := Engine.Retains.refl

theorem retains_get : Retains get := Engine.Retains.refl

theorem retains_ofExcept (result : Engine → Except Error α) : Retains (ofExcept result) :=
  fun engine => meets_ofExcept (fun _ _ => .refl engine) fun _ _ => .refl engine

theorem retains_update {step : Engine → Engine}
    (retains : ∀ engine : Engine, engine.Retains (step engine)) :
    Retains (update step) :=
  retains

theorem Retains.bind {first : Infer α} {second : α → Infer β} (before : first.Retains)
    (after : ∀ value, (second value).Retains) : (first >>= second).Retains := by
  intro engine
  refine Meets.bind ((before engine).imp (fun value between retains => ?_) fun _ _ => id)
  exact (after value between).imp (fun _ _ => retains.trans) fun _ _ => retains.trans

theorem retains_fresh : Retains fresh := Engine.retains_grow

theorem retains_define (name : String) (symbol : Symbol) (position : Position) :
    Retains (define name symbol position) := by
  intro engine
  apply meets_define
  · intro scopes defined
    exact { Engine.Retains.refl engine with scopes := Scopes.keeps_define defined }
  · exact fun _ _ => .refl engine

/-- The variable that is being declared is forgotten, also where its value fails. -/
theorem Retains.declaring {work : Infer α} (retains : work.Retains) (name : String) :
    (declaring name work).Retains := by
  intro engine
  have closed : ∀ last, Engine.Retains { engine with
      declaring := if engine.scopes.isRoot then some name else engine.declaring } last →
      engine.Retains { last with declaring := none } :=
    fun last inside =>
      ⟨inside.scopes, inside.frames, inside.table, inside.constraints, fun _ => rfl⟩
  exact meets_declaring ((retains _).imp (fun _ => closed) fun _ => closed)

theorem retains_forward (name : String) (position : Position) :
    Retains (forward name position) := by
  intro engine
  unfold Meets forward
  cases engine.forward.find? (·.name == name) with
  | some reference => exact .refl engine
  | none =>
      have grown := engine.retains_grow
      exact ⟨grown.scopes, grown.frames, grown.table, grown.constraints, grown.declaring⟩

theorem retains_anchor (position : Position) :
    Retains (update fun engine => { engine with anchor := position }) := by
  intro engine
  have retains := Engine.Retains.refl engine
  exact ⟨retains.scopes, retains.frames, retains.table, retains.constraints, retains.declaring⟩

end Infer

/-- Whatever comes of a walk, the engine retains what it had. -/
def Walk.Retains {α : Type} (walk : Walk α) : Prop :=
  ∀ engine, walk.Meets engine engine.Retains (fun _ => engine.Retains)

namespace Walk

variable {α β γ : Type}

theorem retains_after {work : Infer γ} {part : α} {walk : γ → Walk α} (before : work.Retains)
    (after : ∀ value, (walk value).Retains) : (Walk.after work part walk).Retains := by
  intro engine
  refine meets_after ((before engine).imp (fun value between retains => ?_) fun _ _ => id)
  exact (after value between).imp (fun _ => retains.trans) fun _ _ => retains.trans

theorem retains_still {work : Infer Term} (part : α) (retains : work.Retains) :
    (still part work).Retains :=
  fun engine => meets_still (retains engine)

theorem Retains.map {walk : Walk α} (retains : walk.Retains) (whole : α → β) :
    (walk.map whole).Retains :=
  retains

theorem Retains.within {walk : Walk α} (retains : walk.Retains) (whole : α → β) :
    (walk.within whole).Retains :=
  fun engine => (retains engine).within

theorem Retains.both {first : Walk α} {second : Walk β} (before : first.Retains) (part : β)
    (after : second.Retains) : (first.both part second).Retains := by
  intro engine
  refine Meets.both ((before engine).imp (fun between retains => ?_) fun _ _ => id)
  exact (after between).imp (fun _ => retains.trans) fun _ _ => retains.trans

theorem Retains.inScope {walk : Walk α} (retains : walk.Retains) : walk.inScope.Retains :=
  fun engine => Meets.inScope ((retains engine.push).imp (fun _ => Engine.Retains.block)
    fun _ _ => Engine.Retains.block)

end Walk

/-- The scope and the frame of a function are closed wherever its body fails. -/
theorem FunctionHeader.retains_walk {header : FunctionHeader} {walk : Walk (List Stmt)}
    (body : List Stmt) (declares : (Infer.function header).Retains)
    (takes : (Infer.parameters header.parameters).Retains) (inside : walk.Retains)
    (concludes : ∀ declared before terms,
      (Infer.conclusion header declared before terms).Retains) :
    (header.walk body walk).Retains := by
  intro engine
  refine header.meets_walk ((declares engine).imp (fun found inner before => ?_) fun _ _ => id)
  refine (takes inner.enter).imp (fun _ start taken => ?_) fun _ _ taken => before.trans taken.leave
  refine (inside start).imp (fun last walked => ?_)
    fun _ _ walked => before.trans (taken.trans walked).leave
  have after := before.trans (taken.trans walked).leave
  refine (concludes found.1 found.2 last.returned last.leave).imp (fun _ _ => after.trans) ?_
  intro _ _
  exact after.trans

/-- An engine retains what it had over every part of a program. -/
theorem Infer.closed_retains :
    Closed (fun _ => True) (fun _ => Infer.Retains) fun _ => Walk.Retains where
  pure := retains_pure
  fail _ := retains_fail _
  bind := Retains.bind
  look _ next := retains_get.bind fun engine => next engine trivial
  ofScopes _ _ := retains_ofExcept _
  fresh := retains_fresh
  forward name position _ := retains_forward name position
  constrainAll pairs := retains_update (Engine.retains_constrainAll pairs)
  define name symbol position _ := retains_define name symbol position
  settleForward name term := retains_update fun engine => engine.retains_settleForward name term
  addReturn term := retains_update fun engine => engine.retains_addReturn term
  anchor _ := retains_anchor _
  declaring name retains := retains.declaring name
  after := Walk.retains_after
  still := Walk.retains_still
  map whole retains := retains.map whole
  within whole retains := retains.within whole
  both part before after := before.both part after
  inScope := Walk.Retains.inScope
  body := FunctionHeader.retains_walk

theorem Infer.Composed.retains {α : Type} {work : Infer α} (composed : work.Composed) :
    work.Retains :=
  composed _ _ closed_retains

theorem Walk.Composed.retains {α : Type} {walk : Walk α} (composed : walk.Composed) :
    walk.Retains :=
  composed _ _ Infer.closed_retains

section Sessions

open Infer

variable {engine engine' : Engine}

/-- An engine between two programs: no scope or frame is open, and nothing is being declared. -/
structure Engine.Idle (engine : Engine) : Prop where
  root : engine.scopes.isRoot = true
  frames : engine.frames = []
  declaring : engine.declaring = none

theorem Engine.Retains.idle (retains : engine.Retains engine') (idle : engine.Idle) :
    engine'.Idle where
  root := retains.scopes.isRoot.trans idle.root
  frames := by
    obtain ⟨returned, frames⟩ := retains.frames
    rw [frames, idle.frames]
    rfl
  declaring := retains.declaring idle.declaring

/-- The engine after runs over some programs, each with an order of its own, whatever came of
them. -/
def Engine.afterRuns (engine : Engine) (runs : List (ForwardOrder × Program)) : Engine :=
  runs.foldl (fun engine (order, program) => (run order program).last engine) engine

theorem Infer.retains_requireSettled (order : ForwardOrder) : (requireSettled order).Retains := by
  refine retains_get.bind ?_
  intro engine
  split
  · exact retains_pure _
  · exact retains_fail _

theorem Infer.retains_walk (program : Program) : (Infer.walk program).Retains :=
  fun engine => meets_walk ((Stmt.composed_walkAll program).retains engine)

theorem Infer.idle_run (order : ForwardOrder) (program : Program) (idle : engine.Idle) :
    ((run order program).last engine).Idle := by
  have learned : (engine.learn program).Idle := ⟨idle.root, idle.frames, idle.declaring⟩
  apply meets_last_iff.mp
  refine Meets.bind (meets_update (Meets.bind ?_))
  refine (retains_walk program _).imp (fun program' walked retains => ?_)
    fun _ _ retains => retains.idle learned
  have idle := retains.idle learned
  refine Meets.bind ((retains_requireSettled order walked).imp (fun _ found retains => ?_)
    fun _ _ retains => retains.idle idle)
  have idle := retains.idle idle
  have swept : found.sweep.Idle := ⟨idle.root, idle.frames, idle.declaring⟩
  exact Meets.bind (meets_update (meets_ofExcept (fun _ _ => swept) fun _ _ => swept))

theorem Engine.Idle.afterRuns (runs : List (ForwardOrder × Program)) :
    ∀ {engine : Engine}, engine.Idle → (engine.afterRuns runs).Idle := by
  induction runs with
  | nil => exact id
  | cons run rest ih =>
      intro engine idle
      exact ih (idle_run run.1 run.2 idle)

/-- Every part of a program, whether inference gets through it or fails in it, leaves as many scopes
and frames open as there were, with all names in them. So after some programs, of which any may have
failed, an engine is ready for the next. -/
theorem Infer.always_retains :
    (∀ (e : Expr) (engine : Engine), engine.Retains (e.infer.last engine)) ∧
      (∀ (s : Stmt) (engine : Engine), engine.Retains (s.walk engine).engine) ∧
      (∀ (alternate : Alternate) (engine : Engine),
        engine.Retains (alternate.walk engine).engine) ∧
      (∀ (arm : Arm) (subject : Option Term) (engine : Engine),
        engine.Retains (arm.walk subject engine).engine) ∧
      ∀ runs : List (ForwardOrder × Program), (Engine.start.afterRuns runs).Idle := by
  refine ⟨?_, ?_, ?_, ?_, fun runs => Engine.Idle.afterRuns runs ⟨rfl, rfl, rfl⟩⟩
  · exact fun e engine => meets_last_iff.mp (e.composed_infer.retains engine)
  · exact fun s engine => Walk.meets_last_iff.mp (s.composed_walk.retains engine)
  · intro alternate engine
    exact Walk.meets_last_iff.mp (alternate.composed_walk.retains engine)
  · intro arm subject engine
    exact Walk.meets_last_iff.mp ((arm.composed_walk subject).retains engine)

end Sessions

end SmallLang
