import SmallLang.Proofs.Inference.Closed
import SmallLang.Proofs.Inference.Frame
import SmallLang.Proofs.Table.Growth

/-!
# The walk and the table

A walk looks at nothing in the table of placeholders but its size. So two engines that differ only
in what their tables say of the placeholders so far, and in the constraints that were swept already,
go through the same steps and end alike.
-/

set_option autoImplicit false

namespace SmallLang

variable {α β γ : Type} {base base' : Table} {past : List Constraint}

/-- The engine with as many placeholders more than in another table, and with constraints before its
own. -/
def Engine.recast (base' : Table) (past : List Constraint) (more : Nat) (engine : Engine) :
    Engine :=
  { engine with table := base'.extend more, constraints := past ++ engine.constraints }

/-- Two engines that have added as many placeholders to two tables, and have the same constraints
since then. -/
inductive Engine.Parallel (base base' : Table) (past : List Constraint) :
    Engine → Engine → Prop where
  | intro {engine : Engine} (more : Nat) : engine.table = base.extend more →
      Parallel base base' past engine (engine.recast base' past more)

namespace Engine.Parallel

variable {engine engine' : Engine}

theorem of_table (same : engine.table = base)
    (same' : engine' = { engine with table := base', constraints := past ++ engine.constraints }) :
    Parallel base base' past engine engine' :=
  same' ▸ intro 0 same

theorem scopes (parallel : Parallel base base' past engine engine') :
    engine'.scopes = engine.scopes := by
  cases parallel
  rfl

theorem resembles (parallel : Parallel base base' past engine engine') :
    engine.Resembles engine' := by
  cases parallel
  exact ⟨rfl, rfl, rfl⟩

theorem declaring (parallel : Parallel base base' past engine engine') :
    engine'.declaring = engine.declaring := by
  cases parallel
  rfl

theorem forward (parallel : Parallel base base' past engine engine') :
    engine'.forward = engine.forward := by
  cases parallel
  rfl

theorem returned (parallel : Parallel base base' past engine engine') :
    engine'.returned = engine.returned := by
  cases parallel
  rfl

theorem next (sizes : base.size = base'.size) (parallel : Parallel base base' past engine engine') :
    engine'.table.next = engine.table.next := by
  cases parallel with
  | intro more grown =>
      change (Placeholder.mk (base'.extend _).size) = ⟨engine.table.size⟩
      rw [grown, Table.size_extend, Table.size_extend, sizes]

/-! ### Steps of the engine -/

/-- A step on what engines have besides their tables and constraints. -/
theorem step (parallel : Parallel base base' past engine engine') (change : Engine → Engine)
    (same : ∀ engine, (change engine).table = engine.table)
    (commutes : ∀ engine more,
      change (engine.recast base' past more) = (change engine).recast base' past more) :
    Parallel base base' past (change engine) (change engine') := by
  cases parallel with
  | intro more grown =>
      rw [commutes]
      exact intro more ((same engine).trans grown)

theorem constrain (parallel : Parallel base base' past engine engine') (left right : Term) :
    Parallel base base' past (engine.constrain left right) (engine'.constrain left right) := by
  cases parallel with
  | intro more grown =>
      unfold Engine.constrain
      split
      · have longer : Parallel base base' past
            { engine with constraints := engine.constraints ++ [⟨left, right⟩] } _ :=
          intro more grown
        rw [recast, ← List.append_assoc] at longer
        exact longer
      · exact intro more grown

theorem constrainAll (pairs : List (Term × Term)) : ∀ {engine engine' : Engine},
    Parallel base base' past engine engine' →
      Parallel base base' past (engine.constrainAll pairs) (engine'.constrainAll pairs) := by
  induction pairs with
  | nil => exact id
  | cons pair rest ih => exact fun parallel => ih (parallel.constrain pair.1 pair.2)

theorem grow (parallel : Parallel base base' past engine engine') :
    Parallel base base' past engine.grow engine'.grow := by
  cases parallel with
  | intro more grown =>
      have grown' : engine.grow.table = base.extend (more + 1) := by
        rw [Engine.grow, grown]
        rfl
      exact intro (more + 1) grown'

theorem awaiting (parallel : Parallel base base' past engine engine')
    (forward : List ForwardReference) :
    Parallel base base' past { engine with forward } { engine' with forward } :=
  parallel.step (fun engine => { engine with forward }) (fun _ => rfl) fun _ _ => rfl

theorem settleForward (parallel : Parallel base base' past engine engine') (name : String)
    (term : Term) :
    Parallel base base' past (engine.settleForward name term)
      (engine'.settleForward name term) := by
  cases root : engine.scopes.isRoot with
  | false =>
      rw [Engine.settleForward_of_not_isRoot root,
        Engine.settleForward_of_not_isRoot (parallel.scopes ▸ root)]
      exact parallel
  | true =>
      unfold Engine.settleForward
      rw [if_pos root, if_pos (parallel.scopes ▸ root), parallel.forward]
      split
      · exact parallel
      · exact (parallel.awaiting _).constrain _ _

theorem within (parallel : Parallel base base' past engine engine') (scopes : Scopes) :
    Parallel base base' past { engine with scopes } { engine' with scopes } :=
  parallel.step (fun engine => { engine with scopes }) (fun _ => rfl) fun _ _ => rfl

theorem push (parallel : Parallel base base' past engine engine') :
    Parallel base base' past engine.push engine'.push :=
  parallel.step Engine.push (fun _ => rfl) fun _ _ => rfl

theorem pop (parallel : Parallel base base' past engine engine') :
    Parallel base base' past engine.pop engine'.pop :=
  parallel.step Engine.pop (fun _ => rfl) fun _ _ => rfl

theorem enter (parallel : Parallel base base' past engine engine') :
    Parallel base base' past engine.enter engine'.enter :=
  parallel.step Engine.enter (fun _ => rfl) fun _ _ => rfl

theorem leave (parallel : Parallel base base' past engine engine') :
    Parallel base base' past engine.leave engine'.leave :=
  parallel.step Engine.leave (fun _ => rfl) fun _ _ => rfl

theorem addReturn (parallel : Parallel base base' past engine engine') (term : Term) :
    Parallel base base' past (engine.addReturn term) (engine'.addReturn term) := by
  obtain ⟨scopes, table, constraints, forward, known, frames, declaring, anchor⟩ := engine
  cases parallel with
  | intro more grown => cases frames <;> exact intro more grown

theorem anchored (parallel : Parallel base base' past engine engine') (anchor : Position) :
    Parallel base base' past { engine with anchor } { engine' with anchor } :=
  parallel.step (fun engine => { engine with anchor }) (fun _ => rfl) fun _ _ => rfl

theorem declares (parallel : Parallel base base' past engine engine') (declaring : Option String) :
    Parallel base base' past { engine with declaring } { engine' with declaring } :=
  parallel.step (fun engine => { engine with declaring }) (fun _ => rfl) fun _ _ => rfl

end Engine.Parallel

namespace Infer

/-- Two ends of a step that say the same, and leave parallel engines behind. -/
inductive Alike (base base' : Table) (past : List Constraint) :
    EStateM.Result Error Engine α → EStateM.Result Error Engine α → Prop where
  | ok {value : α} {engine engine' : Engine} : Engine.Parallel base base' past engine engine' →
      Alike base base' past (.ok value engine) (.ok value engine')
  | error {error : Error} {engine engine' : Engine} :
      Engine.Parallel base base' past engine engine' →
      Alike base base' past (.error error engine) (.error error engine')

/-- A step that ends alike on parallel engines. -/
def Blind (base base' : Table) (past : List Constraint) (work : Infer α) : Prop :=
  ∀ engine engine', Engine.Parallel base base' past engine engine' →
    Alike base base' past (work engine) (work engine')

theorem blind_pure (value : α) : Blind base base' past (pure value) :=
  fun _ _ parallel => .ok parallel

theorem blind_fail (error : Error) : Blind base base' past (fail error : Infer α) :=
  fun _ _ parallel => .error parallel

theorem blind_ofExcept {result : Engine → Except Error α}
    (same : ∀ engine engine', Engine.Parallel base base' past engine engine' →
      result engine' = result engine) : Blind base base' past (ofExcept result) := by
  intro engine engine' parallel
  unfold ofExcept
  rw [same engine engine' parallel]
  split
  · exact .ok parallel
  · exact .error parallel

theorem blind_update {step : Engine → Engine}
    (keeps : ∀ engine engine', Engine.Parallel base base' past engine engine' →
      Engine.Parallel base base' past (step engine) (step engine')) :
    Blind base base' past (update step) :=
  fun engine engine' parallel => .ok (keeps engine engine' parallel)

theorem Blind.bind {first : Infer α} {second : α → Infer β} (before : Blind base base' past first)
    (after : ∀ value, Blind base base' past (second value)) :
    Blind base base' past (first >>= second) := by
  intro engine engine' parallel
  have begins := before engine engine' parallel
  change Alike base base' past (EStateM.bind first second engine)
    (EStateM.bind first second engine')
  unfold EStateM.bind
  generalize first engine = ends at begins
  generalize first engine' = ends' at begins
  cases begins with
  | ok parallel => exact after _ _ _ parallel
  | error parallel => exact .error parallel

theorem blind_get_bind {next : Engine → Infer α}
    (same : ∀ engine engine', Engine.Parallel base base' past engine engine' →
      Alike base base' past (next engine engine) (next engine' engine')) :
    Blind base base' past (get >>= next) :=
  same

theorem blind_fresh (sizes : base.size = base'.size) : Blind base base' past fresh := by
  intro engine engine' parallel
  unfold fresh
  rw [parallel.next sizes]
  exact .ok parallel.grow

theorem blind_define (name : String) (symbol : Symbol) (position : Position) :
    Blind base base' past (define name symbol position) := by
  intro engine engine' parallel
  unfold define
  rw [parallel.scopes]
  split
  · exact .ok (parallel.within _)
  · exact .error parallel

theorem Blind.declaring {work : Infer α} (blind : Blind base base' past work) (name : String) :
    Blind base base' past (declaring name work) := by
  intro engine engine' parallel
  have same : (if engine'.scopes.isRoot then some name else engine'.declaring) =
      if engine.scopes.isRoot then some name else engine.declaring := by
    rw [parallel.scopes, parallel.declaring]
  unfold Infer.declaring
  dsimp only
  rw [same]
  generalize (if engine.scopes.isRoot then some name else engine.declaring) = declared
  have inside := blind _ _ (parallel.declares declared)
  generalize work { engine with declaring := declared } = ends at inside
  generalize work { engine' with declaring := declared } = ends' at inside
  cases inside with
  | ok parallel => exact .ok (parallel.declares none)
  | error parallel => exact .error (parallel.declares none)

theorem blind_forward (sizes : base.size = base'.size) (name : String) (position : Position) :
    Blind base base' past (forward name position) := by
  intro engine engine' parallel
  unfold forward
  rw [parallel.forward]
  split
  · exact .ok parallel
  · rw [parallel.next sizes]
    exact .ok (parallel.grow.awaiting _)

theorem blind_constrainAll (pairs : List (Term × Term)) :
    Blind base base' past (update (·.constrainAll pairs)) :=
  blind_update fun _ _ => Engine.Parallel.constrainAll pairs

end Infer

namespace Walk

/-- Two ends of a walk that say the same, and leave parallel engines behind. -/
inductive Alike (base base' : Table) (past : List Constraint) : Walked α → Walked α → Prop where
  | intro {part : α} {outcome : Except Error Term} {engine engine' : Engine} :
      Engine.Parallel base base' past engine engine' →
      Alike base base' past ⟨part, engine, outcome⟩ ⟨part, engine', outcome⟩

/-- A walk that ends alike on parallel engines. -/
def Blind (base base' : Table) (past : List Constraint) (walk : Walk α) : Prop :=
  ∀ engine engine', Engine.Parallel base base' past engine engine' →
    Alike base base' past (walk engine) (walk engine')

theorem blind_after {work : Infer γ} {part : α} {walk : γ → Walk α}
    (before : Infer.Blind base base' past work)
    (after : ∀ value, Blind base base' past (walk value)) :
    Blind base base' past (Walk.after work part walk) := by
  intro engine engine' parallel
  have begins := before engine engine' parallel
  unfold Walk.after
  generalize work engine = ends at begins
  generalize work engine' = ends' at begins
  cases begins with
  | ok parallel => exact after _ _ _ parallel
  | error parallel => exact .intro parallel

theorem blind_still {work : Infer Term} (part : α) (blind : Infer.Blind base base' past work) :
    Blind base base' past (still part work) :=
  blind_after blind fun _ _ _ parallel => .intro parallel

theorem Blind.map {walk : Walk α} (blind : Blind base base' past walk) (whole : α → β) :
    Blind base base' past (walk.map whole) := by
  intro engine engine' parallel
  have inside := blind engine engine' parallel
  unfold Walk.map
  generalize walk engine = ends at inside
  generalize walk engine' = ends' at inside
  cases inside with
  | intro parallel => exact .intro parallel

theorem Blind.within {walk : Walk α} (blind : Blind base base' past walk) (whole : α → β) :
    Blind base base' past (walk.within whole) := by
  intro engine engine' parallel
  have inside := blind engine engine' parallel
  unfold Walk.within
  generalize walk engine = ends at inside
  generalize walk engine' = ends' at inside
  cases inside with
  | intro parallel => exact .intro parallel

theorem Blind.both {first : Walk α} {second : Walk β} (before : Blind base base' past first)
    (part : β) (after : Blind base base' past second) :
    Blind base base' past (first.both part second) := by
  intro engine engine' parallel
  have begins := before engine engine' parallel
  unfold Walk.both
  generalize first engine = ends at begins
  generalize first engine' = ends' at begins
  cases begins with
  | @intro _ outcome between between' parallel =>
      cases outcome with
      | error error => exact .intro parallel
      | ok term =>
          have inside := after between between' parallel
          dsimp only
          generalize second between = ends at inside
          generalize second between' = ends' at inside
          cases inside with
          | intro parallel => exact .intro parallel

theorem Blind.inScope {walk : Walk α} (blind : Blind base base' past walk) :
    Blind base base' past walk.inScope := by
  intro engine engine' parallel
  have inside := blind engine.push engine'.push parallel.push
  unfold Walk.inScope
  generalize walk engine.push = ends at inside
  generalize walk engine'.push = ends' at inside
  cases inside with
  | intro parallel => exact .intro parallel.pop

end Walk

theorem FunctionHeader.blind_walk {header : FunctionHeader} {walk : Walk (List Stmt)}
    (body : List Stmt) (declares : Infer.Blind base base' past (Infer.function header))
    (takes : Infer.Blind base base' past (Infer.parameters header.parameters))
    (blind : Walk.Blind base base' past walk)
    (concludes : ∀ declared before terms,
      Infer.Blind base base' past (Infer.conclusion header declared before terms)) :
    Walk.Blind base base' past (header.walk body walk) := by
  refine Walk.blind_after declares fun (declared, before) inner inner' parallel => ?_
  have taken : Walk.Blind base base' past
      (Walk.after (Infer.parameters header.parameters) body fun _ => walk) :=
    Walk.blind_after takes fun _ => blind
  have inside := taken inner.enter inner'.enter parallel.enter
  dsimp only
  generalize Walk.after (Infer.parameters header.parameters) body (fun _ => walk) inner.enter = ends
    at inside
  generalize Walk.after (Infer.parameters header.parameters) body (fun _ => walk) inner'.enter =
    ends' at inside
  cases inside with
  | @intro part outcome last last' parallel =>
      cases outcome with
      | error error => exact Walk.blind_still _ (Infer.blind_fail error) _ _ parallel.leave
      | ok term =>
          dsimp only
          rw [parallel.returned]
          exact Walk.blind_after (concludes _ _ _)
            (fun _ => Walk.blind_still _ (Infer.blind_pure _)) _ _ parallel.leave

/-- No part of a walk looks into the table. -/
theorem Infer.closed_blind (sizes : base.size = base'.size) :
    Closed (fun _ => True) (fun _ => Infer.Blind base base' past)
      fun _ => Walk.Blind base base' past where
  pure := blind_pure
  fail _ := blind_fail _
  bind := Blind.bind
  look same next := blind_get_bind fun engine engine' parallel => by
    rw [same engine engine' parallel.resembles]
    exact next engine trivial engine engine' parallel
  ofScopes _ _ := blind_ofExcept fun _ _ parallel => by rw [parallel.scopes]
  fresh := blind_fresh sizes
  forward name position _ := blind_forward sizes name position
  constrainAll := blind_constrainAll
  define name symbol position _ := blind_define name symbol position
  settleForward name term := blind_update fun _ _ parallel => parallel.settleForward name term
  addReturn term := blind_update fun _ _ parallel => parallel.addReturn term
  anchor _ := blind_update fun _ _ parallel => parallel.anchored _
  declaring name blind := blind.declaring name
  after := Walk.blind_after
  still := Walk.blind_still
  map whole blind := blind.map whole
  within whole blind := blind.within whole
  both part before after := before.both part after
  inScope := Walk.Blind.inScope
  body := FunctionHeader.blind_walk

theorem Infer.Composed.blind {work : Infer α} (composed : work.Composed)
    (sizes : base.size = base'.size) : Infer.Blind base base' past work :=
  composed _ _ (closed_blind sizes)

theorem Walk.Composed.blind {walk : Walk α} (composed : walk.Composed)
    (sizes : base.size = base'.size) : Walk.Blind base base' past walk :=
  composed _ _ (Infer.closed_blind sizes)

end SmallLang
