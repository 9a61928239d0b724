import SmallLang.Proofs.Inference.Closed
import SmallLang.Proofs.Inference.Program
import SmallLang.Proofs.Scope.Resolved

/-!
# Positions that inference blames

An error of inference stands where something in the program does. An expression without a position
of its own is blamed on the declaration before it, which the engine keeps in mind.
-/

set_option autoImplicit false

namespace SmallLang

variable {α β γ : Type} {place : Position → Prop}

/-! ### Engines -/

/-- What an engine may blame stands at places: the latest declaration, and the names that wait for
theirs. -/
structure Engine.Placed (place : Position → Prop) (engine : Engine) : Prop where
  anchor : place engine.anchor
  forward : ∀ reference ∈ engine.forward, place reference.position

namespace Engine

variable {engine engine' : Engine}

theorem Placed.congr (placed : engine.Placed place) (anchor : engine'.anchor = engine.anchor)
    (forward : engine'.forward = engine.forward) : engine'.Placed place :=
  ⟨anchor ▸ placed.anchor, forward ▸ placed.forward⟩

theorem Placed.constrain (placed : engine.Placed place) (left right : Term) :
    (engine.constrain left right).Placed place := by
  unfold Engine.constrain
  split
  · exact placed.congr rfl rfl
  · exact placed

theorem Placed.constrainAll : ∀ (pairs : List (Term × Term)) {engine : Engine},
    engine.Placed place → (engine.constrainAll pairs).Placed place
  | [], _, placed => placed
  | _ :: rest, _, placed => Placed.constrainAll rest (placed.constrain _ _)

theorem Placed.addReturn (placed : engine.Placed place) (term : Term) :
    (engine.addReturn term).Placed place := by
  unfold Engine.addReturn
  split
  · exact placed
  · exact placed.congr rfl rfl

theorem Placed.settleForward (placed : engine.Placed place) (name : String) (term : Term) :
    (engine.settleForward name term).Placed place := by
  unfold Engine.settleForward
  split
  · split
    · exact placed
    · have kept : Engine.Placed place
          { engine with forward := engine.forward.filter (·.name != name) } :=
        ⟨placed.anchor, fun reference present =>
          placed.forward reference (List.mem_of_mem_filter present)⟩
      exact kept.constrain _ _
  · exact placed

theorem placed_start (null : place .null) : Engine.start.Placed place := ⟨null, nofun⟩

end Engine

/-! ### Steps -/

/-- A step blames places only, and remembers no others. -/
def Infer.Places (place : Position → Prop) (work : Infer α) : Prop :=
  ∀ engine, Engine.Placed place engine →
    work.Meets engine (fun _ => Engine.Placed place) fun error _ => place error.position

namespace Infer

theorem places_pure (value : α) : Places place (pure value : Infer α) := fun _ placed => placed

theorem places_fail {error : Error} (stands : place error.position) :
    Places place (fail error : Infer α) :=
  fun _ _ => stands

theorem places_update {step : Engine → Engine}
    (keeps : ∀ engine, engine.Placed place → (step engine).Placed place) :
    Places place (update step) :=
  fun engine placed => keeps engine placed

theorem places_ofExcept {result : Engine → Except Error α}
    (blames : ∀ engine, Blames place (result engine)) : Places place (ofExcept result) :=
  fun engine placed => meets_ofExcept (fun _ _ => placed) (blames engine)

theorem places_get_bind {next : Engine → Infer α}
    (goesOn : ∀ engine, engine.Placed place → Places place (next engine)) :
    Places place (get >>= next) :=
  fun engine placed => meets_get_bind (goesOn engine placed engine placed)

theorem Places.bind {first : Infer α} {second : α → Infer β} (before : Places place first)
    (after : ∀ value, Places place (second value)) : Places place (first >>= second) :=
  fun engine placed => Meets.bind ((before engine placed).imp
    (fun value between placed => after value between placed) fun _ _ stands => stands)

theorem places_fresh : Places place fresh := fun _ placed => placed.congr rfl rfl

theorem places_define {name : String} {symbol : Symbol} {position : Position}
    (stands : place position) : Places place (define name symbol position) :=
  fun _ placed => meets_define (fun _ _ => placed.congr rfl rfl)
    (Scopes.blames_define _ _ _ stands)

theorem places_declaring (name : String) {work : Infer α} (places : Places place work) :
    Places place (declaring name work) :=
  fun engine placed => meets_declaring
    ((places { engine with
        declaring := if engine.scopes.isRoot then some name else engine.declaring }
      (placed.congr rfl rfl)).imp (fun _ _ placed => placed.congr rfl rfl) fun _ _ stands => stands)

theorem places_forward (name : String) {position : Position} (stands : place position) :
    Places place (forward name position) := by
  intro engine placed
  unfold Infer.Meets forward
  cases engine.forward.find? (·.name == name) with
  | some reference => exact placed
  | none =>
      refine ⟨placed.anchor, fun reference present => ?_⟩
      rcases List.mem_append.mp present with present | present
      · exact placed.forward reference present
      · rw [List.mem_singleton.mp present]
        exact stands

theorem places_anchor {position : Position} (stands : place position) :
    Places place (update ({ · with anchor := position })) :=
  places_update fun _ placed => ⟨stands, placed.forward⟩

end Infer

/-! ### Walks -/

/-- A walk blames places only, and remembers no others. -/
def Walk.Places (place : Position → Prop) (walk : Walk α) : Prop :=
  ∀ engine, Engine.Placed place engine →
    walk.Meets engine (Engine.Placed place) fun error _ => place error.position

namespace Walk

theorem places_after {work : Infer γ} {part : α} {walk : γ → Walk α} (before : work.Places place)
    (goesOn : ∀ value, (walk value).Places place) : (after work part walk).Places place :=
  fun engine placed => meets_after ((before engine placed).imp
    (fun value between placed => goesOn value between placed) fun _ _ stands => stands)

theorem places_still (part : α) {work : Infer Term} (places : work.Places place) :
    (still part work).Places place :=
  fun engine placed => meets_still (places engine placed)

theorem Places.within {walk : Walk α} (places : walk.Places place) (whole : α → β) :
    (walk.within whole).Places place :=
  fun engine placed => Meets.within (places engine placed)

theorem Places.both {first : Walk α} {second : Walk β} (before : first.Places place) (part : β)
    (after : second.Places place) : (first.both part second).Places place :=
  fun engine placed => Meets.both ((before engine placed).imp
    (fun between placed => after between placed) fun _ _ stands => stands)

theorem Places.inScope {walk : Walk α} (places : walk.Places place) :
    walk.inScope.Places place :=
  fun engine placed => Meets.inScope ((places engine.push (placed.congr rfl rfl)).imp
    (fun _ placed => placed.congr rfl rfl) fun _ _ stands => stands)

end Walk

theorem FunctionHeader.places_walk {header : FunctionHeader} {walk : Walk (List Stmt)}
    (body : List Stmt) (declares : Infer.Places place (Infer.function header))
    (takes : Infer.Places place (Infer.parameters header.parameters))
    (places : walk.Places place)
    (concludes : ∀ declared before terms,
      Infer.Places place (Infer.conclusion header declared before terms)) :
    (header.walk body walk).Places place := by
  intro engine remembers
  refine header.meets_walk ((declares engine remembers).imp
    (fun found inner remembers => ?_) fun _ _ stands => stands)
  refine (takes inner.enter (remembers.congr rfl rfl)).imp
    (fun _ start remembers => ?_) fun _ _ stands => stands
  refine (places start remembers).imp (fun last remembers => ?_) fun _ _ stands => stands
  exact concludes found.1 found.2 last.returned last.leave (remembers.congr rfl rfl)

/-- Over a part of a program, inference blames what stands in it, or what stands before it. -/
theorem Infer.closed_places :
    Closed place (fun _ => Infer.Places place) fun _ => Walk.Places place where
  pure := places_pure
  fail := places_fail
  bind := Places.bind
  look _ goesOn := places_get_bind fun engine remembers => goesOn engine remembers.anchor
  ofScopes _ blames := places_ofExcept fun engine => blames engine.scopes
  fresh := places_fresh
  forward := places_forward
  constrainAll pairs := places_update fun _ placed => placed.constrainAll pairs
  define _ _ := places_define
  settleForward name term := places_update fun _ placed => placed.settleForward name term
  addReturn term := places_update fun _ placed => placed.addReturn term
  anchor := places_anchor
  declaring name places := places_declaring name places
  after := Walk.places_after
  still part places := Walk.places_still part places
  map _ places := fun engine placed => places engine placed
  within whole places := places.within whole
  both part before after := before.both part after
  inScope := Walk.Places.inScope
  body := FunctionHeader.places_walk

/-! ### Settling -/

theorem Table.blames_settle? (table : Table) (term : Option Term) (name : String)
    {position : Position} (stands : place position) :
    Blames place (table.settle? term name position) := by
  unfold settle?
  cases term with
  | none => exact blames_ok _
  | some term =>
      refine Blames.bind ?_ fun _ => blames_ok _
      unfold settle
      split
      · exact blames_ok _
      · exact blames_error stands

section Settling

variable (table : Table)

mutual

theorem Stmt.blames_settle : ∀ {s : Stmt}, s.Placed place → Blames place (s.settle table)
  | .expr _, _ | .comment _, _ | .use _, _ | .parameter _, _ | .returns _, _ => blames_ok _
  | .declare _, placed =>
      (table.blames_settle? _ _ placed.position).bind fun _ => blames_ok _
  | .function _ none, placed =>
      (table.blames_settle? _ _ placed.position).bind fun _ => blames_ok _
  | .function _ (some _), placed =>
      (table.blames_settle? _ _ placed.1.position).bind fun _ =>
        (Stmt.blames_settleAll placed.2).bind fun _ => blames_ok _
  | .branch .., placed => (Stmt.blames_settleAll placed.2.1).bind fun _ =>
      (Alternate.blames_settle placed.2.2).bind fun _ => blames_ok _
  | .loop .., placed => (Stmt.blames_settleAll placed.2).bind fun _ => blames_ok _
  | .switch .., placed => (Arm.blames_settleAll placed.2).bind fun _ => blames_ok _
  | .arm _, placed => (Arm.blames_settle placed).bind fun _ => blames_ok _
  | .merged _, placed => (Stmt.blames_settleAll placed).bind fun _ => blames_ok _

theorem Alternate.blames_settle : ∀ {alternate : Alternate}, alternate.Placed place →
    Blames place (alternate.settle table)
  | .none, _ => blames_ok _
  | .elseBranch .., placed => (Stmt.blames_settleAll placed.2.1).bind fun _ =>
      (Alternate.blames_settle placed.2.2).bind fun _ => blames_ok _
  | .otherwise _, placed => (Stmt.blames_settleAll placed).bind fun _ => blames_ok _

theorem Arm.blames_settle : ∀ {arm : Arm}, arm.Placed place → Blames place (arm.settle table)
  | .value .., placed => (Stmt.blames_settleAll placed.2).bind fun _ => blames_ok _
  | .otherwise _, placed => (Stmt.blames_settleAll placed).bind fun _ => blames_ok _

/-- Settling blames declarations only. -/
theorem Stmt.blames_settleAll : ∀ {body : List Stmt}, Stmt.AllPlaced place body →
    Blames place (Stmt.settleAll table body)
  | [], _ => blames_ok _
  | _ :: _, placed => (Stmt.blames_settle placed.1).bind fun _ =>
      (Stmt.blames_settleAll placed.2).bind fun _ => blames_ok _

theorem Arm.blames_settleAll : ∀ {arms : List Arm}, Arm.AllPlaced place arms →
    Blames place (Arm.settleAll table arms)
  | [], _ => blames_ok _
  | _ :: _, placed => (Arm.blames_settle placed.1).bind fun _ =>
      (Arm.blames_settleAll placed.2).bind fun _ => blames_ok _

end

end Settling

/-! ### Programs -/

namespace Infer

theorem places_requireSettled (order : ForwardOrder) : Places place (requireSettled order) := by
  refine places_get_bind ?_
  intro engine remembers
  split
  · exact places_pure _
  · next first =>
      obtain ⟨waits, _⟩ := Engine.firstForward?_spec first
      exact places_fail (remembers.forward _ waits)

/-- What is known of a value also says that the step yields it. -/
theorem Meets.yields {work : Infer α} {engine : Engine} {done : α → Engine → Prop}
    {stopped : Error → Engine → Prop} (meets : work.Meets engine done stopped) :
    work.Meets engine (fun value engine' => Yields work engine value engine' ∧ done value engine')
      stopped := by
  unfold Meets at *
  cases ends : work engine with
  | ok value engine' =>
      rw [ends] at meets
      exact ⟨ends, meets⟩
  | error error engine' =>
      rw [ends] at meets
      exact meets

/-- The program that a walk leaves is the program with other notes, and stands where it stands. -/
theorem allPlaced_of_yields_walk {program part : Program} {engine last : Engine}
    (placed : Stmt.AllPlaced place program) (yields : Yields (walk program) engine part last)
    (sane : engine.scopes.Sane) : Stmt.AllPlaced place part :=
  (Stmt.passes_walkAll program (yields_walk.mp yields) sane).alike.placed placed

/-- A run blames places only. -/
theorem places_run {program : Program} (order : ForwardOrder)
    (placed : Stmt.AllPlaced place program) (null : place .null) :
    (run order program).Meets .start (fun _ _ => True) fun error _ => place error.position := by
  have start : (Engine.start.learn program).Placed place :=
    (Engine.placed_start null).congr rfl rfl
  have walks := meets_walk (closed_places.walkAll placed (Engine.start.learn program) start)
  refine Meets.bind (meets_update (Meets.bind ?_))
  refine walks.yields.imp (fun part last ⟨yields, remembers⟩ => ?_) fun _ _ stands => stands
  have part := allPlaced_of_yields_walk placed yields Scopes.sane_start
  refine Meets.bind ((places_requireSettled order last remembers).imp (fun _ settled _ => ?_)
    fun _ _ stands => stands)
  exact Meets.bind (meets_update (meets_ofExcept (fun _ _ => trivial)
    (Stmt.blames_settleAll _ part)))

end Infer

open Infer

namespace Program

variable {program typed : Program} {error : Error} {order : ForwardOrder}

/-- Inference blames something in the program, or nothing. -/
theorem place_of_infer (placed : Stmt.AllPlaced place program) (null : place .null)
    (fails : program.infer order = .error error) : place error.position := by
  have met := places_run order placed null
  unfold Program.infer at fails
  unfold Infer.Meets at met
  cases ends : run order program .start with
  | ok typed last =>
      rw [ends] at fails
      cases fails
  | error found last =>
      rw [ends] at fails met
      cases fails
      exact met

/-- Inference moves nothing. -/
theorem allPlaced_of_infer (placed : Stmt.AllPlaced place program)
    (inferred : program.infer order = .ok typed) : Stmt.AllPlaced place typed := by
  obtain ⟨part, last, ends, _, settled⟩ := infer_eq_ok_iff.mp inferred
  exact settled.placed ((Stmt.passes_walkAll program ends Scopes.sane_start).alike.placed placed)

end Program

end SmallLang
