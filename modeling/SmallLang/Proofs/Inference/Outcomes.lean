import SmallLang.Inference

/-!
# Both ends of a step

A step of inference ends with a value or with an error, and leaves an engine behind in both
cases. What is to hold at either end of a step follows from what holds at the ends of the steps
that it is made of. Likewise for walks.
-/

set_option autoImplicit false

namespace SmallLang

variable {α β γ : Type}

/-- Something holds at the end of a step: of the value and the engine where it succeeds, of the
error and the engine where it fails. -/
def Infer.Meets (work : Infer α) (engine : Engine) (done : α → Engine → Prop)
    (stopped : Error → Engine → Prop) : Prop :=
  match work engine with
  | .ok value engine' => done value engine'
  | .error error engine' => stopped error engine'

namespace Infer

variable {engine : Engine} {done done' : α → Engine → Prop}
  {stopped stopped' : Error → Engine → Prop}

/-- The engine that a step leaves behind. -/
def last (work : Infer α) (engine : Engine) : Engine :=
  match work engine with
  | .ok _ engine' => engine'
  | .error _ engine' => engine'

theorem meets_last_iff {work : Infer α} {holds : Engine → Prop} :
    Meets work engine (fun _ => holds) (fun _ => holds) ↔ holds (work.last engine) := by
  unfold Meets last
  cases work engine with
  | ok value engine' => exact Iff.rfl
  | error error engine' => exact Iff.rfl

theorem meets_update {step : Engine → Engine} {done : Unit → Engine → Prop}
    (holds : done () (step engine)) : Meets (update step) engine done stopped :=
  holds

theorem meets_get_bind {next : Engine → Infer α} (meets : Meets (next engine) engine done stopped) :
    Meets (get >>= next) engine done stopped :=
  meets

theorem meets_ofExcept {result : Engine → Except Error α}
    (ok : ∀ value, result engine = .ok value → done value engine)
    (error : ∀ error, result engine = .error error → stopped error engine) :
    Meets (ofExcept result) engine done stopped := by
  unfold Meets ofExcept
  cases ends : result engine with
  | ok value => exact ok value ends
  | error found => exact error found ends

theorem Meets.bind {first : Infer α} {second : α → Infer β} {done : β → Engine → Prop}
    (meets : Meets first engine (fun value between => Meets (second value) between done stopped)
      stopped) : Meets (first >>= second) engine done stopped := by
  change (match EStateM.bind first second engine with
    | .ok value engine' => done value engine'
    | .error error engine' => stopped error engine')
  unfold EStateM.bind
  unfold Meets at meets
  cases ends : first engine with
  | ok value between =>
      rw [ends] at meets
      exact meets
  | error error between =>
      rw [ends] at meets
      exact meets

theorem Meets.imp {work : Infer α} (meets : Meets work engine done stopped)
    (ok : ∀ value engine', done value engine' → done' value engine')
    (error : ∀ error engine', stopped error engine' → stopped' error engine') :
    Meets work engine done' stopped' := by
  unfold Meets at *
  cases ends : work engine with
  | ok value engine' =>
      rw [ends] at meets
      exact ok value engine' meets
  | error found engine' =>
      rw [ends] at meets
      exact error found engine' meets

theorem Meets.and {work : Infer α} (meets : Meets work engine done stopped)
    (meets' : Meets work engine done' stopped') :
    Meets work engine (fun value engine' => done value engine' ∧ done' value engine')
      fun error engine' => stopped error engine' ∧ stopped' error engine' := by
  unfold Meets at *
  cases ends : work engine with
  | ok value engine' =>
      rw [ends] at meets meets'
      exact ⟨meets, meets'⟩
  | error found engine' =>
      rw [ends] at meets meets'
      exact ⟨meets, meets'⟩

theorem meets_define {name : String} {symbol : Symbol} {position : Position}
    {done : Unit → Engine → Prop}
    (ok : ∀ scopes, engine.scopes.define name symbol position = .ok scopes →
      done () { engine with scopes })
    (error : ∀ error, engine.scopes.define name symbol position = .error error →
      stopped error engine) : Meets (define name symbol position) engine done stopped := by
  unfold Meets define
  cases ends : engine.scopes.define name symbol position with
  | ok scopes => exact ok scopes ends
  | error found => exact error found ends

theorem meets_declaring {name : String} {work : Infer α}
    (meets : Meets work
      { engine with declaring := if engine.scopes.isRoot then some name else engine.declaring }
      (fun value engine' => done value { engine' with declaring := none })
      (fun error engine' => stopped error { engine' with declaring := none })) :
    Meets (declaring name work) engine done stopped := by
  unfold Meets declaring
  dsimp only
  unfold Meets at meets
  cases ends : work { engine with
      declaring := if engine.scopes.isRoot then some name else engine.declaring } with
  | ok value engine' =>
      rw [ends] at meets
      exact meets
  | error error engine' =>
      rw [ends] at meets
      exact meets

end Infer

/-- Something holds at the end of a walk: of the engine where it succeeds, of the error and the
engine where it fails. -/
def Walk.Meets (walk : Walk α) (engine : Engine) (done : Engine → Prop)
    (stopped : Error → Engine → Prop) : Prop :=
  match (walk engine).outcome with
  | .ok _ => done (walk engine).engine
  | .error error => stopped error (walk engine).engine

namespace Walk

variable {engine : Engine} {done done' : Engine → Prop} {stopped stopped' : Error → Engine → Prop}

theorem meets_last_iff {walk : Walk α} {holds : Engine → Prop} :
    Meets walk engine holds (fun _ => holds) ↔ holds (walk engine).engine := by
  unfold Meets
  cases (walk engine).outcome with
  | ok value => exact Iff.rfl
  | error error => exact Iff.rfl

theorem meets_after {work : Infer γ} {part : α} {walk : γ → Walk α}
    (meets : Infer.Meets work engine (fun value between => Meets (walk value) between done stopped)
      stopped) : Meets (after work part walk) engine done stopped := by
  unfold Infer.Meets at meets
  unfold Meets after
  cases ends : work engine with
  | ok value between =>
      rw [ends] at meets
      exact meets
  | error error between =>
      rw [ends] at meets
      exact meets

theorem meets_still {work : Infer Term} {part : α}
    (meets : Infer.Meets work engine (fun _ => done) stopped) :
    Meets (still part work) engine done stopped :=
  meets_after (meets.imp (fun _ _ holds => holds) fun _ _ holds => holds)

theorem Meets.within {walk : Walk α} {whole : α → β} (meets : Meets walk engine done stopped) :
    Meets (within walk whole) engine done stopped := by
  unfold Meets at meets
  unfold Meets Walk.within void
  cases ends : (walk engine).outcome with
  | ok value =>
      rw [ends] at meets
      simp only [ends, Except.map]
      exact meets
  | error error =>
      rw [ends] at meets
      simp only [ends, Except.map]
      exact meets

theorem Meets.both {first : Walk α} {part : β} {second : Walk β}
    (meets : Meets first engine (fun between => Meets second between done stopped) stopped) :
    Meets (both first part second) engine done stopped := by
  unfold Meets at meets
  unfold Meets Walk.both
  cases ends : (first engine).outcome with
  | ok value =>
      rw [ends] at meets
      simp only [ends]
      exact meets
  | error error =>
      rw [ends] at meets
      simp only [ends]
      exact meets

theorem Meets.inScope {walk : Walk α}
    (meets : Meets walk engine.push (fun last => done last.pop)
      (fun error last => stopped error last.pop)) : Meets (inScope walk) engine done stopped :=
  meets

theorem Meets.imp {walk : Walk α} (meets : Meets walk engine done stopped)
    (ok : ∀ engine', done engine' → done' engine')
    (error : ∀ error engine', stopped error engine' → stopped' error engine') :
    Meets walk engine done' stopped' := by
  unfold Meets at *
  cases ends : (walk engine).outcome with
  | ok value =>
      rw [ends] at meets
      exact ok _ meets
  | error found =>
      rw [ends] at meets
      exact error found _ meets

theorem Meets.and {walk : Walk α} (meets : Meets walk engine done stopped)
    (meets' : Meets walk engine done' stopped') :
    Meets walk engine (fun engine' => done engine' ∧ done' engine')
      fun error engine' => stopped error engine' ∧ stopped' error engine' := by
  unfold Meets at *
  cases ends : (walk engine).outcome with
  | ok value =>
      rw [ends] at meets meets'
      exact ⟨meets, meets'⟩
  | error found =>
      rw [ends] at meets meets'
      exact ⟨meets, meets'⟩

end Walk

theorem Infer.meets_walk {program : Program} {engine : Engine} {done : Engine → Prop}
    {stopped : Error → Engine → Prop}
    (meets : (Stmt.walkAll program).Meets engine done stopped) :
    (Infer.walk program).Meets engine (fun _ => done) stopped := by
  unfold Walk.Meets at meets
  unfold Infer.Meets Infer.walk
  dsimp only
  cases ends : (Stmt.walkAll program engine).outcome with
  | ok term =>
      rw [ends] at meets
      exact meets
  | error error =>
      rw [ends] at meets
      exact meets

/-- The body of a function is walked inside of it, and left also where it fails. -/
theorem FunctionHeader.meets_walk {header : FunctionHeader} {body : List Stmt}
    {walk : Walk (List Stmt)} {engine : Engine} {done : Engine → Prop}
    {stopped : Error → Engine → Prop}
    (meets : (Infer.function header).Meets engine (fun found inner =>
      (Infer.parameters header.parameters).Meets inner.enter (fun _ start =>
        walk.Meets start (fun last =>
          (Infer.conclusion header found.1 found.2 last.returned).Meets last.leave (fun _ => done)
            stopped)
          fun error last => stopped error last.leave)
        fun error last => stopped error last.leave)
      stopped) : (header.walk body walk).Meets engine done stopped := by
  refine Walk.meets_after (meets.imp (fun found inner inside => ?_) fun _ _ holds => holds)
  have walked : (Walk.after (Infer.parameters header.parameters) body fun _ => walk).Meets
      inner.enter (fun last =>
        (Infer.conclusion header found.1 found.2 last.returned).Meets last.leave (fun _ => done)
          stopped)
      fun error last => stopped error last.leave := Walk.meets_after inside
  unfold Walk.Meets at walked
  dsimp only
  cases ends : (Walk.after (Infer.parameters header.parameters) body (fun _ => walk)
      inner.enter).outcome with
  | ok value =>
      rw [ends] at walked
      unfold Walk.Meets
      simp only [ends]
      exact Walk.meets_after (walked.imp (fun _ _ holds => holds) fun _ _ holds => holds)
  | error error =>
      rw [ends] at walked
      unfold Walk.Meets
      simp only [ends]
      exact walked

end SmallLang
