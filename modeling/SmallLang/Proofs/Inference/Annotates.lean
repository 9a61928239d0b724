import SmallLang.Proofs.Inference.Session

/-!
# Inference annotates and nothing else

A walk writes notes into declarations, and leaves everything else in the tree as it is, also where
it fails on the way. Settling replaces notes by notes. So a program and what inference makes of it
are the same once their notes are taken away.
-/

set_option autoImplicit false

namespace SmallLang

namespace Walk

variable {α β γ : Type} {holds : α → Prop} {holds' : β → Prop}

/-- Whatever comes of a walk, something holds of the part that it leaves behind. -/
def Leaves (walk : Walk α) (holds : α → Prop) : Prop := ∀ engine, holds (walk engine).part

theorem leaves_after {work : Infer γ} {part : α} {walk : γ → Walk α} (before : holds part)
    (after : ∀ value, (walk value).Leaves holds) : (Walk.after work part walk).Leaves holds := by
  intro engine
  unfold Walk.after
  cases work engine with
  | ok value between => exact after value between
  | error error between => exact before

theorem leaves_still {work : Infer Term} {part : α} (here : holds part) :
    (still part work).Leaves holds :=
  leaves_after here fun _ _ => here

theorem Leaves.map {walk : Walk α} {whole : α → β} (leaves : walk.Leaves holds)
    (imp : ∀ part, holds part → holds' (whole part)) : (walk.map whole).Leaves holds' :=
  fun engine => imp _ (leaves engine)

theorem Leaves.within {walk : Walk α} {whole : α → β} (leaves : walk.Leaves holds)
    (imp : ∀ part, holds part → holds' (whole part)) : (walk.within whole).Leaves holds' :=
  fun engine => imp _ (leaves engine)

theorem Leaves.both {first : Walk α} {part : β} {second : Walk β} (leaves : first.Leaves holds)
    (leaves' : second.Leaves holds') (before : holds' part) :
    (first.both part second).Leaves fun parts => holds parts.1 ∧ holds' parts.2 := by
  intro engine
  unfold Walk.both
  cases outcome : (first engine).outcome with
  | ok term =>
      simp only [outcome]
      exact ⟨leaves engine, leaves' _⟩
  | error error =>
      simp only [outcome]
      exact ⟨leaves engine, before⟩

theorem Leaves.inScope {walk : Walk α} (leaves : walk.Leaves holds) : walk.inScope.Leaves holds :=
  fun engine => leaves engine.push

end Walk

open Walk

/-- A walk over a variable writes its note. -/
theorem Variable.bare_walk (decl : Variable) :
    decl.walk.Leaves fun decl' => (Stmt.declare decl').bare = (Stmt.declare decl).bare :=
  leaves_after rfl fun _ => leaves_still rfl

theorem FunctionHeader.bare_walkAlone (header : FunctionHeader) :
    header.walkAlone.Leaves fun header' =>
      (Stmt.function header' none).bare = (Stmt.function header none).bare :=
  leaves_after rfl fun _ => leaves_still rfl

/-- A walk over a function writes its note, after those in its body. -/
theorem FunctionHeader.bare_walk (header : FunctionHeader) (body : List Stmt)
    {walk : Walk (List Stmt)}
    (leaves : walk.Leaves fun body' => Stmt.allBare body' = Stmt.allBare body) :
    (header.walk body walk).Leaves fun parts =>
      (Stmt.function parts.1 (some parts.2)).bare = (Stmt.function header (some body)).bare := by
  refine leaves_after rfl fun (declared, before) inner => ?_
  have walked : (Walk.after (Infer.parameters header.parameters) body (fun _ => walk)).Leaves
      fun body' => Stmt.allBare body' = Stmt.allBare body := leaves_after rfl fun _ => leaves
  have inside := walked inner.enter
  dsimp only
  generalize Walk.after (Infer.parameters header.parameters) body (fun _ => walk) inner.enter =
    ended at inside
  have noted : ∀ note : Option Term,
      (Stmt.function { header with resolved := note } (some ended.part)).bare =
        (Stmt.function header (some body)).bare := by
    intro note
    simp only [Stmt.bare, inside]
  cases ended.outcome with
  | error error => exact noted header.resolved
  | ok term =>
      have finished : (Walk.after
          (Infer.conclusion header declared before ended.engine.returned) (header, ended.part)
          fun term => still ({ header with resolved := some term }, ended.part)
            (return .concrete .void)).Leaves fun parts =>
          (Stmt.function parts.1 (some parts.2)).bare = (Stmt.function header (some body)).bare :=
        leaves_after (noted header.resolved) fun term => leaves_still (noted (some term))
      exact finished ended.engine.leave

mutual

/-- Whatever comes of a walk over a statement, the statement is the same but for its notes. -/
theorem Stmt.bare_walk : ∀ s : Stmt, s.walk.Leaves fun s' => s'.bare = s.bare
  | .expr _ | .comment _ | .use _ | .parameter _ | .returns _ => leaves_still rfl
  | .declare decl => decl.bare_walk.map fun _ same => same
  | .function header none => by
      rw [Stmt.walk]
      exact header.bare_walkAlone.within fun _ same => same
  | .function header (some body) => by
      rw [Stmt.walk]
      exact (header.bare_walk body (Stmt.bare_walkAll body)).within fun _ same => same
  | .branch _ body alternate => by
      refine leaves_after rfl fun _ => ?_
      have parts := (Stmt.bare_walkAll body).inScope.both (Alternate.bare_walk alternate) rfl
      refine parts.within ?_
      rintro _ ⟨same, same'⟩
      simp only [Stmt.bare, same, same']
  | .loop _ body =>
      leaves_after rfl fun _ =>
        (Stmt.bare_walkAll body).inScope.within fun _ same => by simp only [Stmt.bare, same]
  | .switch _ arms =>
      leaves_after rfl fun term =>
        (Arm.bare_walkAll (some term) arms).within fun _ same => by simp only [Stmt.bare, same]
  | .arm single =>
      (Arm.bare_walk none single).within fun _ same => by simp only [Stmt.bare, same]
  | .merged body => (Stmt.bare_walkAll body).within fun _ same => by simp only [Stmt.bare, same]

theorem Alternate.bare_walk : ∀ alternate : Alternate,
    alternate.walk.Leaves fun alternate' => alternate'.bare = alternate.bare
  | .none => leaves_still rfl
  | .elseBranch _ body alternate => by
      refine leaves_after rfl fun _ => ?_
      have parts := (Stmt.bare_walkAll body).inScope.both (Alternate.bare_walk alternate) rfl
      refine parts.within ?_
      rintro _ ⟨same, same'⟩
      simp only [Alternate.bare, same, same']
  | .otherwise body =>
      (Stmt.bare_walkAll body).inScope.within fun _ same => by simp only [Alternate.bare, same]

theorem Arm.bare_walk (subject : Option Term) : ∀ arm : Arm,
    (arm.walk subject).Leaves fun arm' => arm'.bare = arm.bare
  | .value _ body =>
      leaves_after rfl fun _ =>
        (Stmt.bare_walkAll body).inScope.within fun _ same => by simp only [Arm.bare, same]
  | .otherwise body =>
      (Stmt.bare_walkAll body).inScope.within fun _ same => by simp only [Arm.bare, same]

theorem Stmt.bare_walkAll : ∀ body : List Stmt,
    (Stmt.walkAll body).Leaves fun body' => Stmt.allBare body' = Stmt.allBare body
  | [] => leaves_still rfl
  | first :: rest => by
      refine ((Stmt.bare_walk first).both (Stmt.bare_walkAll rest) rfl).within ?_
      rintro _ ⟨same, same'⟩
      simp only [Stmt.allBare, same, same']

theorem Arm.bare_walkAll (subject : Option Term) : ∀ arms : List Arm,
    (Arm.walkAll subject arms).Leaves fun arms' => Arm.allBare arms' = Arm.allBare arms
  | [] => leaves_still rfl
  | first :: rest =>
      ((Arm.bare_walk subject first).both (Arm.bare_walkAll subject rest) rfl).within
        fun _ ⟨same, same'⟩ => by simp only [Arm.allBare, same, same']

end

namespace Infer

/-- Whatever an engine has seen before, what it makes of a program is the program with other notes
in its declarations. -/
theorem bare_run {program typed : Program} {engine last : Engine} {order : ForwardOrder}
    (runs : run order program engine = .ok typed last) :
    Stmt.allBare typed = Stmt.allBare program := by
  obtain ⟨part, walked, ⟨term, ends⟩, _, _, settled⟩ := yields_run.mp runs
  have annotated : Stmt.allBare part = Stmt.allBare program := by
    have leaves := Stmt.bare_walkAll program (engine.learn program)
    rwa [ends] at leaves
  calc Stmt.allBare typed
      = Stmt.allBare part := settled.allBare_eq.symm
    _ = Stmt.allBare program := annotated

namespace Renewed

/-- A variable that is declared twice. -/
def earlier : Program :=
  [.declare ⟨"a", true, none, some (.number "1"), ⟨"one", 0⟩, none⟩,
   .declare ⟨"a", true, none, some (.boolean true), ⟨"one", 11⟩, none⟩]

/-- A function that uses the variable and a function behind it, with some notes. -/
def later (note : Option Term) : Program :=
  [.function ⟨"f", [⟨"n", ⟨"int", ⟨"two", 8⟩⟩⟩], none, [], ⟨"two", 0⟩, note⟩ (some
    [.declare ⟨"m", true, none, some (.binary .add (.call (.identifier "g" ⟨"two", 24⟩)
      [.identifier "n" ⟨"two", 26⟩]) (.identifier "a" ⟨"two", 31⟩)), ⟨"two", 15⟩, note⟩,
     .returns (some (.identifier "m" ⟨"two", 40⟩))]),
   .function ⟨"g", [⟨"n", ⟨"int", ⟨"two", 52⟩⟩⟩], some ⟨"int", ⟨"two", 60⟩⟩, [], ⟨"two", 44⟩, note⟩
    (some [.returns (some (.identifier "n" ⟨"two", 73⟩))])]

/-- The engine on which the first program has failed. -/
def engine : Engine := (run .byUse earlier).last .start

end Renewed

open Renewed in
/-- A program after another one that has failed. -/
theorem bare_run_renewed :
    run .byUse earlier .start = .error ⟨.alreadyDeclared "a", ⟨"one", 11⟩⟩ engine ∧
      ∃ last, run .byUse (later none) engine = .ok (later (some (.concrete .int))) last ∧
        Stmt.allBare (later (some (.concrete .int))) = Stmt.allBare (later none) := by
  have fails : run .byUse earlier .start = .error ⟨.alreadyDeclared "a", ⟨"one", 11⟩⟩ engine := by
    rfl
  have runs : BoundName.typed? (later none) engine = some (later (some (.concrete .int))) := by
    decide +kernel
  have runs' := BoundName.run_of_typed? runs
  exact ⟨fails, _, runs', bare_run runs'⟩

end Infer

end SmallLang
