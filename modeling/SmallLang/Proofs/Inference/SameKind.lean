import SmallLang.Proofs.Module.Loaded
import SmallLang.Proofs.Order.Kinds
import SmallLang.Proofs.Scope.Inferred
import SmallLang.Proofs.Inference.Sure

/-!
# Types of the same kind

A program that has its types and passes its check is inferred again without placeholders. What
the new run finds is of the same kind as what was known, since a program stays well typed when
the integers that its variables hold change their widths.
-/

set_option autoImplicit false

namespace SmallLang

open Infer Walk

/-- A walk keeps a part if it succeeds with one that is alike, and reads the same environment and
the same returned types afterwards, up to the widths of integers. -/
def Walk.Keeps {α : Type} (walk : Walk α) (engine : Engine) (alike : α → Prop) (Γ' : Env Binding)
    (returned : List Ty) : Prop :=
  ∃ part engine' Δ, ∃ returned' : List Ty, walk.Ends engine part engine' ∧ alike part ∧
    engine'.Reads Δ ∧ Γ'.SameKind Δ ∧ engine.Grows engine' (returned'.map .concrete) ∧
    returned.map Ty.kind = returned'.map Ty.kind

section Declarations

variable {engine : Engine} {Γ Δ : Env Binding}

theorem Stmt.keeps_declare {decl : Variable} {type : Ty} (reads : engine.Reads Δ)
    (same : Γ.SameKind Δ) (typed : decl.Typed .plain Γ type) (free : Γ.Free decl.name)
    (noted : decl.resolved = some (.concrete type)) :
    (Stmt.declare decl).walk.Keeps engine (Stmt.Alike NotesSameKind (.declare decl))
      (Γ.declare decl.name (.value type decl.mutable)) [] := by
  obtain ⟨founded, known, value, valued, stated, agree, _⟩ := typed
  obtain ⟨value', valued', kinds⟩ := valued.sameKind same.looks
  obtain ⟨found, follows⟩ := Variable.exists_follows founded known valued'
  have kind : type.kind = found.kind := by
    have ofType := decl.map_kind_follows known stated agree noted
      (Variable.exists_follows founded known valued)
    rw [Option.map_or, kinds, ← Option.map_or, follows] at ofType
    exact (Option.some.inj ofType).symm
  obtain ⟨engine', ends, reads'⟩ := Variable.ends_walk_of_typed reads known valued' follows
    (same.free free)
  have ends' := Stmt.ends_declare.mpr ⟨_, ends, rfl⟩
  obtain ⟨⟨returned, none, grows⟩, _⟩ := Stmt.passes_walk _ ends' reads.sane
  rw [List.length_eq_zero_iff.mp none] at grows
  exact ⟨_, engine', _, [], ends', .declare ⟨_, ⟨_, noted, rfl⟩, ⟨_, rfl, kind.symm⟩⟩, reads',
    same.declare _ (.value kind), grows, rfl⟩

theorem Stmt.keeps_prototype {header : FunctionHeader} {parameters : List Ty} {result : Ty}
    (reads : engine.Reads Δ) (same : Γ.SameKind Δ)
    (known : header.parameterTypes? = some parameters) (states : header.resultType? = some result)
    (external : header.isExternal = true) (free : Γ.Free header.name)
    (noted : header.resolved = some (.concrete result))
    (void : header.returns = none → header.resolved = some (.concrete .void)) :
    (Stmt.function header none).walk.Keeps engine (Stmt.Alike NotesSameKind (.function header none))
      (Γ.declare header.name (.function parameters result)) [] := by
  have begins : knownResult header (header.returns.bind TypeName.type?) =
      some (.concrete result) := by
    unfold FunctionHeader.resultType? at states
    cases written : header.returns with
    | some typeName =>
        rw [written] at states
        rw [Option.bind_some, show typeName.type? = some result from states]
        rfl
    | none =>
        have isVoid := void written
        rw [noted] at isVoid
        cases isVoid
        simp [knownResult, external]
  obtain ⟨inner, yields, reads'⟩ := yields_function_of_known reads known
    (FunctionHeader.returns_known states) begins (same.free free)
  have ends := Stmt.ends_prototype.mpr ⟨_, _, yields, rfl⟩
  exact ⟨_, inner, _, [], ends, .prototype ⟨_, ⟨_, noted, rfl⟩, ⟨_, rfl, rfl⟩⟩, reads',
    same.declare _ (.refl _), grows_function yields, rfl⟩

/-- The type that a function is concluded with is of the kind of its result. -/
theorem FunctionHeader.kind_conclusion {header : FunctionHeader} {result : Ty}
    {returned : List Ty} (states : header.resultType? = some result)
    (noted : header.resolved = some (.concrete result))
    (void : header.returns = none → returned = [] → header.resolved = some (.concrete .void))
    (kinds : ∀ type ∈ returned, result.kind = type.kind) :
    ((header.returns.bind TypeName.type?).getD (returned.headD .void)).kind = result.kind := by
  unfold FunctionHeader.resultType? at states
  cases written : header.returns with
  | some typeName =>
      rw [written] at states
      rw [Option.bind_some, show typeName.type? = some result from states]
      rfl
  | none =>
      cases returned with
      | nil =>
          have isVoid := void written rfl
          rw [noted] at isVoid
          cases isVoid
          rfl
      | cons first rest => exact (kinds first List.mem_cons_self).symm

theorem Stmt.keeps_function {header : FunctionHeader} {body : List Stmt}
    {parameters returned : List Ty} {result : Ty} {inside last : Env Binding}
    (reads : engine.Reads Δ) (same : Γ.SameKind Δ)
    (known : header.parameterTypes? = some parameters) (states : header.resultType? = some result)
    (internal : header.isExternal = false) (free : Γ.Free header.name)
    (noted : header.resolved = some (.concrete result))
    (void : header.returns = none → Stmt.returnCountAll body = 0 →
      header.resolved = some (.concrete .void))
    (taken : Parameter.Declared (Γ.declare header.name (.function parameters result)).enter
      header.parameters inside)
    (typed : Stmt.TypedAll .plain (some result) inside body last returned)
    (keeps : ∀ {engine : Engine} {Δ : Env Binding}, engine.Reads Δ → inside.SameKind Δ →
      (Stmt.walkAll body).Keeps engine (Stmt.AllAlike NotesSameKind body) last returned) :
    (Stmt.function header (some body)).walk.Keeps engine
      (Stmt.Alike NotesSameKind (.function header (some body)))
      (Γ.declare header.name (.function parameters result)) [] := by
  obtain ⟨inner, yields, reads'⟩ := yields_function_of_known reads known
    (FunctionHeader.returns_known states) (FunctionHeader.knownResult_eq internal states)
    (same.free free)
  have declared := same.declare header.name (.refl (.function parameters result))
  have entered : inner.enter.Reads (Δ.declare header.name (.function parameters result)).enter :=
    reads'.enter.congr rfl rfl rfl
  obtain ⟨inside', taken', sameInside⟩ := taken.sameKind declared.enter
  obtain ⟨start, yields', reads''⟩ := yields_parameters_of_declared entered taken'
  obtain ⟨body', final, Δ', returned', ends, alike, readsOut, _, grows, kinds⟩ :=
    keeps reads'' sameInside
  obtain ⟨unwound, returns, leaves⟩ := ((grows_parameters yields').andThen grows).leave
  have ofKind : ∀ type ∈ returned', result.kind = type.kind := by
    intro type present
    have present' : type.kind ∈ returned.map Ty.kind := kinds ▸ List.mem_map_of_mem present
    obtain ⟨other, returns, kind⟩ := List.mem_map.mp present'
    exact (typed.kind_of_mem other returns).trans kind
  have isVoid : header.returns = none → returned' = [] →
      header.resolved = some (.concrete .void) := by
    rintro unwritten rfl
    have none : returned = [] := List.map_eq_nil_iff.mp kinds
    exact void unwritten (typed.length_eq.symm.trans (congrArg List.length none))
  have concluded := @yields_conclusion_of_types final.leave header returned' result ofKind
    (header.returns.bind TypeName.type?)
  rw [← returns] at concluded
  refine ⟨_, final.leave, _, [],
    Stmt.ends_function.mpr ⟨_, _, inner, start, body', final, _, yields,
    yields', ends, concluded, rfl⟩, .function ⟨_, ⟨_, noted, rfl⟩,
      ⟨_, rfl, ?_⟩⟩ alike, ?_, declared,
    (grows_function yields).andThen leaves, rfl⟩
  · exact header.kind_conclusion states noted isVoid ofKind
  · exact reads'.congr unwound leaves.learns.known (readsOut.forward.trans reads'.forward.symm)

/-- A statement that leaves the engine as it is. -/
theorem Stmt.keeps_still {s : Stmt} {work : Infer Term} {term : Term} (reads : engine.Reads Δ)
    (same : Γ.SameKind Δ) (walk : s.walk = .still s work) (yields : Yields work engine term engine)
    (alike : s.Alike NotesSameKind s) :
    s.walk.Keeps engine (Stmt.Alike NotesSameKind s) Γ [] := by
  refine ⟨s, engine, Δ, [], ?_, alike, reads, same, .refl engine, rfl⟩
  rw [walk]
  exact ends_still.mpr ⟨rfl, term, yields⟩

end Declarations

section Blocks

variable {engine : Engine} {Γ Δ : Env Binding} {returned : List Ty}

/-- A block is kept if what is in it is: afterwards, the environment is the one before it. -/
theorem Walk.Keeps.block {body : List Stmt} {last : Env Binding} (reads : engine.Reads Δ)
    (keeps : (Stmt.walkAll body).Keeps engine.push (Stmt.AllAlike NotesSameKind body) last
      returned) :
    ∃ body' inner, ∃ returned' : List Ty, (Stmt.walkAll body).Ends engine.push body' inner ∧
      Stmt.AllAlike NotesSameKind body body' ∧ inner.pop.Reads Δ ∧
      engine.Grows inner.pop (returned'.map .concrete) ∧
      returned.map Ty.kind = returned'.map Ty.kind := by
  obtain ⟨body', inner, Δ', returned', ends, alike, inside, _, grows, kinds⟩ := keeps
  exact ⟨body', inner, returned', ends, alike, reads.leaveBlock grows inside, grows.block.2, kinds⟩

private theorem map_kind_append {more returned' more' : List Ty}
    (kinds : returned.map Ty.kind = returned'.map Ty.kind)
    (kinds' : more.map Ty.kind = more'.map Ty.kind) :
    (returned ++ more).map Ty.kind = (returned' ++ more').map Ty.kind := by
  rw [List.map_append, List.map_append, kinds, kinds']

private theorem grows_append {between last : Engine} {returned more : List Ty}
    (grows : engine.Grows between (returned.map .concrete))
    (grows' : between.Grows last (more.map .concrete)) :
    engine.Grows last ((returned ++ more).map .concrete) := by
  rw [List.map_append]
  exact grows.trans grows'

end Blocks

mutual

/-- A typed statement that has its notes is kept. -/
theorem Stmt.keeps : ∀ (s : Stmt) {engine : Engine} {Γ Δ Γ' : Env Binding} {ρ : Option Ty}
    {returned : List Ty}, s.bare.Loaded → s.Noted Term.IsType → engine.Reads Δ → Γ.SameKind Δ →
      s.Typed .plain ρ Γ Γ' returned → s.walk.Keeps engine (s.Alike NotesSameKind) Γ' returned
  | .expr e, _, _, _, _, _, _, _, _, reads, same, .expr typed => by
      obtain ⟨_, typed', _⟩ := typed.sameKind same.looks
      exact Stmt.keeps_still reads same (by simp only [Stmt.walk]) (typed'.yields reads.describes)
        (.expr e)
  | .comment text, engine, _, _, _, _, _, _, _, reads, same, .comment _ => by
      have yields : Yields (pure (Term.concrete .void)) engine (.concrete .void) engine :=
        yields_pure.mpr ⟨rfl, rfl⟩
      exact Stmt.keeps_still reads same (by rw [Stmt.walk]) yields (.comment text)
  | .use used, engine, _, _, _, _, _, _, _, reads, same, .use _ => by
      have yields : Yields (pure (Term.concrete .void)) engine (.concrete .void) engine :=
        yields_pure.mpr ⟨rfl, rfl⟩
      exact Stmt.keeps_still reads same (by rw [Stmt.walk]) yields (.use used)
  | .returns value, engine, _, _, _, _, _, _, _, reads, same,
      @Stmt.Typed.returns _ _ _ _ found typed _ => by
      obtain ⟨found', typed', kind⟩ := typed.sameKind same.looks
      have yields : Yields (Infer.returns value) engine (.concrete (found'.getD .void))
          (engine.addReturn (.concrete (found'.getD .void))) := by
        refine yields_returns.mpr ⟨_, engine, typed'.yields reads.describes, ?_⟩
        cases found' <;> exact ⟨rfl, rfl⟩
      have grows := grows_returns yields
      have kinds : [found.getD .void].map Ty.kind = [found'.getD .void].map Ty.kind := by
        rw [List.map_singleton, List.map_singleton, ← Option.getD_map Ty.kind,
          ← Option.getD_map Ty.kind, kind]
      have unchanged : (engine.addReturn (.concrete (found'.getD .void))).scopes = engine.scopes ∧
          (engine.addReturn (.concrete (found'.getD .void))).forward = engine.forward := by
        unfold Engine.addReturn
        split <;> exact ⟨rfl, rfl⟩
      exact ⟨_, _, _, [found'.getD .void], Stmt.ends_returns.mpr ⟨rfl, _, yields⟩, .returns value,
        reads.congr unchanged.1 grows.learns.known unchanged.2, same, grows, kinds⟩
  | .declare _, _, _, _, _, _, _, _, noted, reads, same, .declare typed free =>
      Stmt.keeps_declare reads same typed free (typed.resolved_eq noted.1 noted.2)
  | .function header none, _, _, _, _, _, _, loaded, noted, reads, same,
      .prototype known states free _ =>
      Stmt.keeps_prototype reads same known states loaded.2 free
        (header.resolved_eq states noted.1 noted.2.1) fun written => noted.2.2 written loaded.2
  | .function header (some body), _, _, _, _, _, _, loaded, noted, reads, same,
      .function known states free taken typed _ =>
      Stmt.keeps_function reads same known states loaded.2.1 free
        (header.resolved_eq states noted.1 noted.2.1) noted.2.2.1 taken typed
        fun inside same => Stmt.keepsAll body loaded.2.2 noted.2.2.2 inside same typed
  | .branch condition body alternate, engine, _, _, _, _, _, loaded, noted, reads, same,
      .branch typed _ typedBody typedRest => by
      obtain ⟨_, typed', _⟩ := typed.sameKind same.looks
      have yields := yields_condition_of_typed reads.describes typed'
      obtain ⟨body', inner, returned, ends, alike, after, grows, kinds⟩ :=
        (Stmt.keepsAll body loaded.1 noted.1 reads.enter same.enter typedBody).block reads
      obtain ⟨alternate', last, Δ', more, ends', alike', reads', same', grows', kinds'⟩ :=
        Alternate.keeps alternate loaded.2 noted.2 after same typedRest
      exact ⟨_, last, Δ', returned ++ more, Stmt.ends_branch.mpr
        ⟨engine, body', inner, alternate', yields, ends, ends', rfl⟩, .branch alike alike', reads',
        same', grows_append grows grows', map_kind_append kinds kinds'⟩
  | .loop condition body, engine, _, _, _, _, _, loaded, noted, reads, same,
      .loop typed _ typedBody => by
      obtain ⟨_, typed', _⟩ := typed.sameKind same.looks
      have yields := yields_condition_of_typed reads.describes typed'
      obtain ⟨body', inner, returned, ends, alike, after, grows, kinds⟩ :=
        (Stmt.keepsAll body loaded noted reads.enter same.enter typedBody).block reads
      exact ⟨_, inner.pop, _, returned, Stmt.ends_loop.mpr
        ⟨engine, body', inner, yields, ends, rfl, rfl⟩, .loop alike, after, same, grows, kinds⟩
  | .switch subject arms, engine, _, _, _, _, _, loaded, noted, reads, same,
      .switch typed typedArms => by
      obtain ⟨type', typed', _⟩ := typed.sameKind same.looks
      obtain ⟨arms', last, Δ', returned, ends, alike, reads', same', grows, kinds⟩ :=
        Arm.keepsAll (some type') arms loaded noted reads same typedArms
      exact ⟨_, last, Δ', returned, Stmt.ends_switch.mpr
        ⟨_, engine, arms', typed'.yields reads.describes, ends, rfl⟩, .switch alike, reads', same',
        grows, kinds⟩
  | .merged body, _, _, _, _, _, _, loaded, noted, reads, same, .merged typed => by
      obtain ⟨body', last, Δ', returned, ends, alike, reads', same', grows, kinds⟩ :=
        Stmt.keepsAll body loaded noted reads same typed
      exact ⟨_, last, Δ', returned, Stmt.ends_merged.mpr ⟨body', ends, rfl⟩, .merged alike, reads',
        same', grows, kinds⟩
termination_by structural s => s

theorem Alternate.keeps : ∀ (alternate : Alternate) {engine : Engine} {Γ Δ : Env Binding}
    {ρ : Option Ty} {returned : List Ty}, alternate.bare.Loaded → alternate.Noted Term.IsType →
      engine.Reads Δ → Γ.SameKind Δ → alternate.Typed .plain ρ Γ returned →
      alternate.walk.Keeps engine (alternate.Alike NotesSameKind) Γ returned
  | .none, engine, _, _, _, _, _, _, reads, same, .none =>
      ⟨.none, engine, _, [], Alternate.ends_none.mpr ⟨rfl, rfl⟩, .none, reads, same, .refl engine,
        rfl⟩
  | .elseBranch condition body alternate, engine, _, _, _, _, loaded, noted, reads, same,
      .elseBranch typed _ typedBody typedRest => by
      obtain ⟨_, typed', _⟩ := typed.sameKind same.looks
      have yields := yields_condition_of_typed reads.describes typed'
      obtain ⟨body', inner, returned, ends, alike, after, grows, kinds⟩ :=
        (Stmt.keepsAll body loaded.1 noted.1 reads.enter same.enter typedBody).block reads
      obtain ⟨alternate', last, Δ', more, ends', alike', reads', same', grows', kinds'⟩ :=
        Alternate.keeps alternate loaded.2 noted.2 after same typedRest
      exact ⟨_, last, Δ', returned ++ more, Alternate.ends_elseBranch.mpr
        ⟨engine, body', inner, alternate', yields, ends, ends', rfl⟩, .elseBranch alike alike',
        reads', same', grows_append grows grows', map_kind_append kinds kinds'⟩
  | .otherwise body, engine, _, _, _, _, loaded, noted, reads, same, .otherwise typedBody => by
      obtain ⟨body', inner, returned, ends, alike, after, grows, kinds⟩ :=
        (Stmt.keepsAll body loaded noted reads.enter same.enter typedBody).block reads
      exact ⟨_, inner.pop, _, returned, Alternate.ends_otherwise.mpr ⟨body', inner, ends, rfl, rfl⟩,
        .otherwise alike, after, same, grows, kinds⟩
termination_by structural alternate => alternate

theorem Arm.keeps (subject' : Option Ty) : ∀ (arm : Arm) {engine : Engine} {Γ Δ : Env Binding}
    {ρ subject : Option Ty} {returned : List Ty}, arm.bare.Loaded → arm.Noted Term.IsType →
      engine.Reads Δ → Γ.SameKind Δ → arm.Typed .plain ρ subject Γ returned →
      (arm.walk (subject'.map .concrete)).Keeps engine (arm.Alike NotesSameKind) Γ returned
  | .value pattern body, engine, _, _, _, _, _, loaded, noted, reads, same,
      .value typed _ typedBody => by
      obtain ⟨_, typed', _⟩ := typed.sameKind same.looks
      have yields := yields_pattern_of_typed reads.describes typed' subject'
      obtain ⟨body', inner, returned, ends, alike, after, grows, kinds⟩ :=
        (Stmt.keepsAll body loaded noted reads.enter same.enter typedBody).block reads
      exact ⟨_, inner.pop, _, returned, Arm.ends_value.mpr
        ⟨engine, body', inner, yields, ends, rfl, rfl⟩, .value alike, after, same, grows, kinds⟩
  | .otherwise body, engine, _, _, _, _, _, loaded, noted, reads, same, .otherwise typedBody => by
      obtain ⟨body', inner, returned, ends, alike, after, grows, kinds⟩ :=
        (Stmt.keepsAll body loaded noted reads.enter same.enter typedBody).block reads
      exact ⟨_, inner.pop, _, returned, Arm.ends_otherwise.mpr ⟨body', inner, ends, rfl, rfl⟩,
        .otherwise alike, after, same, grows, kinds⟩
termination_by structural arm => arm

theorem Stmt.keepsAll : ∀ (body : List Stmt) {engine : Engine} {Γ Δ Γ' : Env Binding}
    {ρ : Option Ty} {returned : List Ty}, Stmt.AllLoaded (Stmt.allBare body) →
      Stmt.AllNoted Term.IsType body → engine.Reads Δ → Γ.SameKind Δ →
      Stmt.TypedAll .plain ρ Γ body Γ' returned →
      (Stmt.walkAll body).Keeps engine (Stmt.AllAlike NotesSameKind body) Γ' returned
  | [], engine, _, _, _, _, _, _, _, reads, same, .nil =>
      ⟨[], engine, _, [], Stmt.ends_nil.mpr ⟨rfl, rfl⟩, .nil, reads, same, .refl engine, rfl⟩
  | first :: rest, _, _, _, _, _, _, loaded, noted, reads, same, .cons typed typedRest => by
      obtain ⟨first', between, _, returned, ends, alike, reads', same', grows, kinds⟩ :=
        Stmt.keeps first loaded.1 noted.1 reads same typed
      obtain ⟨rest', last, Δ', more, ends', alike', reads'', same'', grows', kinds'⟩ :=
        Stmt.keepsAll rest loaded.2 noted.2 reads' same' typedRest
      exact ⟨_, last, Δ', returned ++ more, Stmt.ends_cons.mpr
        ⟨first', between, rest', ends, ends', rfl⟩, .cons alike alike', reads'', same'',
        grows_append grows grows', map_kind_append kinds kinds'⟩
termination_by structural body => body

theorem Arm.keepsAll (subject' : Option Ty) : ∀ (arms : List Arm) {engine : Engine}
    {Γ Δ : Env Binding} {ρ subject : Option Ty} {returned : List Ty},
      Arm.AllLoaded (Arm.allBare arms) → Arm.AllNoted Term.IsType arms → engine.Reads Δ →
      Γ.SameKind Δ → Arm.TypedAll .plain ρ subject Γ arms returned →
      (Arm.walkAll (subject'.map .concrete) arms).Keeps engine (Arm.AllAlike NotesSameKind arms) Γ
        returned
  | [], engine, _, _, _, _, _, _, _, reads, same, .nil =>
      ⟨[], engine, _, [], Arm.ends_nil.mpr ⟨rfl, rfl⟩, .nil, reads, same, .refl engine, rfl⟩
  | first :: rest, _, _, _, _, _, _, loaded, noted, reads, same, .cons typed typedRest => by
      obtain ⟨first', between, _, returned, ends, alike, reads', same', grows, kinds⟩ :=
        Arm.keeps subject' first loaded.1 noted.1 reads same typed
      obtain ⟨rest', last, Δ', more, ends', alike', reads'', same'', grows', kinds'⟩ :=
        Arm.keepsAll subject' rest loaded.2 noted.2 reads' same' typedRest
      exact ⟨_, last, Δ', returned ++ more, Arm.ends_cons.mpr
        ⟨first', between, rest', ends, ends', rfl⟩, .cons alike alike', reads'', same'',
        grows_append grows grows', map_kind_append kinds kinds'⟩
termination_by structural arms => arms

end

/-- A tree that is alike another is alike itself, in whatever way its notes are. -/
theorem Stmt.AllAlike.self {related related' : Option Term → Option Term → Prop}
    {body body' : List Stmt} (alike : Stmt.AllAlike related body body')
    (meet : ∀ note note', related note note' → related' note' note') :
    Stmt.AllAlike related' body' body' := by
  have notes := alike.allNotes
  refine Stmt.AllAlike.of_allNotes (alike.compare (fun _ _ _ _ _ => trivial) alike) ?_
  generalize Stmt.allNotes body = left at notes
  generalize Stmt.allNotes body' = right at notes ⊢
  induction notes with
  | nil => exact .nil
  | cons holds _ ih => exact .cons (meet _ _ holds) ih

theorem NotesSameKind.settles {note note' : Option Term} (same : NotesSameKind note note')
    (table : Table) : table.Settles note' note' := by
  obtain ⟨_, _, type, rfl, _⟩ := same
  refine ⟨rfl, ?_⟩
  rintro _ ⟨⟩
  rfl

/-- The engine after some work, whether it has succeeded or failed. -/
def Infer.engineAfter {α : Type} (work : Infer α) (engine : Engine) : Engine :=
  match work engine with
  | .ok _ engine' | .error _ engine' => engine'

theorem Infer.Spares.table_eq {α : Type} {work : Infer α} {engine : Engine}
    {holds : α → Engine → Prop} (spares : Spares work engine holds) :
    (engineAfter work engine).table = .empty := by
  unfold Spares at spares
  unfold engineAfter
  cases ends : work engine with
  | ok value engine' =>
      rw [ends] at spares
      exact spares.1
  | error error engine' =>
      rw [ends] at spares
      exact spares

/-- A second run adds no placeholder, whatever comes of it. If what the first has found passes the
check, then the second succeeds, and the type that it gives to each declaration is of the kind of
the one before. -/
theorem Program.infer_again_sameKind {program typed : Program} {order : ForwardOrder}
    (loaded : Program.Loaded program) (founded : Stmt.AllFounded program)
    (inferred : program.infer order = .ok typed) (anew : ForwardOrder) :
    (Infer.engineAfter (Infer.run anew typed) .start).table.size = 0 ∧
      (typed.check = .ok [] →
        ∃ again, typed.infer anew = .ok again ∧ Stmt.AllAlike NotesSameKind typed again) := by
  have valid := wellScoped_of_infer loaded.allLoaded founded inferred
  obtain ⟨noted, bare, _⟩ := noted_of_infer loaded.allLoaded inferred
  constructor
  · rw [(valid.spares_run noted anew).table_eq]
    rfl
  · intro passes
    obtain ⟨last, returned, typing⟩ := (check_eq_ok_nil_iff typed).mp passes
    have reads := Engine.reads_learn noted typing.announceable
    have shape : Stmt.AllLoaded (Stmt.allBare typed) := bare ▸ loaded.allLoaded
    obtain ⟨again, final, _, _, ends, alike, reads', _⟩ :=
      Stmt.keepsAll typed shape noted reads (.refl _) typing
    have settled := alike.self fun _ _ same => same.settles (final.table.unify final.constraints)
    exact ⟨again, infer_eq_ok_iff.mpr ⟨again, final, ends, reads'.forward, settled⟩, alike⟩

open ForwardSum in
/-- A sum with a variable that is declared as an `i8` further on: an `int` at first, and an `i8`
when it is inferred again. -/
theorem Program.infer_again_sameKind_forward_sum :
    Program.parse tokens = .ok (program none none) ∧ Stmt.AllFounded (program none none) ∧
      (program none none).infer .byUse = .ok (program (some .int) (some (.sized .w8))) ∧
      (program (some .int) (some (.sized .w8))).check = .ok [] ∧
      (Infer.engineAfter (Infer.run .byUse (program (some .int) (some (.sized .w8))))
        .start).table.size = 0 ∧
      ∃ again, (program (some .int) (some (.sized .w8))).infer .byUse = .ok again ∧
        Stmt.AllAlike NotesSameKind (program (some .int) (some (.sized .w8))) again ∧
        again ≠ program (some .int) (some (.sized .w8)) := by
  have parsed : Program.parse tokens = .ok (program none none) := by rfl
  have founded : Stmt.AllFounded (program none none) := ⟨.inr rfl, .inl rfl, trivial⟩
  have inferred : (program none none).infer .byUse =
      .ok (program (some .int) (some (.sized .w8))) := by rfl
  have passes : (program (some .int) (some (.sized .w8))).check = .ok [] := by rfl
  have rerun : (program (some .int) (some (.sized .w8))).infer .byUse =
      .ok (program (some (.sized .w8)) (some (.sized .w8))) := by rfl
  obtain ⟨spared, kept⟩ := Program.infer_again_sameKind (.parsed parsed) founded inferred .byUse
  obtain ⟨again, succeeds, alike⟩ := kept passes
  refine ⟨parsed, founded, inferred, passes, spared, again, succeeds, alike, ?_⟩
  rintro rfl
  cases rerun.symm.trans succeeds

end SmallLang
