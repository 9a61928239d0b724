import SmallLang.Proofs.Inference.Decided
import SmallLang.Proofs.Inference.Settled

/-!
# Walking a typed program again

A walk over statements whose notes are exactly what follows from their parts leaves them as
they are. Conversely, if a walk over typed statements and the settling after it give back the
same statements, then their notes were exactly what follows.
-/

set_option autoImplicit false

namespace SmallLang

open Infer Walk

theorem resolved_eq_of_type? {note : Option Term} {type : Ty}
    (known : note.bind Term.type? = some type) : note = some (.concrete type) := by
  obtain ⟨term, rfl, isType⟩ := Option.bind_eq_some_iff.mp known
  cases term with
  | concrete other =>
      obtain rfl := Option.some.inj isType
      rfl
  | pending => cases isType

/-- What is noted in a function is its result, if it follows from what is written or from
another type. -/
theorem FunctionHeader.resolvedType?_eq_result {header : FunctionHeader} {result other : Ty}
    (known : header.resultType? = some result)
    (notes : header.resolvedType? = (header.returns.bind TypeName.type?).or (some other)) :
    header.resolvedType? = some result := by
  unfold FunctionHeader.resultType? at known
  cases written : header.returns with
  | some typeName =>
      rw [written] at known
      simp only at known
      rw [notes, written, Option.bind_some, known]
      rfl
  | none =>
      rw [written] at known notes
      simp only [Option.bind_none, Option.none_or] at notes
      simp only [notes, Option.some_or, Option.some.injEq] at known
      rw [notes, known]

section Ends

variable {engine engine' : Engine} {Γ Γ' : Env Binding}

theorem Walk.Ends.unique {α : Type} {walk : Walk α} {part part' : α} {last last' : Engine}
    (ends : walk.Ends engine part last) (ends' : walk.Ends engine part' last') :
    part = part' ∧ last = last' := by
  obtain ⟨term, same⟩ := ends
  obtain ⟨term', same'⟩ := ends'
  obtain ⟨rfl, rfl, _⟩ := Walked.mk.inj (same.symm.trans same')
  exact ⟨rfl, rfl⟩

/-- A function is concluded with the type that is written, or else with that of its first
return. -/
theorem Infer.yields_conclusion_of_typed {rules : Discipline} {header : FunctionHeader}
    {inside last : Env Binding} {body : List Stmt} {returned : List Ty} {result : Ty}
    (typed : Stmt.TypedAll rules (some result) inside body last returned)
    {terms : List Term} (same : terms = returned.map .concrete) (engine : Engine) :
    Yields (conclusion header (header.returns.bind TypeName.type?) (.concrete result) terms)
      engine
      (.concrete ((header.returns.bind TypeName.type?).getD (returned.headD .void))) engine := by
  rw [same]
  exact yields_conclusion_of_types typed.kind_of_mem _

end Ends

/-- A walk repeats a part if it leaves the part as it is. The engine then reads what the part
declares, and has taken note of what it returns. -/
def Walk.Repeats {α : Type} (walk : Walk α) (engine : Engine) (part : α) (Γ' : Env Binding)
    (returned : List Ty) : Prop :=
  ∃ engine', walk.Ends engine part engine' ∧ engine'.Reads Γ' ∧
    engine.Grows engine' (returned.map .concrete)

section Declarations

variable {engine : Engine} {Γ : Env Binding} {ρ : Option Ty}

theorem Variable.exact_note {decl : Variable} {value : Option Ty} {type : Ty}
    (known : ∀ typeName ∈ decl.typeName, typeName.type?.isSome)
    (stated : decl.statedType?.or value = some type)
    (notes : decl.resolvedType? = (decl.typeName.bind TypeName.type?).or value) :
    decl.resolvedType? = some type := by
  rw [← annotated_or_resolved known, notes] at stated
  rw [notes, ← stated]
  cases decl.typeName.bind TypeName.type? <;> cases value <;> rfl

theorem Stmt.repeats_declare {decl : Variable} {type : Ty} (reads : engine.Reads Γ)
    (typed : decl.Typed .exact Γ type) (free : Γ.Free decl.name) :
    (Stmt.declare decl).walk.Repeats engine (.declare decl)
      (Γ.declare decl.name (.value type decl.mutable)) [] := by
  obtain ⟨_, known, value, valued, stated, _, notes⟩ := typed
  have noted := decl.exact_note known stated notes
  obtain ⟨engine', ends, reads'⟩ := Variable.ends_walk_of_typed reads known valued
    (notes.symm.trans noted) free
  have same : { decl with resolved := some (.concrete type) } = decl := by
    rw [← resolved_eq_of_type? noted]
  rw [same] at ends
  have ends' := Stmt.ends_declare.mpr ⟨decl, ends, rfl⟩
  obtain ⟨⟨returned, none, grows⟩, _⟩ := Stmt.passes_walk _ ends' reads.sane
  rw [List.length_eq_zero_iff.mp none] at grows
  exact ⟨engine', ends', reads', grows⟩

theorem Stmt.repeats_prototype {header : FunctionHeader} {parameters : List Ty} {result : Ty}
    (reads : engine.Reads Γ) (known : header.parameterTypes? = some parameters)
    (known' : header.resultType? = some result) (external : header.isExternal = true)
    (free : Γ.Free header.name)
    (notes : header.resolvedType? =
      (header.returns.bind TypeName.type?).or
        (if header.isExternal then some .void else header.resolvedType?)) :
    (Stmt.function header none).walk.Repeats engine (.function header none)
      (Γ.declare header.name (.function parameters result)) [] := by
  rw [if_pos external] at notes
  have noted := FunctionHeader.resolvedType?_eq_result known' notes
  have begins : knownResult header (header.returns.bind TypeName.type?) =
      some (.concrete result) := by
    rw [noted] at notes
    cases written : header.returns.bind TypeName.type? with
    | none =>
        rw [written] at notes
        simp [knownResult, external, Option.some.inj notes]
    | some type =>
        rw [written] at notes
        simp [knownResult, Option.some.inj notes]
  obtain ⟨inner, yields, reads'⟩ := yields_function_of_known reads known
    (FunctionHeader.returns_known known') begins free
  have same : { header with resolved := some (.concrete result) } = header := by
    rw [← resolved_eq_of_type? noted]
  refine ⟨inner, Stmt.ends_prototype.mpr ⟨_, _, yields, ?_⟩, reads', grows_function yields⟩
  rw [same]

theorem Stmt.repeats_function {header : FunctionHeader} {body : List Stmt}
    {parameters returned : List Ty} {result : Ty} {inside last : Env Binding}
    (reads : engine.Reads Γ) (known : header.parameterTypes? = some parameters)
    (known' : header.resultType? = some result) (internal : header.isExternal = false)
    (free : Γ.Free header.name)
    (taken : Parameter.Declared (Γ.declare header.name (.function parameters result)).enter
      header.parameters inside)
    (typed : Stmt.TypedAll .exact (some result) inside body last returned)
    (notes : header.resolvedType? =
      (header.returns.bind TypeName.type?).or (some (returned.headD .void)))
    (repeats : ∀ {engine : Engine}, engine.Reads inside →
      (Stmt.walkAll body).Repeats engine body last returned) :
    (Stmt.function header (some body)).walk.Repeats engine (.function header (some body))
      (Γ.declare header.name (.function parameters result)) [] := by
  obtain ⟨inner, yields, reads'⟩ := yields_function_of_known reads known
    (FunctionHeader.returns_known known') (FunctionHeader.knownResult_eq internal known') free
  have entered : inner.enter.Reads (Γ.declare header.name (.function parameters result)).enter :=
    reads'.enter.congr rfl rfl rfl
  obtain ⟨start, yields', reads''⟩ := yields_parameters_of_declared entered taken
  obtain ⟨final, ends, readsOut, grows⟩ := repeats reads''
  obtain ⟨same, returns, leaves⟩ := ((grows_parameters yields').andThen grows).leave
  have noted := FunctionHeader.resolvedType?_eq_result known' notes
  have concluded := @yields_conclusion_of_typed _ header _ _ _ _ _ typed _ returns final.leave
  have result_eq : (header.returns.bind TypeName.type?).getD (returned.headD .void) = result := by
    rw [noted] at notes
    cases written : header.returns.bind TypeName.type? with
    | none =>
        rw [written] at notes
        exact (Option.some.inj notes).symm
    | some type =>
        rw [written] at notes
        exact (Option.some.inj notes).symm
  rw [result_eq] at concluded
  have unchanged : { header with resolved := some (.concrete result) } = header := by
    rw [← resolved_eq_of_type? noted]
  refine ⟨final.leave, Stmt.ends_function.mpr ⟨_, _, inner, start, body, final, _, yields, yields',
    ends, concluded, ?_⟩, ?_, (grows_function yields).andThen leaves⟩
  · rw [unchanged]
  · exact reads'.congr same leaves.learns.known (readsOut.forward.trans reads'.forward.symm)

end Declarations

/-- A statement that leaves the engine as it is. -/
theorem Stmt.repeats_still {s : Stmt} {engine : Engine} {Γ : Env Binding} {work : Infer Term}
    {term : Term} (reads : engine.Reads Γ) (walk : s.walk = .still s work)
    (yields : Yields work engine term engine) : s.walk.Repeats engine s Γ [] := by
  refine ⟨engine, ?_, reads, .refl engine⟩
  rw [walk]
  exact ends_still.mpr ⟨rfl, term, yields⟩

mutual

/-- A statement whose notes are exactly what follows is walked as it is. -/
theorem Stmt.repeats : ∀ (s : Stmt) {engine : Engine} {Γ Γ' : Env Binding} {ρ : Option Ty}
    {returned : List Ty}, s.bare.Parsed → engine.Reads Γ → s.Typed .exact ρ Γ Γ' returned →
      s.walk.Repeats engine s Γ' returned
  | .expr e, _, _, _, _, _, _, reads, .expr typed =>
      Stmt.repeats_still reads (by simp only [Stmt.walk]) (typed.yields reads.describes)
  | .comment text, _, _, _, _, _, _, reads, .comment _ =>
      Stmt.repeats_still reads (by rw [Stmt.walk])
        (show Yields (pure (Term.concrete .void)) _ _ _ from yields_pure.mpr ⟨rfl, rfl⟩)
  | .use used, _, _, _, _, _, _, reads, .use _ =>
      Stmt.repeats_still reads (by rw [Stmt.walk])
        (show Yields (pure (Term.concrete .void)) _ _ _ from yields_pure.mpr ⟨rfl, rfl⟩)
  | .returns value, engine, Γ, _, _, _, _, reads, @Stmt.Typed.returns _ _ _ _ found typed _ => by
      have yields : Yields (Infer.returns value) engine (.concrete (found.getD .void))
          (engine.addReturn (.concrete (found.getD .void))) := by
        refine yields_returns.mpr ⟨_, engine, typed.yields reads.describes, ?_⟩
        cases found <;> exact ⟨rfl, rfl⟩
      have grows := grows_returns yields
      refine ⟨_, Stmt.ends_returns.mpr ⟨rfl, _, yields⟩, ?_, grows⟩
      have same : (engine.addReturn (.concrete (found.getD .void))).scopes = engine.scopes ∧
          (engine.addReturn (.concrete (found.getD .void))).forward = engine.forward := by
        unfold Engine.addReturn
        split <;> exact ⟨rfl, rfl⟩
      exact reads.congr same.1 grows.learns.known same.2
  | .declare decl, _, _, _, _, _, _, reads, .declare typed free =>
      Stmt.repeats_declare reads typed free
  | .function header none, _, _, _, _, _, parsed, reads, .prototype known known' free notes =>
      Stmt.repeats_prototype reads known known' parsed.2 free notes
  | .function header (some body), _, _, _, _, _, parsed, reads,
      .function known known' free taken typed notes =>
      Stmt.repeats_function reads known known' parsed.2.1 free taken typed notes
        fun inside => Stmt.repeatsAll body parsed.2.2 inside typed
  | .branch condition body alternate, engine, _, _, _, _, parsed, reads,
      .branch typed _ typedBody typedRest => by
      have yields := yields_condition_of_typed reads.describes typed
      obtain ⟨last, ends, inside, grows⟩ := Stmt.repeatsAll body parsed.1 reads.enter typedBody
      have after := reads.leaveBlock grows inside
      obtain ⟨final, ends', reads', grows'⟩ := Alternate.repeats alternate parsed.2 after typedRest
      refine ⟨final, Stmt.ends_branch.mpr ⟨engine, body, last, alternate, yields, ends, ends', rfl⟩,
        reads', ?_⟩
      rw [List.map_append]
      exact grows.block.2.trans grows'
  | .loop condition body, engine, _, _, _, _, parsed, reads, .loop typed _ typedBody => by
      have yields := yields_condition_of_typed reads.describes typed
      obtain ⟨last, ends, inside, grows⟩ := Stmt.repeatsAll body parsed reads.enter typedBody
      exact ⟨last.pop, Stmt.ends_loop.mpr ⟨engine, body, last, yields, ends, rfl, rfl⟩,
        reads.leaveBlock grows inside, grows.block.2⟩
  | .switch subject arms, engine, _, _, _, _, parsed, reads,
      @Stmt.Typed.switch _ _ _ _ _ type _ typed typedArms => by
      obtain ⟨last, ends, reads', grows⟩ := Arm.repeatsAll (some type) arms parsed reads typedArms
      exact ⟨last, Stmt.ends_switch.mpr ⟨_, engine, arms, typed.yields reads.describes, ends, rfl⟩,
        reads', grows⟩
termination_by structural s => s

theorem Alternate.repeats : ∀ (alternate : Alternate) {engine : Engine} {Γ : Env Binding}
    {ρ : Option Ty} {returned : List Ty}, alternate.bare.Parsed → engine.Reads Γ →
      alternate.Typed .exact ρ Γ returned → alternate.walk.Repeats engine alternate Γ returned
  | .none, engine, _, _, _, _, reads, .none =>
      ⟨engine, Alternate.ends_none.mpr ⟨rfl, rfl⟩, reads, .refl engine⟩
  | .elseBranch condition body alternate, engine, _, _, _, parsed, reads,
      .elseBranch typed _ typedBody typedRest => by
      have yields := yields_condition_of_typed reads.describes typed
      obtain ⟨last, ends, inside, grows⟩ := Stmt.repeatsAll body parsed.1 reads.enter typedBody
      have after := reads.leaveBlock grows inside
      obtain ⟨final, ends', reads', grows'⟩ := Alternate.repeats alternate parsed.2 after typedRest
      refine ⟨final, Alternate.ends_elseBranch.mpr
        ⟨engine, body, last, alternate, yields, ends, ends', rfl⟩, reads', ?_⟩
      rw [List.map_append]
      exact grows.block.2.trans grows'
  | .otherwise body, engine, _, _, _, parsed, reads, .otherwise typedBody => by
      obtain ⟨last, ends, inside, grows⟩ := Stmt.repeatsAll body parsed reads.enter typedBody
      exact ⟨last.pop, Alternate.ends_otherwise.mpr ⟨body, last, ends, rfl, rfl⟩,
        reads.leaveBlock grows inside, grows.block.2⟩
termination_by structural alternate => alternate

theorem Arm.repeats (subject : Option Ty) : ∀ (arm : Arm) {engine : Engine} {Γ : Env Binding}
    {ρ : Option Ty} {returned : List Ty}, arm.bare.Parsed → engine.Reads Γ →
      arm.Typed .exact ρ subject Γ returned →
      (arm.walk (subject.map .concrete)).Repeats engine arm Γ returned
  | .value pattern body, engine, _, _, _, parsed, reads, .value typed _ typedBody => by
      have yields := yields_pattern_of_typed reads.describes typed subject
      obtain ⟨last, ends, inside, grows⟩ := Stmt.repeatsAll body parsed reads.enter typedBody
      exact ⟨last.pop, Arm.ends_value.mpr ⟨engine, body, last, yields, ends, rfl, rfl⟩,
        reads.leaveBlock grows inside, grows.block.2⟩
  | .otherwise body, engine, _, _, _, parsed, reads, .otherwise typedBody => by
      obtain ⟨last, ends, inside, grows⟩ := Stmt.repeatsAll body parsed reads.enter typedBody
      exact ⟨last.pop, Arm.ends_otherwise.mpr ⟨body, last, ends, rfl, rfl⟩,
        reads.leaveBlock grows inside, grows.block.2⟩
termination_by structural arm => arm

theorem Stmt.repeatsAll : ∀ (body : List Stmt) {engine : Engine} {Γ Γ' : Env Binding}
    {ρ : Option Ty} {returned : List Ty}, Stmt.AllParsed (Stmt.allBare body) →
      engine.Reads Γ → Stmt.TypedAll .exact ρ Γ body Γ' returned →
      (Stmt.walkAll body).Repeats engine body Γ' returned
  | [], engine, _, _, _, _, _, reads, .nil =>
      ⟨engine, Stmt.ends_nil.mpr ⟨rfl, rfl⟩, reads, .refl engine⟩
  | first :: rest, _, _, _, _, _, parsed, reads, .cons typed typedRest => by
      obtain ⟨between, ends, reads', grows⟩ := Stmt.repeats first parsed.1 reads typed
      obtain ⟨last, ends', reads'', grows'⟩ := Stmt.repeatsAll rest parsed.2 reads' typedRest
      refine ⟨last, Stmt.ends_cons.mpr ⟨first, between, rest, ends, ends', rfl⟩, reads'', ?_⟩
      rw [List.map_append]
      exact grows.trans grows'
termination_by structural body => body

theorem Arm.repeatsAll (subject : Option Ty) : ∀ (arms : List Arm) {engine : Engine}
    {Γ : Env Binding} {ρ : Option Ty} {returned : List Ty}, Arm.AllParsed (Arm.allBare arms) →
      engine.Reads Γ → Arm.TypedAll .exact ρ subject Γ arms returned →
      (Arm.walkAll (subject.map .concrete) arms).Repeats engine arms Γ returned
  | [], engine, _, _, _, _, reads, .nil =>
      ⟨engine, Arm.ends_nil.mpr ⟨rfl, rfl⟩, reads, .refl engine⟩
  | first :: rest, _, _, _, _, parsed, reads, .cons typed typedRest => by
      obtain ⟨between, ends, reads', grows⟩ := Arm.repeats subject first parsed.1 reads typed
      obtain ⟨last, ends', reads'', grows'⟩ := Arm.repeatsAll subject rest parsed.2 reads' typedRest
      refine ⟨last, Arm.ends_cons.mpr ⟨first, between, rest, ends, ends', rfl⟩, reads'', ?_⟩
      rw [List.map_append]
      exact grows.trans grows'
termination_by structural arms => arms

end

section Notes

variable {related : Option Term → Option Term → Prop}

theorem Stmt.Alike.of_declare {decl decl' : Variable}
    (alike : (Stmt.declare decl).Alike related (.declare decl')) :
    related decl.resolved decl'.resolved := by
  cases alike with
  | declare holds => exact holds

theorem Stmt.Alike.of_prototype {header header' : FunctionHeader}
    (alike : (Stmt.function header none).Alike related (.function header' none)) :
    related header.resolved header'.resolved := by
  cases alike with
  | prototype holds => exact holds

theorem Stmt.Alike.of_function {header header' : FunctionHeader} {body body' : List Stmt}
    (alike : (Stmt.function header (some body)).Alike related (.function header' (some body'))) :
    related header.resolved header'.resolved ∧ Stmt.AllAlike related body body' := by
  cases alike with
  | function holds same => exact ⟨holds, same⟩

end Notes

section Declarations

variable {engine engine' : Engine} {Γ : Env Binding} {ρ : Option Ty} {table : Table}

theorem Table.Settles.resolvedType? {type : Ty} {note : Option Term}
    (settles : table.Settles (some (.concrete type)) note) : note.bind Term.type? = some type := by
  rw [settles.of_type rfl]
  rfl

theorem Variable.exact_of_walk {decl decl' : Variable} {type : Ty} (reads : engine.Reads Γ)
    (typed : decl.Typed .plain Γ type) (free : Γ.Free decl.name)
    (ends : decl.walk.Ends engine decl' engine')
    (settles : table.Settles decl'.resolved decl.resolved) : decl.Typed .exact Γ type := by
  obtain ⟨founded, known, value, valued, stated, same, _⟩ := typed
  obtain ⟨follows, found⟩ := exists_follows founded known valued
  obtain ⟨_, ends', _⟩ := ends_walk_of_typed reads known valued found free
  obtain ⟨rfl, _⟩ := ends.unique ends'
  refine ⟨founded, known, value, valued, stated, same, ?_⟩
  exact settles.resolvedType?.trans found.symm

theorem FunctionHeader.exact_prototype {header : FunctionHeader} {s' : Stmt}
    (reads : engine.Reads Γ) (external : header.isExternal = true)
    (ends : (Stmt.function header none).walk.Ends engine s' engine')
    (settled : s'.Alike table.Settles (.function header none)) :
    header.resolvedType? = (header.returns.bind TypeName.type?).or
      (if header.isExternal then some .void else header.resolvedType?) := by
  obtain ⟨declared, term, yields, rfl⟩ := Stmt.ends_prototype.mp ends
  obtain ⟨_, _, _, isType, started, _⟩ := yields_function.mp yields
  obtain ⟨_, rfl⟩ := reads.sane.typeOf?_eq_ok_iff.mp isType
  have begun := (grows_orFresh started).2
  have settles := settled.of_prototype
  rw [if_pos external]
  cases written : header.returns.bind TypeName.type? with
  | some type =>
      rw [written] at begun
      rw [begun (.concrete type) rfl] at settles
      exact settles.resolvedType?
  | none =>
      rw [written] at begun
      rw [begun (.concrete .void) (by simp [knownResult, external])] at settles
      exact settles.resolvedType?

end Declarations

mutual

/-- If settling a walk over a typed statement gives back the statement, then its notes are
exactly what follows. -/
theorem Stmt.exact_of_walk {table : Table} : ∀ (s : Stmt) {s' : Stmt} {engine engine' : Engine}
    {Γ Γ' : Env Binding} {ρ : Option Ty} {returned : List Ty}, s.bare.Parsed →
      engine.Reads Γ → s.Typed .plain ρ Γ Γ' returned → s.walk.Ends engine s' engine' →
      s'.Alike table.Settles s → s.Typed .exact ρ Γ Γ' returned
  | .expr _, _, _, _, _, _, _, _, _, _, .expr typed, _, _ =>
      .expr typed
  | .comment text, _, _, _, _, _, _, _, _, _, .comment _, _, _ => .comment text
  | .use used, _, _, _, _, _, _, _, _, _, .use _, _, _ => .use used
  | .returns _, _, _, _, _, _, _, _, _, _, .returns typed fits, _, _ =>
      .returns typed fits
  | .declare decl, _, _, _, _, _, _, _, _, reads, .declare typed free, ends, settled => by
      obtain ⟨decl', ends', rfl⟩ := Stmt.ends_declare.mp ends
      exact .declare (Variable.exact_of_walk reads typed free ends' settled.of_declare) free
  | .function header none, _, _, _, _, _, _, _, parsed, reads, .prototype known known' free _,
      ends, settled =>
      .prototype known known' free
        (FunctionHeader.exact_prototype reads parsed.2 ends settled)
  | .function header (some body), _, _, _, _, _, _, _, parsed, reads,
      @Stmt.Typed.function _ _ _ inside _ _ _ _ returned _ known known' free taken typed _,
      ends, settled => by
      obtain ⟨declared, before, inner, start, body', final, term, yields, yields', walked,
        concluded, rfl⟩ := Stmt.ends_function.mp ends
      obtain ⟨settles, settledBody⟩ := settled.of_function
      obtain ⟨_, begun, reads'⟩ := yields_function_of_known reads known
        (FunctionHeader.returns_known known')
        (FunctionHeader.knownResult_eq parsed.2.1 known') free
      obtain ⟨same, rfl⟩ := yields.unique begun
      obtain ⟨rfl, rfl⟩ := Prod.mk.inj same
      have entered : inner.enter.Reads _ := reads'.enter.congr rfl rfl rfl
      obtain ⟨_, taken', inside'⟩ := yields_parameters_of_declared entered taken
      obtain ⟨_, rfl⟩ := yields'.unique taken'
      have exact := Stmt.exact_of_walkAll body parsed.2.2 inside' typed walked settledBody
      obtain ⟨last, walked', _, grows⟩ := Stmt.repeatsAll body parsed.2.2 inside' exact
      obtain ⟨_, rfl⟩ := walked.unique walked'
      have returns := ((grows_parameters yields').andThen grows).leave.2.1
      obtain ⟨rfl, _⟩ := concluded.unique
        (@yields_conclusion_of_typed _ header _ _ _ _ _ exact _ returns final.leave)
      refine .function known known' free taken exact (settles.resolvedType?.trans ?_)
      cases header.returns.bind TypeName.type? <;> rfl
  | .branch condition body alternate, _, _, _, _, _, _, _, parsed, reads,
      .branch typed isBool typedBody typedRest, ends, settled => by
      obtain ⟨between, body', last, alternate', yields, walked, walked', rfl⟩ :=
        Stmt.ends_branch.mp ends
      cases settled with
      | branch settledBody settledRest =>
          obtain ⟨_, rfl⟩ := yields.unique (yields_condition_of_typed reads.describes typed)
          have exact := Stmt.exact_of_walkAll body parsed.1 reads.enter typedBody walked
            settledBody
          obtain ⟨_, repeated, inside, grows⟩ :=
            Stmt.repeatsAll body parsed.1 reads.enter exact
          obtain ⟨_, rfl⟩ := walked.unique repeated
          have exact' := Alternate.exact_of_walk alternate parsed.2
            (reads.leaveBlock grows inside) typedRest walked' settledRest
          exact .branch typed isBool exact exact'
  | .loop condition body, _, _, _, _, _, _, _, parsed, reads, .loop typed isBool typedBody,
      ends, settled => by
      obtain ⟨between, body', last, yields, walked, _, rfl⟩ := Stmt.ends_loop.mp ends
      cases settled with
      | loop settledBody =>
          obtain ⟨_, rfl⟩ := yields.unique (yields_condition_of_typed reads.describes typed)
          exact .loop typed isBool
            (Stmt.exact_of_walkAll body parsed reads.enter typedBody walked settledBody)
  | .switch subject arms, _, _, _, _, _, _, _, parsed, reads, .switch typed typedArms,
      ends, settled => by
      obtain ⟨term, between, arms', yields, walked, rfl⟩ := Stmt.ends_switch.mp ends
      cases settled with
      | switch settledArms =>
          obtain ⟨rfl, rfl⟩ := yields.unique (typed.yields reads.describes)
          exact .switch typed
            (Arm.exact_of_walkAll (some _) arms parsed reads typedArms walked settledArms)
termination_by structural s => s

theorem Alternate.exact_of_walk {table : Table} : ∀ (alternate : Alternate)
    {alternate' : Alternate} {engine engine' : Engine} {Γ : Env Binding} {ρ : Option Ty}
    {returned : List Ty}, alternate.bare.Parsed → engine.Reads Γ →
      alternate.Typed .plain ρ Γ returned → alternate.walk.Ends engine alternate' engine' →
      alternate'.Alike table.Settles alternate → alternate.Typed .exact ρ Γ returned
  | .none, _, _, _, _, _, _, _, _, .none, _, _ => .none
  | .elseBranch condition body alternate, _, _, _, _, _, _, parsed, reads,
      .elseBranch typed isBool typedBody typedRest, ends, settled => by
      obtain ⟨between, body', last, alternate', yields, walked, walked', rfl⟩ :=
        Alternate.ends_elseBranch.mp ends
      cases settled with
      | elseBranch settledBody settledRest =>
          obtain ⟨_, rfl⟩ := yields.unique (yields_condition_of_typed reads.describes typed)
          have exact := Stmt.exact_of_walkAll body parsed.1 reads.enter typedBody walked
            settledBody
          obtain ⟨_, repeated, inside, grows⟩ :=
            Stmt.repeatsAll body parsed.1 reads.enter exact
          obtain ⟨_, rfl⟩ := walked.unique repeated
          have exact' := Alternate.exact_of_walk alternate parsed.2
            (reads.leaveBlock grows inside) typedRest walked' settledRest
          exact .elseBranch typed isBool exact exact'
  | .otherwise body, _, _, _, _, _, _, parsed, reads, .otherwise typedBody, ends, settled => by
      obtain ⟨body', last, walked, _, rfl⟩ := Alternate.ends_otherwise.mp ends
      cases settled with
      | otherwise settledBody =>
          exact .otherwise
            (Stmt.exact_of_walkAll body parsed reads.enter typedBody walked settledBody)
termination_by structural alternate => alternate

theorem Arm.exact_of_walk {table : Table} (subject : Option Ty) : ∀ (arm : Arm) {arm' : Arm}
    {engine engine' : Engine} {Γ : Env Binding} {ρ : Option Ty} {returned : List Ty},
      arm.bare.Parsed → engine.Reads Γ → arm.Typed .plain ρ subject Γ returned →
      (arm.walk (subject.map .concrete)).Ends engine arm' engine' →
      arm'.Alike table.Settles arm → arm.Typed .exact ρ subject Γ returned
  | .value pattern body, _, _, _, _, _, _, parsed, reads, .value typed fits typedBody, ends,
      settled => by
      obtain ⟨between, body', last, yields, walked, _, rfl⟩ := Arm.ends_value.mp ends
      cases settled with
      | value settledBody =>
          obtain ⟨_, rfl⟩ :=
            yields.unique (yields_pattern_of_typed reads.describes typed subject)
          exact .value typed fits
            (Stmt.exact_of_walkAll body parsed reads.enter typedBody walked settledBody)
  | .otherwise body, _, _, _, _, _, _, parsed, reads, .otherwise typedBody, ends, settled => by
      obtain ⟨body', last, walked, _, rfl⟩ := Arm.ends_otherwise.mp ends
      cases settled with
      | otherwise settledBody =>
          exact .otherwise
            (Stmt.exact_of_walkAll body parsed reads.enter typedBody walked settledBody)
termination_by structural arm => arm

theorem Stmt.exact_of_walkAll {table : Table} : ∀ (body : List Stmt) {body' : List Stmt}
    {engine engine' : Engine} {Γ Γ' : Env Binding} {ρ : Option Ty} {returned : List Ty},
      Stmt.AllParsed (Stmt.allBare body) → engine.Reads Γ →
      Stmt.TypedAll .plain ρ Γ body Γ' returned → (Stmt.walkAll body).Ends engine body' engine' →
      Stmt.AllAlike table.Settles body' body → Stmt.TypedAll .exact ρ Γ body Γ' returned
  | [], _, _, _, _, _, _, _, _, _, .nil, _, _ => .nil
  | first :: rest, _, _, _, _, _, _, _, parsed, reads, .cons typed typedRest, ends, settled => by
      obtain ⟨first', between, rest', walked, walked', rfl⟩ := Stmt.ends_cons.mp ends
      cases settled with
      | cons settledFirst settledRest =>
          have exact := Stmt.exact_of_walk first parsed.1 reads typed walked settledFirst
          obtain ⟨_, repeated, reads', _⟩ := Stmt.repeats first parsed.1 reads exact
          obtain ⟨_, rfl⟩ := walked.unique repeated
          exact .cons exact
            (Stmt.exact_of_walkAll rest parsed.2 reads' typedRest walked' settledRest)
termination_by structural body => body

theorem Arm.exact_of_walkAll {table : Table} (subject : Option Ty) : ∀ (arms : List Arm)
    {arms' : List Arm} {engine engine' : Engine} {Γ : Env Binding} {ρ : Option Ty}
    {returned : List Ty}, Arm.AllParsed (Arm.allBare arms) → engine.Reads Γ →
      Arm.TypedAll .plain ρ subject Γ arms returned →
      (Arm.walkAll (subject.map .concrete) arms).Ends engine arms' engine' →
      Arm.AllAlike table.Settles arms' arms → Arm.TypedAll .exact ρ subject Γ arms returned
  | [], _, _, _, _, _, _, _, _, .nil, _, _ => .nil
  | first :: rest, _, _, _, _, _, _, parsed, reads, .cons typed typedRest, ends, settled => by
      obtain ⟨first', between, rest', walked, walked', rfl⟩ := Arm.ends_cons.mp ends
      cases settled with
      | cons settledFirst settledRest =>
          have exact := Arm.exact_of_walk subject first parsed.1 reads typed walked settledFirst
          obtain ⟨_, repeated, reads', _⟩ := Arm.repeats subject first parsed.1 reads exact
          obtain ⟨_, rfl⟩ := walked.unique repeated
          exact .cons exact
            (Arm.exact_of_walkAll subject rest parsed.2 reads' typedRest walked' settledRest)
termination_by structural arms => arms

end

end SmallLang
