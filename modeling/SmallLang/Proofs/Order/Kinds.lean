import SmallLang.Proofs.Inference.Repeat
import SmallLang.Proofs.Order.Division
import SmallLang.Proofs.Order.Worth
import SmallLang.Proofs.Typing.SameKind

/-!
# Kinds of typed statements

A walk agrees with the kinds of the types in a typed program, as long as numbers of different kinds
are divided by each other only where their types are known. Only the names that a statement needs
have to have a meaning.
-/

set_option autoImplicit false

namespace SmallLang

namespace Binding

/-- What a declared name means. -/
def meaning (isOpen : Bool) : Binding → Meaning
  | .value type _ => ⟨none, type.kind, isOpen⟩
  | .function parameters result => ⟨some parameters, result.kind, isOpen⟩

theorem isOpen_meaning (isOpen : Bool) (binding : Binding) :
    (binding.meaning isOpen).isOpen = isOpen := by
  cases binding <;> rfl

end Binding

/-- A meaning says nothing of a name that its binding does not say. What a function takes may be
left open. -/
structure Meaning.Fits (meaning : Meaning) (binding : Binding) : Prop where
  kind : meaning.kind = binding.type.kind
  parameters : ∀ parameters ∈ meaning.parameters, ∃ result, binding = .function parameters result

theorem Binding.meaning_fits (isOpen : Bool) (binding : Binding) :
    (binding.meaning isOpen).Fits binding := by
  cases binding with
  | value => exact ⟨rfl, nofun⟩
  | function parameters result =>
      refine ⟨rfl, fun other known => ?_⟩
      cases known
      exact ⟨result, rfl⟩

namespace Env

/-- A name that has a type means what its type says. -/
def Agrees (Γ : Env Binding) (Δ : Env Meaning) (name : String) : Prop :=
  ∀ binding, Γ.lookup name = some binding →
    ∃ meaning, Δ.lookup name = some meaning ∧ meaning.Fits binding

variable {Γ : Env Binding} {Δ : Env Meaning} {name other : String}

theorem Agrees.enter (agrees : Γ.Agrees Δ name) : Γ.enter.Agrees Δ.enter name := by
  intro binding inScope
  rw [lookup_enter] at inScope ⊢
  exact agrees binding inScope

theorem Agrees.declare (binding : Binding) (isOpen : Bool)
    (agrees : other ≠ name → Γ.Agrees Δ other) :
    (Γ.declare name binding).Agrees (Δ.declare name (binding.meaning isOpen)) other := by
  intro found inScope
  rw [lookup_declare] at inScope ⊢
  split
  · next same =>
      rw [if_pos same] at inScope
      obtain rfl := Option.some.inj inScope
      exact ⟨_, rfl, binding.meaning_fits isOpen⟩
  · next differs =>
      rw [if_neg differs] at inScope
      exact agrees differs found inScope

end Env

theorem Expr.mem_names_of_symbol? {e : Expr} {name : String} (symbol : e.symbol? = some name) :
    name ∈ e.names := by
  rw [names_of_symbol? symbol]
  exact List.mem_cons_self

section Expressions

variable {Γ : Env Binding} {Δ : Env Meaning}

private theorem agrees_parts {first second : List String}
    (agrees : ∀ name ∈ first ++ second, Γ.Agrees Δ name) :
    (∀ name ∈ first, Γ.Agrees Δ name) ∧ ∀ name ∈ second, Γ.Agrees Δ name :=
  ⟨fun name present => agrees name (List.mem_append_left second present),
    fun name present => agrees name (List.mem_append_right first present)⟩

theorem BinaryOperator.resultKind_of_fixed {operator : BinaryOperator} {type : Ty}
    (fixed : operator.fixedResult? = some type) (left : Kind) :
    operator.resultKind left = type.kind := by
  rw [resultKind, fixed]

theorem BinaryOperator.resultKind_of_not_fixed {operator : BinaryOperator}
    (free : operator.fixedResult? = none) (left : Kind) : operator.resultKind left = left := by
  rw [resultKind, free]

private theorem worth_binary {operator : BinaryOperator} {left right : Expr} {first second : Ty}
    {kind : Kind} (worth : left.Worth Δ.lookup first.kind)
    (worth' : right.Worth Δ.lookup second.kind) (same : first.kind = second.kind)
    (result : operator.resultKind first.kind = kind) :
    (Expr.binary operator left right).Worth Δ.lookup kind := by
  rw [← same] at worth'
  rw [← result]
  exact .binary worth worth'

mutual

/-- A walk agrees with the kind of a typed expression. -/
theorem Expr.HasType.worth : ∀ {e : Expr} {type : Ty}, e.HasType Γ type →
    Expr.DividesKnown Γ Δ.unknown e.parts → (∀ name ∈ e.names, Γ.Agrees Δ name) →
    e.Worth Δ.lookup type.kind
  | e, _, @Expr.HasType.symbol _ _ _ binding symbol inScope, _, agrees => by
      obtain ⟨meaning, known, fits⟩ := agrees _ (e.mem_names_of_symbol? symbol) binding inScope
      rw [← fits.kind]
      exact .symbol symbol known
  | .call callee _, _, @Expr.HasType.call _ _ _ _ _ _ result symbol inScope typed fits, divides,
    agrees => by
      obtain ⟨agrees, agrees'⟩ := agrees_parts agrees
      obtain ⟨meaning, known, meant⟩ := agrees _ (callee.mem_names_of_symbol? symbol) _ inScope
      have divides' := divides.mono
        (List.Subset.trans (List.subset_append_right ..) (List.subset_cons_self ..))
      rw [show result.kind = meaning.kind from meant.kind.symm]
      refine .call symbol known (Expr.HaveTypes.worth typed divides' agrees') ?_
      intro parameters stated
      obtain ⟨_, same⟩ := meant.parameters parameters stated
      cases same
      exact (forall₂_kind_iff.mp fits).symm
  | _, _, .arithmetic arithmetic notDivide typed typed' _ same, divides, agrees => by
      obtain ⟨left, right⟩ := divides.operands
      exact worth_binary (Expr.HasType.worth typed left (agrees_parts agrees).1)
        (Expr.HasType.worth typed' right (agrees_parts agrees).2) same
        (BinaryOperator.resultKind_of_not_fixed
          (BinaryOperator.fixedResult?_of_isArithmetic arithmetic notDivide) _)
  | .binary _ left right, _, .divide typed typed' _ _, divides, agrees => by
      obtain ⟨first, second⟩ := divides.operands
      have worth := Expr.HasType.worth typed first (agrees_parts agrees).1
      have worth' := Expr.HasType.worth typed' second (agrees_parts agrees).2
      obtain same | ⟨known, known'⟩ := divides left right List.mem_cons_self
      · rw [typed.kind?_eq, typed'.kind?_eq] at same
        exact worth_binary worth worth' (Option.some.inj same) rfl
      · exact .divide worth worth' known known'
  | _, _, .comparison comparison typed typed' same _, divides, agrees => by
      obtain ⟨left, right⟩ := divides.operands
      exact worth_binary (Expr.HasType.worth typed left (agrees_parts agrees).1)
        (Expr.HasType.worth typed' right (agrees_parts agrees).2) same
        (BinaryOperator.resultKind_of_fixed
          (BinaryOperator.fixedResult?_of_isComparison comparison) _)
  | _, _, .connective logical typed typed' isBool isBool', divides, agrees => by
      obtain ⟨left, right⟩ := divides.operands
      exact worth_binary (Expr.HasType.worth typed left (agrees_parts agrees).1)
        (Expr.HasType.worth typed' right (agrees_parts agrees).2) (isBool.trans isBool'.symm)
        (BinaryOperator.resultKind_of_fixed (BinaryOperator.fixedResult?_of_isLogical logical) _)
  | _, _, .negate typed _, divides, agrees =>
      .negate (Expr.HasType.worth typed (divides.mono (List.subset_cons_self ..)) agrees)
  | _, _, .not typed isBool, divides, agrees => by
      have worth := Expr.HasType.worth typed (divides.mono (List.subset_cons_self ..)) agrees
      rw [isBool] at worth
      rw [isBool]
      exact .not worth
  | .postfixed operator (.identifier name position), _, .step inScope _ _, _, agrees => by
      obtain ⟨meaning, known, fits⟩ := agrees name (List.mem_singleton.mpr rfl) _ inScope
      rw [← fits.kind]
      exact .step (.symbol (e := .identifier name position) rfl known)
  | _, _, .number text, _, _ => .number text
  | _, _, .string value, _, _ => .string value
  | _, _, .boolean value, _, _ => .boolean value
  | _, _, .null, _, _ => .null

theorem Expr.HaveTypes.worth : ∀ {expressions : List Expr} {types : List Ty},
    Expr.HaveTypes Γ expressions types →
      Expr.DividesKnown Γ Δ.unknown (Expr.allParts expressions) →
      (∀ name ∈ Expr.allNames expressions, Γ.Agrees Δ name) →
      Expr.AllWorth Δ.lookup expressions (types.map Ty.kind)
  | _, _, .nil, _, _ => .nil
  | _, _, .cons typed typedRest, divides, agrees =>
      .cons
        (Expr.HasType.worth typed (divides.mono (List.subset_append_left ..))
          (agrees_parts agrees).1)
        (Expr.HaveTypes.worth typedRest (divides.mono (List.subset_append_right ..))
          (agrees_parts agrees).2)

end

end Expressions

section Returns

variable {rules : Discipline}

mutual

/-- The types that a statement returns are as many as its returns. -/
theorem Stmt.Typed.length_eq : ∀ {s : Stmt} {ρ : Option Ty} {Γ Γ' : Env Binding}
    {returned : List Ty}, s.Typed rules ρ Γ Γ' returned → returned.length = s.returnCount
  | _, _, _, _, _, .expr _ | _, _, _, _, _, .comment _ | _, _, _, _, _, .use _
  | _, _, _, _, _, .parameter .. | _, _, _, _, _, .declare .. | _, _, _, _, _, .prototype ..
  | _, _, _, _, _, .function .. | _, _, _, _, _, .returns .. => rfl
  | _, _, _, _, _, .branch _ _ typedBody typedRest => by
      rw [List.length_append, Stmt.TypedAll.length_eq typedBody,
        Alternate.Typed.length_eq typedRest, Stmt.returnCount]
  | _, _, _, _, _, .loop _ _ typedBody => Stmt.TypedAll.length_eq typedBody
  | _, _, _, _, _, .switch _ typedArms => Arm.TypedAll.length_eq typedArms
  | _, _, _, _, _, .arm typed => Arm.Typed.length_eq typed
  | _, _, _, _, _, .merged typed => Stmt.TypedAll.length_eq typed

theorem Alternate.Typed.length_eq : ∀ {alternate : Alternate} {ρ : Option Ty} {Γ : Env Binding}
    {returned : List Ty}, alternate.Typed rules ρ Γ returned →
      returned.length = alternate.returnCount
  | _, _, _, _, .none => rfl
  | _, _, _, _, .elseBranch _ _ typedBody typedRest => by
      rw [List.length_append, Stmt.TypedAll.length_eq typedBody,
        Alternate.Typed.length_eq typedRest, Alternate.returnCount]
  | _, _, _, _, .otherwise typedBody => Stmt.TypedAll.length_eq typedBody

theorem Arm.Typed.length_eq : ∀ {arm : Arm} {ρ subject : Option Ty} {Γ : Env Binding}
    {returned : List Ty}, arm.Typed rules ρ subject Γ returned → returned.length = arm.returnCount
  | _, _, _, _, _, .value _ _ typedBody | _, _, _, _, _, .otherwise typedBody =>
      Stmt.TypedAll.length_eq typedBody

theorem Stmt.TypedAll.length_eq : ∀ {body : List Stmt} {ρ : Option Ty} {Γ Γ' : Env Binding}
    {returned : List Ty}, Stmt.TypedAll rules ρ Γ body Γ' returned →
      returned.length = Stmt.returnCountAll body
  | _, _, _, _, _, .nil => rfl
  | _, _, _, _, _, .cons typed typedRest => by
      rw [List.length_append, Stmt.Typed.length_eq typed, Stmt.TypedAll.length_eq typedRest,
        Stmt.returnCountAll]

theorem Arm.TypedAll.length_eq : ∀ {arms : List Arm} {ρ subject : Option Ty} {Γ : Env Binding}
    {returned : List Ty}, Arm.TypedAll rules ρ subject Γ arms returned →
      returned.length = Arm.returnCountAll arms
  | _, _, _, _, _, .nil => rfl
  | _, _, _, _, _, .cons typed typedRest => by
      rw [List.length_append, Arm.Typed.length_eq typed, Arm.TypedAll.length_eq typedRest,
        Arm.returnCountAll]

end

end Returns

section Declarations

variable {Γ Γ' : Env Binding} {Δ : Env Meaning}

theorem Expr.HasType?.worth {value : Option Expr} {found : Option Ty}
    (typed : HasType? Γ value found)
    (divides : Expr.DividesKnown Γ Δ.unknown (Expr.allParts value.toList))
    (agrees : ∀ name ∈ Expr.names? value, Γ.Agrees Δ name) :
    Expr.Worth? Δ.lookup value (found.map Ty.kind) := by
  cases typed with
  | none => exact .none
  | some typed => exact .some (typed.worth (divides.mono (List.subset_append_left ..)) agrees)

theorem Notes.exists_type {note : Option Term} (notes : Notes Term.IsType note) :
    ∃ type, note = some (.concrete type) := by
  obtain ⟨term, rfl, isType⟩ := notes
  cases term with
  | concrete type => exact ⟨type, rfl⟩
  | pending => cases isType

/-- What is noted in a typed variable is the type that it has. -/
theorem Variable.Typed.resolved_eq {rules : Discipline} {decl : Variable} {type : Ty}
    (typed : decl.Typed rules Γ type) (written : NotesType decl.typeName decl.resolved)
    (notes : decl.value.isSome → Notes Term.IsType decl.resolved) :
    decl.resolved = some (.concrete type) := by
  obtain ⟨founded, _, value, _, stated, _, _⟩ := typed
  unfold Variable.statedType? at stated
  cases named : decl.typeName with
  | some typeName =>
      obtain ⟨other, isType, noted⟩ := written typeName named
      rw [named] at stated
      simp only [isType, Option.some_or, Option.some.injEq] at stated
      rw [noted, stated]
  | none =>
      rw [named] at founded stated
      obtain ⟨other, noted⟩ := (notes (founded.resolve_left nofun)).exists_type
      simp only [resolvedType?, noted, Option.bind_some, Term.type?, Option.some_or,
        Option.some.injEq] at stated
      rw [noted, stated]

/-- What follows from the parts of a typed variable is of the kind of the type that it has. -/
theorem Variable.map_kind_follows {decl : Variable} {value : Option Ty} {type : Ty}
    (known : ∀ typeName ∈ decl.typeName, typeName.type?.isSome)
    (stated : decl.statedType?.or value = some type)
    (same : ∀ stated ∈ decl.statedType?, ∀ found ∈ value, stated.kind = found.kind)
    (noted : decl.resolved = some (.concrete type))
    (follows : ∃ found, (decl.typeName.bind TypeName.type?).or value = some found) :
    ((decl.typeName.bind TypeName.type?).or value).map Ty.kind = some type.kind := by
  have resolved : decl.resolvedType? = some type := by rw [resolvedType?, noted]; rfl
  rw [← annotated_or_resolved known] at stated same
  cases written : decl.typeName.bind TypeName.type? with
  | some other =>
      rw [written] at stated
      obtain rfl := Option.some.inj stated
      rfl
  | none =>
      obtain ⟨found, hasFound⟩ := follows
      rw [written, Option.none_or] at hasFound same
      rw [Option.none_or, hasFound, Option.map_some, same type resolved found hasFound]

theorem Variable.Typed.worth {decl : Variable} {type : Ty} (typed : decl.Typed .plain Γ type)
    (noted : decl.resolved = some (.concrete type))
    (divides : Expr.DividesKnown Γ Δ.unknown (Expr.allParts decl.value.toList))
    (agrees : ∀ name ∈ Expr.names? decl.value, Γ.Agrees Δ name) :
    ∃ found, Expr.Worth? Δ.lookup decl.value found ∧
      ((decl.typeName.bind TypeName.type?).map Ty.kind).or found = some type.kind := by
  obtain ⟨founded, known, value, valued, stated, same, _⟩ := typed
  refine ⟨value.map Ty.kind, valued.worth divides agrees, ?_⟩
  rw [← Option.map_or]
  exact decl.map_kind_follows known stated same noted (exists_follows founded known valued)

/-- What is noted in a typed function is its result. -/
theorem FunctionHeader.resolved_eq {header : FunctionHeader} {result : Ty}
    (known : header.resultType? = some result) (notes : Notes Term.IsType header.resolved)
    (written : NotesType header.returns header.resolved) :
    header.resolved = some (.concrete result) := by
  obtain ⟨type, noted⟩ := notes.exists_type
  have resolved : header.resolvedType? = some type := by rw [resolvedType?, noted]; rfl
  unfold FunctionHeader.resultType? at known
  cases named : header.returns with
  | some typeName =>
      obtain ⟨other, isType, noted'⟩ := written typeName named
      rw [named] at known
      rw [noted', Option.some.inj (isType.symm.trans known)]
  | none =>
      rw [named, resolved] at known
      rw [noted, Option.some.inj known]

/-- The result of a function without a body is the type that is written, or else `void`. -/
theorem FunctionHeader.result_of_prototype {header : FunctionHeader} {result : Ty}
    (known : header.resultType? = some result)
    (noted : header.resolved = some (.concrete result))
    (void : header.returns = none → header.resolved = some (.concrete .void)) :
    (header.returns.bind TypeName.type?).getD .void = result := by
  unfold FunctionHeader.resultType? at known
  cases written : header.returns with
  | some typeName =>
      rw [written] at known
      rw [Option.bind_some, show typeName.type? = some result from known]
      rfl
  | none =>
      have same := void written
      rw [noted] at same
      cases same
      rfl

theorem FunctionHeader.concludes {rules : Discipline} {header : FunctionHeader}
    {result : Ty} {inside last : Env Binding} {body : List Stmt} {returned : List Ty}
    (known : header.resultType? = some result)
    (noted : header.resolved = some (.concrete result))
    (void : header.returns = none → Stmt.returnCountAll body = 0 →
      header.resolved = some (.concrete .void))
    (typed : Stmt.TypedAll rules (some result) inside body last returned) :
    header.Concludes (returned.map Ty.kind) result.kind := by
  unfold Concludes
  cases written : header.returns with
  | some typeName =>
      unfold FunctionHeader.resultType? at known
      rw [written] at known
      rw [Option.bind_some, show typeName.type? = some result from known]
  | none =>
      refine ⟨?_, fun empty => ?_⟩
      · intro kind present
        obtain ⟨type, returns, rfl⟩ := List.mem_map.mp present
        exact (typed.kind_of_mem type returns).symm
      · rw [List.map_eq_nil_iff] at empty
        have same := void written (typed.length_eq.symm.trans (empty ▸ rfl))
        rw [noted] at same
        cases same
        rfl

theorem Parameter.Declared.worth {parameters : List Parameter}
    (declared : Parameter.Declared Γ parameters Γ') :
    ∀ {Δ : Env Meaning}, Γ.Covers Δ →
      ∃ Δ', Parameter.Worth Δ parameters Δ' ∧ Γ'.Covers Δ' ∧
        ∀ name, (name ∉ parameters.map (·.name) → Γ.Agrees Δ name) → Γ'.Agrees Δ' name := by
  induction declared with
  | nil => exact fun covers => ⟨_, .nil, covers, fun _ agrees => agrees List.not_mem_nil⟩
  | @cons Γ _ param rest type isType free _ ih =>
      intro Δ covers
      obtain ⟨Δ', worth, covers', agrees'⟩ := ih (covers.declare param.name
        (.value type true) (Binding.meaning false (.value type true)))
      refine ⟨Δ', .cons isType (covers.free free) worth, covers', fun name agrees => ?_⟩
      refine agrees' name fun missing => Env.Agrees.declare _ false fun differs => agrees ?_
      rw [List.map_cons, List.mem_cons]
      exact not_or.mpr ⟨differs, missing⟩

end Declarations

section Statements

variable {Γ Γ' : Env Binding} {Δ : Env Meaning}

private theorem agrees_enter {names : List String} (agrees : ∀ name ∈ names, Γ.Agrees Δ name) :
    ∀ name ∈ names, Γ.enter.Agrees Δ.enter name :=
  fun name present => (agrees name present).enter

private theorem agrees_declared {later : List String} {name : String} (binding : Binding)
    (isOpen : Bool) (agrees : ∀ other ∈ later.filter (· != name), Γ.Agrees Δ other) :
    ∀ other ∈ later, (Γ.declare name binding).Agrees (Δ.declare name (binding.meaning isOpen))
      other := by
  intro other present
  refine Env.Agrees.declare binding isOpen fun differs => agrees other ?_
  exact List.mem_filter.mpr ⟨present, bne_iff_ne.mpr differs⟩

/-- The environments in which the body of a typed function is walked. -/
theorem Parameter.Declared.inside {header : FunctionHeader} {parameters : List Ty} {result : Ty}
    {inside : Env Binding} (known : header.parameterTypes? = some parameters)
    (states : header.resultType? = some result)
    (declared : Parameter.Declared (Γ.declare header.name (.function parameters result)).enter
      header.parameters inside) :
    (Γ.declare? header.name header.binding?).enter.afterParameters header.parameters = inside := by
  rw [FunctionHeader.binding?_eq_some known states, Env.declare?, declared.afterParameters_eq]

mutual

/-- A walk agrees with the kinds in a typed statement. -/
theorem Stmt.Typed.worth : ∀ {s : Stmt} {ρ : Option Ty} {Γ Γ' : Env Binding}
    {returned : List Ty} {Δ : Env Meaning} {later : List String},
    s.Typed .plain ρ Γ Γ' returned → s.Noted Term.IsType → s.bare.Parsed →
      (∀ name ∈ s.needs later, Γ.Agrees Δ name) → s.DividesKnown Γ Δ.unknown →
      (∀ name ∈ s.declared?, Δ.Free name) →
      ∃ Δ' kinds, s.bare.Worth Δ Δ' (returned.map Ty.kind) kinds ∧
        List.Forall₂ NotesKind s.notes kinds ∧ (∀ name ∈ later, Γ'.Agrees Δ' name) ∧
        (Γ.Covers Δ → Γ'.Covers Δ')
  | _, _, _, _, _, _, _, .expr typed, _, _, agrees, divides, _ =>
      ⟨_, _, .expr (typed.worth divides (agrees_parts agrees).1), .nil, (agrees_parts agrees).2, id⟩
  | _, _, _, _, _, _, _, .comment text, _, _, agrees, _, _ =>
      ⟨_, _, .comment text, .nil, agrees, id⟩
  | _, _, _, _, _, _, _, .use used, _, _, agrees, _, _ => ⟨_, _, .use used, .nil, agrees, id⟩
  | _, _, _, _, _, _, _, @Stmt.Typed.returns _ _ _ _ found typed _, _, _, agrees, divides, _ => by
      refine ⟨_, _, ?_, .nil, (agrees_parts agrees).2, id⟩
      have worth := Stmt.Worth.returns (typed.worth divides (agrees_parts agrees).1)
      cases found <;> exact worth
  | .declare decl, _, _, _, _, Δ, _, .declare typed free, noted, _, agrees, divides, new => by
      have resolved := typed.resolved_eq noted.1 noted.2
      obtain ⟨found, valued, follows⟩ := typed.worth resolved divides (agrees_parts agrees).1
      refine ⟨_, _, ?_, .cons ⟨_, resolved, rfl⟩ .nil,
        agrees_declared _ (decl.isOpen Δ.unknown) (agrees_parts agrees).2,
        fun covers => covers.declare _ _ _⟩
      exact @Stmt.Worth.declare _ { decl with resolved := none } _ _ typed.known valued
        follows (new _ rfl)
  | .function header none, _, _, _, _, _, _, @Stmt.Typed.prototype _ _ _ _ parameters result known
      states free _, noted, parsed, agrees, _, new => by
      have resolved := header.resolved_eq states noted.1 noted.2.1
      refine ⟨_, _, ?_, .cons ⟨_, resolved, rfl⟩ .nil,
        agrees_declared (.function parameters result) false agrees,
        fun covers => covers.declare _ _ _⟩
      have worth := @Stmt.Worth.prototype _ { header with resolved := none } parameters
        known (header.returns_known states) parsed.2 (new _ rfl)
      rwa [header.result_of_prototype states resolved fun written =>
        noted.2.2 written parsed.2] at worth
  | .function header (some body), _, Γ, _, _, Δ, _, @Stmt.Typed.function _ _ _ inside _ _ _
      parameters _ result known states free declared typed _, noted, parsed, agrees, divides,
      new => by
      obtain ⟨agrees, agrees'⟩ := agrees_parts agrees
      have resolved := header.resolved_eq states noted.1 noted.2.1
      let binding := Binding.function parameters result
      obtain ⟨start, taken, covers, agrees''⟩ := declared.worth
        (Env.Covers.enter (Γ.declare header.name binding)
          (Δ.declare header.name (binding.meaning header.returns.isNone)))
      have divides' : Stmt.AllDivideKnown body inside start.unknown := by
        rw [FunctionHeader.unknown_inside taken (binding.isOpen_meaning _),
          ← declared.inside known states]
        exact divides
      obtain ⟨last, kinds, worth, notes, _⟩ := Stmt.TypedAll.worth typed noted.2.2.2 parsed.2.2
        (fun name present => agrees'' name fun missing => Env.Agrees.enter
          (Env.Agrees.declare binding _ fun differs => agrees name (List.mem_filter.mpr
            ⟨present, by simpa [differs] using missing⟩)))
        divides' covers
      refine ⟨_, _, ?_, .cons ⟨_, resolved, rfl⟩ notes,
        agrees_declared binding
          (header.isOpen (Stmt.allOpenReturns body (header.unknownInside Δ.unknown))) agrees',
        fun covers => covers.declare _ _ _⟩
      rw [← Stmt.allOpenReturns_bare]
      exact @Stmt.Worth.function _ _ _ { header with resolved := none } _ _ _ _ _ known
        (header.returns_known states) parsed.2.1 rfl (new _ rfl) taken worth
        (header.concludes states resolved noted.2.2.1 typed)
  | _, _, _, _, _, _, _, .branch typed isBool typedBody typedRest, noted, parsed, agrees, divides,
      _ => by
      obtain ⟨agrees, agrees'⟩ := agrees_parts agrees
      obtain ⟨agrees, others⟩ := agrees_parts agrees
      obtain ⟨agrees, inside⟩ := agrees_parts agrees
      obtain ⟨_, kinds, worth, notes, _⟩ := Stmt.TypedAll.worth typedBody noted.1 parsed.1
        (agrees_enter inside) divides.2.1 (Env.Covers.enter _ _)
      obtain ⟨kinds', worth', notes'⟩ :=
        Alternate.Typed.worth typedRest noted.2 parsed.2 others divides.2.2
      have worthCondition := typed.worth divides.1 agrees
      rw [isBool] at worthCondition
      refine ⟨_, _, ?_, List.rel_append notes notes', agrees', id⟩
      rw [List.map_append]
      exact .branch worthCondition worth worth'
  | _, _, _, _, _, _, _, .loop typed isBool typedBody, noted, parsed, agrees, divides, _ => by
      obtain ⟨agrees, agrees'⟩ := agrees_parts agrees
      obtain ⟨agrees, inside⟩ := agrees_parts agrees
      obtain ⟨_, kinds, worth, notes, _⟩ := Stmt.TypedAll.worth typedBody noted parsed
        (agrees_enter inside) divides.2 (Env.Covers.enter _ _)
      have worthCondition := typed.worth divides.1 agrees
      rw [isBool] at worthCondition
      exact ⟨_, _, .loop worthCondition worth, notes, agrees', id⟩
  | _, _, _, _, _, _, _, .switch typed typedArms, noted, parsed, agrees, divides, _ => by
      obtain ⟨agrees, agrees'⟩ := agrees_parts agrees
      obtain ⟨agrees, inside⟩ := agrees_parts agrees
      obtain ⟨kinds, worth, notes⟩ := Arm.TypedAll.worth typedArms noted parsed inside divides.2
      exact ⟨_, _, .switch (typed.worth divides.1 agrees) worth, notes, agrees', id⟩
  | _, _, _, _, _, _, _, .arm _, _, parsed, _, _, _ => by cases parsed
  | _, _, _, _, _, _, _, .merged _, _, parsed, _, _, _ => by cases parsed
  | _, _, _, _, _, _, _, .parameter .., _, parsed, _, _, _ => by cases parsed

theorem Alternate.Typed.worth : ∀ {alternate : Alternate} {ρ : Option Ty} {Γ : Env Binding}
    {returned : List Ty} {Δ : Env Meaning}, alternate.Typed .plain ρ Γ returned →
      alternate.Noted Term.IsType → alternate.bare.Parsed →
      (∀ name ∈ alternate.needs, Γ.Agrees Δ name) → alternate.DividesKnown Γ Δ.unknown →
      ∃ kinds, alternate.bare.Worth Δ (returned.map Ty.kind) kinds ∧
        List.Forall₂ NotesKind alternate.notes kinds
  | _, _, _, _, _, .none, _, _, _, _ => ⟨_, .none, .nil⟩
  | _, _, _, _, _, .elseBranch typed isBool typedBody typedRest, noted, parsed, agrees,
      divides => by
      obtain ⟨agrees, others⟩ := agrees_parts agrees
      obtain ⟨agrees, inside⟩ := agrees_parts agrees
      obtain ⟨_, kinds, worth, notes, _⟩ := Stmt.TypedAll.worth typedBody noted.1 parsed.1
        (agrees_enter inside) divides.2.1 (Env.Covers.enter _ _)
      obtain ⟨kinds', worth', notes'⟩ :=
        Alternate.Typed.worth typedRest noted.2 parsed.2 others divides.2.2
      have worthCondition := typed.worth divides.1 agrees
      rw [isBool] at worthCondition
      refine ⟨_, ?_, List.rel_append notes notes'⟩
      rw [List.map_append]
      exact .elseBranch worthCondition worth worth'
  | _, _, _, _, _, .otherwise typedBody, noted, parsed, agrees, divides => by
      obtain ⟨_, kinds, worth, notes, _⟩ := Stmt.TypedAll.worth typedBody noted parsed
        (agrees_enter agrees) divides (Env.Covers.enter _ _)
      exact ⟨_, .otherwise worth, notes⟩

theorem Arm.Typed.worth : ∀ {arm : Arm} {ρ : Option Ty} {subject : Ty} {Γ : Env Binding}
    {returned : List Ty} {Δ : Env Meaning},
    arm.Typed .plain ρ (some subject) Γ returned → arm.Noted Term.IsType → arm.bare.Parsed →
      (∀ name ∈ arm.needs, Γ.Agrees Δ name) → arm.DividesKnown Γ Δ.unknown →
      ∃ kinds, arm.bare.Worth subject.kind Δ (returned.map Ty.kind) kinds ∧
        List.Forall₂ NotesKind arm.notes kinds
  | _, _, _, _, _, _, .value typed fits typedBody, noted, parsed, agrees, divides => by
      obtain ⟨agrees, inside⟩ := agrees_parts agrees
      obtain ⟨_, kinds, worth, notes, _⟩ := Stmt.TypedAll.worth typedBody noted parsed
        (agrees_enter inside) divides.2 (Env.Covers.enter _ _)
      have worthPattern := typed.worth divides.1 agrees
      rw [← fits _ rfl] at worthPattern
      exact ⟨_, .value worthPattern worth, notes⟩
  | _, _, _, _, _, _, .otherwise typedBody, noted, parsed, agrees, divides => by
      obtain ⟨_, kinds, worth, notes, _⟩ := Stmt.TypedAll.worth typedBody noted parsed
        (agrees_enter agrees) divides (Env.Covers.enter _ _)
      exact ⟨_, .otherwise worth, notes⟩

theorem Stmt.TypedAll.worth : ∀ {body : List Stmt} {ρ : Option Ty} {Γ Γ' : Env Binding}
    {returned : List Ty} {Δ : Env Meaning} {later : List String},
    Stmt.TypedAll .plain ρ Γ body Γ' returned → Stmt.AllNoted Term.IsType body →
      Stmt.AllParsed (Stmt.allBare body) → (∀ name ∈ Stmt.allNeeds later body, Γ.Agrees Δ name) →
      Stmt.AllDivideKnown body Γ Δ.unknown → Γ.Covers Δ →
      ∃ Δ' kinds, Stmt.AllWorth Δ (Stmt.allBare body) Δ' (returned.map Ty.kind) kinds ∧
        List.Forall₂ NotesKind (Stmt.allNotes body) kinds ∧ ∀ name ∈ later, Γ'.Agrees Δ' name
  | _, _, _, _, _, _, _, .nil, _, _, agrees, _, _ => ⟨_, _, .nil, .nil, agrees⟩
  | first :: _, _, _, _, _, _, _, .cons typed typedRest, noted, parsed, agrees, divides,
      covers => by
      obtain ⟨divides, divides'⟩ := divides
      obtain ⟨Δ', kinds, worth, notes, agrees', covers'⟩ := Stmt.Typed.worth typed noted.1 parsed.1
        agrees divides fun name declared => covers.free (typed.free name declared)
      rw [typed.after_eq noted.1, ← first.unknownAfter_bare, ← worth.unknown_eq] at divides'
      obtain ⟨Δ'', kinds', worth', notes', agrees''⟩ := Stmt.TypedAll.worth typedRest noted.2
        parsed.2 agrees' divides' (covers' covers)
      refine ⟨Δ'', _, ?_, List.rel_append notes notes', agrees''⟩
      rw [List.map_append]
      exact .cons worth worth'

theorem Arm.TypedAll.worth : ∀ {arms : List Arm} {ρ : Option Ty} {subject : Ty}
    {Γ : Env Binding} {returned : List Ty} {Δ : Env Meaning},
    Arm.TypedAll .plain ρ (some subject) Γ arms returned → Arm.AllNoted Term.IsType arms →
      Arm.AllParsed (Arm.allBare arms) → (∀ name ∈ Arm.allNeeds arms, Γ.Agrees Δ name) →
      Arm.AllDivideKnown arms Γ Δ.unknown →
      ∃ kinds, Arm.AllWorth subject.kind Δ (Arm.allBare arms) (returned.map Ty.kind) kinds ∧
        List.Forall₂ NotesKind (Arm.allNotes arms) kinds
  | _, _, _, _, _, _, .nil, _, _, _, _ => ⟨_, .nil, .nil⟩
  | _, _, _, _, _, _, .cons typed typedRest, noted, parsed, agrees, divides => by
      obtain ⟨kinds, worth, notes⟩ :=
        Arm.Typed.worth typed noted.1 parsed.1 (agrees_parts agrees).1 divides.1
      obtain ⟨kinds', worth', notes'⟩ := Arm.TypedAll.worth typedRest noted.2 parsed.2
        (agrees_parts agrees).2 divides.2
      refine ⟨_, ?_, List.rel_append notes notes'⟩
      rw [List.map_append]
      exact .cons worth worth'

end

end Statements

end SmallLang
