import SmallLang.Proofs.Inference.Frame
import SmallLang.Proofs.Tree.Notes

/-!
# What a walk notes

A successful walk writes a term into every declaration with a type or a value, and into every
function. Where the declaration states its type, the term is that type; a function without a
return that states no type returns nothing.
-/

set_option autoImplicit false

namespace SmallLang

open Infer Walk

mutual

/-- The number of returns of the function around a statement in the statement. -/
def Stmt.returnCount : Stmt → Nat
  | .returns _ => 1
  | .branch _ body alternate => Stmt.returnCountAll body + alternate.returnCount
  | .loop _ body => Stmt.returnCountAll body
  | .switch _ arms => Arm.returnCountAll arms
  | .arm single => single.returnCount
  | .merged body => Stmt.returnCountAll body
  | .expr _ | .comment _ | .use _ | .parameter _ | .declare _ | .function .. => 0

def Alternate.returnCount : Alternate → Nat
  | .none => 0
  | .elseBranch _ body alternate => Stmt.returnCountAll body + alternate.returnCount
  | .otherwise body => Stmt.returnCountAll body

def Arm.returnCount : Arm → Nat
  | .value _ body => Stmt.returnCountAll body
  | .otherwise body => Stmt.returnCountAll body

def Stmt.returnCountAll : List Stmt → Nat
  | [] => 0
  | first :: rest => first.returnCount + Stmt.returnCountAll rest

def Arm.returnCountAll : List Arm → Nat
  | [] => 0
  | first :: rest => first.returnCount + Arm.returnCountAll rest

end

section Alike

variable {related : Option Term → Option Term → Prop}

mutual

theorem Stmt.Alike.returnCount_eq : ∀ {s s' : Stmt}, s.Alike related s' →
    s.returnCount = s'.returnCount
  | _, _, .expr _ | _, _, .comment _ | _, _, .use _ | _, _, .parameter _ | _, _, .returns _
  | _, _, .declare _ | _, _, .prototype _ | _, _, .function .. => rfl
  | _, _, .branch body alternate => by
      simp only [Stmt.returnCount, Stmt.AllAlike.returnCountAll_eq body,
        Alternate.Alike.returnCount_eq alternate]
  | _, _, .loop body => Stmt.AllAlike.returnCountAll_eq body
  | _, _, .switch arms => Arm.AllAlike.returnCountAll_eq arms
  | _, _, .arm single => Arm.Alike.returnCount_eq single
  | _, _, .merged body => Stmt.AllAlike.returnCountAll_eq body

theorem Alternate.Alike.returnCount_eq : ∀ {alternate alternate' : Alternate},
    alternate.Alike related alternate' → alternate.returnCount = alternate'.returnCount
  | _, _, .none => rfl
  | _, _, .elseBranch body alternate => by
      simp only [Alternate.returnCount, Stmt.AllAlike.returnCountAll_eq body,
        Alternate.Alike.returnCount_eq alternate]
  | _, _, .otherwise body => Stmt.AllAlike.returnCountAll_eq body

theorem Arm.Alike.returnCount_eq : ∀ {arm arm' : Arm}, arm.Alike related arm' →
    arm.returnCount = arm'.returnCount
  | _, _, .value body => Stmt.AllAlike.returnCountAll_eq body
  | _, _, .otherwise body => Stmt.AllAlike.returnCountAll_eq body

theorem Stmt.AllAlike.returnCountAll_eq : ∀ {body body' : List Stmt},
    Stmt.AllAlike related body body' → Stmt.returnCountAll body = Stmt.returnCountAll body'
  | _, _, .nil => rfl
  | _, _, .cons first rest => by
      simp only [Stmt.returnCountAll, Stmt.Alike.returnCount_eq first,
        Stmt.AllAlike.returnCountAll_eq rest]

theorem Arm.AllAlike.returnCountAll_eq : ∀ {arms arms' : List Arm},
    Arm.AllAlike related arms arms' → Arm.returnCountAll arms = Arm.returnCountAll arms'
  | _, _, .nil => rfl
  | _, _, .cons first rest => by
      simp only [Arm.returnCountAll, Arm.Alike.returnCount_eq first,
        Arm.AllAlike.returnCountAll_eq rest]

end

end Alike

/-- What is noted in a declaration with a type is that type. -/
def NotesType (written : Option TypeName) (note : Option Term) : Prop :=
  ∀ typeName ∈ written, ∃ type, typeName.type? = some type ∧ note = some (.concrete type)

section Noted

variable (allowed : Term → Prop)

/-- Some term is noted, and it is an allowed one. -/
def Notes (note : Option Term) : Prop := ∃ term, note = some term ∧ allowed term

mutual

/-- The notes of a statement that was walked. -/
def Stmt.Noted : Stmt → Prop
  | .declare decl =>
      NotesType decl.typeName decl.resolved ∧ (decl.value.isSome → Notes allowed decl.resolved)
  | .function header none =>
      Notes allowed header.resolved ∧ NotesType header.returns header.resolved ∧
        (header.returns = none → header.isExternal = true →
          header.resolved = some (.concrete .void))
  | .function header (some body) =>
      Notes allowed header.resolved ∧ NotesType header.returns header.resolved ∧
        (header.returns = none → Stmt.returnCountAll body = 0 →
          header.resolved = some (.concrete .void)) ∧ Stmt.AllNoted body
  | .branch _ body alternate => Stmt.AllNoted body ∧ alternate.Noted
  | .loop _ body => Stmt.AllNoted body
  | .switch _ arms => Arm.AllNoted arms
  | .arm single => single.Noted
  | .merged body => Stmt.AllNoted body
  | .expr _ | .comment _ | .use _ | .parameter _ | .returns _ => True

def Alternate.Noted : Alternate → Prop
  | .none => True
  | .elseBranch _ body alternate => Stmt.AllNoted body ∧ alternate.Noted
  | .otherwise body => Stmt.AllNoted body

def Arm.Noted : Arm → Prop
  | .value _ body => Stmt.AllNoted body
  | .otherwise body => Stmt.AllNoted body

def Stmt.AllNoted : List Stmt → Prop
  | [] => True
  | first :: rest => first.Noted ∧ Stmt.AllNoted rest

def Arm.AllNoted : List Arm → Prop
  | [] => True
  | first :: rest => first.Noted ∧ Arm.AllNoted rest

end

end Noted

/-- Any term. -/
def Term.Any (_ : Term) : Prop := True

namespace Scopes

theorem Sane.notesType {scopes : Scopes} (sane : scopes.Sane) {written : Option TypeName}
    {found : Option Ty} (known : scopes.typeOf? written = .ok found) (rest : Option Term) :
    NotesType written ((found.map Term.concrete).or rest) := by
  rintro typeName ⟨⟩
  unfold typeOf? at known
  simp only at known
  split at known
  · cases known
  · next type isType =>
      cases known
      exact ⟨type, sane.typeOf_eq_ok_iff.mp isType, rfl⟩

end Scopes

section Declarations

variable {engine engine' : Engine}

theorem Infer.stays_value? {value : Option Expr} {found : Option Term}
    (yields : Yields (value? value) engine found engine') :
    engine.Stays engine' ∧ found.isSome = value.isSome := by
  cases value with
  | none =>
      obtain ⟨rfl, rfl⟩ := yields_value?_none.mp yields
      exact ⟨.refl _, rfl⟩
  | some e =>
      obtain ⟨term, inferred, rfl⟩ := yields_value?_some.mp yields
      exact ⟨e.stays_infer inferred, rfl⟩

theorem Infer.grows_orFresh {known : Option Term} {term : Term}
    (yields : Yields (orFresh known) engine term engine') :
    engine.Stays engine' ∧ ∀ found ∈ known, term = found := by
  cases known with
  | none =>
      obtain ⟨rfl, rfl⟩ := yields_fresh.mp yields
      exact ⟨(Engine.Stays.refl engine).grow, nofun⟩
  | some found =>
      obtain ⟨rfl, rfl⟩ := yields_pure.mp yields
      refine ⟨.refl _, ?_⟩
      rintro _ ⟨⟩
      rfl

/-- Declaring a name that is not a type's adds it to the innermost scope. -/
theorem Engine.grows_define {name : String} {symbol : Symbol}
    (notType : Ty.isTypeName name = false) (new : ∀ type, symbol ≠ .builtin type) (term : Term) :
    engine.Grows ({ engine with scopes := engine.scopes.insert name symbol }.settleForward
      name term) [] := by
  let declared : Engine := { engine with scopes := engine.scopes.insert name symbol }
  have added : engine.Learns declared :=
    ⟨rfl, List.prefix_rfl, fun count same => ⟨count, same⟩⟩
  have same := declared.settleForward_eq name term
  refine ⟨⟨[(name, symbol)], ?_, by rw [same]; rfl⟩, ?_, fun inner => ?_,
    added.settleForward name term⟩
  · rintro entry (_ | ⟨_, ⟨⟩⟩)
    exact ⟨notType, new⟩
  · rw [same, framesAfter_nil]
  · have kept := declared.settleForward_of_not_isRoot
      ((Scopes.isRoot_insert engine.scopes name symbol).trans inner) name term
    exact (congrArg (engine.forward <+: ·.forward) kept).mpr List.prefix_rfl

theorem Infer.grows_declare {decl : Variable} {known : Option Term} {term : Term}
    (yields : Yields (declare decl known) engine term engine') : engine.Grows engine' [] := by
  obtain ⟨between, started, notType, _, rfl⟩ := yields_declare.mp yields
  exact (grows_orFresh started).1.grows.andThen
    (Engine.grows_define notType (by intro type; nofun) term)

theorem Infer.grows_function {header : FunctionHeader} {declared : Option Ty} {term : Term}
    (yields : Yields (Infer.function header) engine (declared, term) engine') :
    engine.Grows engine' [] := by
  obtain ⟨parameters, between, _, _, started, notType, _, rfl⟩ := yields_function.mp yields
  have stays := (grows_orFresh started).1
  have grows : engine.Grows between [] :=
    Engine.Stays.grows ⟨stays.scopes, stays.frames, stays.declaring, stays.forward,
      ⟨stays.learns.known, stays.learns.constraints, stays.learns.unbound⟩⟩
  exact grows.andThen (Engine.grows_define notType (by intro type; nofun) term)

theorem Infer.grows_parameter {param : Parameter} {term : Term}
    (yields : Yields (parameter param) engine term engine') : engine.Grows engine' [] := by
  obtain ⟨type, _, notType, _, rfl, _⟩ := yields_parameter.mp yields
  refine ⟨⟨[(param.name, .variable (.concrete type) true)], ?_, rfl⟩, ?_,
    fun _ => List.prefix_rfl, ⟨rfl, List.prefix_rfl, fun count same => ⟨count, same⟩⟩⟩
  · rintro entry (_ | ⟨_, ⟨⟩⟩)
    exact ⟨notType, fun _ => nofun⟩
  · rw [Engine.framesAfter_nil]

theorem Infer.grows_parameters {parameters : List Parameter} :
    ∀ {engine engine' : Engine}, Yields (Infer.parameters parameters) engine () engine' →
      engine.Grows engine' [] := by
  induction parameters with
  | nil =>
      intro engine engine' yields
      obtain ⟨_, rfl⟩ := yields_pure.mp yields
      exact .refl _
  | cons first rest ih =>
      intro engine engine' yields
      simp only [Infer.parameters, yields_bind] at yields
      obtain ⟨_, between, yields, yields'⟩ := yields
      exact (grows_parameter yields).andThen (ih yields')

theorem Infer.stays_condition {e : Expr} (yields : Yields (condition e) engine () engine') :
    engine.Stays engine' := by
  obtain ⟨term, between, inferred, rfl⟩ := yields_condition.mp yields
  exact (e.stays_infer inferred).constrain _ _

theorem Infer.stays_pattern {subject : Option Term} {e : Expr}
    (yields : Yields (pattern subject e) engine () engine') : engine.Stays engine' := by
  unfold pattern at yields
  simp only [yields_bind] at yields
  obtain ⟨term, between, yields, yields'⟩ := yields
  cases subject with
  | none =>
      obtain ⟨_, rfl⟩ := yields_pure.mp yields'
      exact e.stays_infer yields
  | some subject =>
      obtain rfl := yields_constrain.mp yields'
      exact (e.stays_infer yields).constrain _ _

theorem Infer.grows_returns {value : Option Expr} {term : Term}
    (yields : Yields (returns value) engine term engine') : engine.Grows engine' [term] := by
  obtain ⟨known, between, inferred, rfl, rfl⟩ := yields_returns.mp yields
  have stays := (stays_value? inferred).1
  unfold Engine.addReturn
  split
  · next outside =>
      refine ⟨⟨[], nofun, stays.scopes⟩, ?_, fun _ => stays.forward, stays.learns⟩
      rw [outside, ← stays.frames, outside]
      rfl
  · next frame outer inside =>
      refine ⟨⟨[], nofun, stays.scopes⟩, ?_, fun _ => stays.forward,
        ⟨stays.learns.known, stays.learns.constraints, stays.learns.unbound⟩⟩
      rw [← stays.frames, inside]
      rfl

theorem exists_types_of_find?_eq_none {terms : List Term}
    (found : terms.find? Term.isPending = none) :
    ∃ types : List Ty, terms = types.map .concrete := by
  induction terms with
  | nil => exact ⟨[], rfl⟩
  | cons first rest ih =>
      rw [List.find?_cons] at found
      cases first with
      | pending => cases found
      | concrete type =>
          obtain ⟨types, rfl⟩ := ih found
          exact ⟨type :: types, rfl⟩

theorem Infer.stays_result {header : FunctionHeader} {declared : Option Ty} {terms : List Term}
    {term : Term} (yields : Yields (result header declared terms) engine term engine') :
    engine.Stays engine' ∧ (∀ type ∈ declared, term = .concrete type) ∧
      (declared = none → terms = [] → term = .concrete .void) := by
  cases declared with
  | some type =>
      obtain ⟨rfl, rfl⟩ := yields_pure.mp yields
      refine ⟨.refl _, ?_, nofun⟩
      rintro _ ⟨⟩
      rfl
  | none =>
      change Yields (commonReturn header terms) engine term engine' at yields
      refine ⟨?_, nofun, ?_⟩
      · cases found : terms.find? Term.isPending with
        | some pending =>
            obtain ⟨_, rfl⟩ := (yields_commonReturn_of_pending found).mp yields
            exact (Engine.Stays.refl engine).constrainAll _
        | none =>
            obtain ⟨types, rfl⟩ := exists_types_of_find?_eq_none found
            obtain ⟨_, rfl, _⟩ := yields_commonReturn_of_types.mp yields
            exact .refl _
      · rintro _ rfl
        exact (yields_pure.mp yields).1

theorem Infer.stays_conclusion {header : FunctionHeader} {declared : Option Ty}
    {before term : Term} {terms : List Term}
    (yields : Yields (conclusion header declared before terms) engine term engine') :
    engine.Stays engine' ∧ (∀ type ∈ declared, term = .concrete type) ∧
      (declared = none → terms = [] → term = .concrete .void) := by
  obtain ⟨after, between, common, rfl, rfl⟩ := yields_conclusion.mp yields
  obtain ⟨stays, stated, void⟩ := stays_result common
  refine ⟨?_, ?_, ?_⟩
  · split
    · exact stays
    · exact stays.constrain _ _
  · intro type declared
    rw [stated type declared]
    rfl
  · intro undeclared empty
    rw [void undeclared empty]
    rfl

end Declarations

/-- What a successful walk over some part leaves behind: the terms that the part returns, its
names, and the notes in it. -/
structure Engine.Passes (engine engine' : Engine) (count : Nat) (alike noted : Prop) : Prop where
  grows : ∃ returned : List Term, returned.length = count ∧ engine.Grows engine' returned
  alike : alike
  noted : noted

section Walks

variable {engine engine' : Engine}

theorem Engine.Stays.passes {alike noted : Prop} (stays : engine.Stays engine') (same : alike)
    (holds : noted) : engine.Passes engine' 0 alike noted :=
  ⟨⟨[], rfl, stays.grows⟩, same, holds⟩

theorem Variable.passes_walk {decl decl' : Variable} (ends : decl.walk.Ends engine decl' engine')
    (sane : engine.scopes.Sane) :
    engine.Passes engine' 0 ((Stmt.declare decl).Alike Unrelated (.declare decl'))
      ((Stmt.declare decl').Noted Term.Any) := by
  obtain ⟨known, between, term, begins, declared, rfl⟩ := Variable.ends_walk.mp ends
  obtain ⟨annotated, value, last, isType, valued, rfl, rfl⟩ := yields_initial.mp begins
  obtain ⟨stays, valued'⟩ := stays_value? valued
  have grows : engine.Grows { last with declaring := none } [] :=
    ⟨⟨[], nofun, stays.scopes⟩, stays.frames.trans (Engine.framesAfter_nil _).symm,
      fun _ => stays.forward,
      ⟨stays.learns.known, stays.learns.constraints, stays.learns.unbound⟩⟩
  refine ⟨⟨[], rfl, grows.andThen (grows_declare declared)⟩, .declare trivial, ?_, ?_⟩
  · rw [Option.or_assoc]
    exact sane.notesType isType _
  · intro isValued
    rw [← valued'] at isValued
    obtain ⟨term, same⟩ := Option.isSome_iff_exists.mp
      (show (((annotated.map Term.concrete).or value).or decl.resolved).isSome by simp [isValued])
    exact ⟨term, same, trivial⟩

/-- The term of a function's result is the type that is written, if there is one. -/
theorem Scopes.Sane.notesResult {scopes : Scopes} (sane : scopes.Sane)
    {written : Option TypeName} {declared : Option Ty} {term : Term}
    (isType : scopes.typeOf? written = .ok declared)
    (stated : ∀ type ∈ declared, term = .concrete type) : NotesType written (some term) := by
  cases declared with
  | none =>
      cases written with
      | none => nofun
      | some typeName =>
          unfold Scopes.typeOf? at isType
          simp only at isType
          split at isType <;> cases isType
  | some type =>
      rw [stated type rfl]
      exact sane.notesType isType none

theorem Scopes.typeOf?_none {scopes : Scopes} {written : Option TypeName} {declared : Option Ty}
    (isType : scopes.typeOf? written = .ok declared) (unwritten : written = none) :
    declared = none := by
  rw [unwritten] at isType
  cases isType
  rfl

theorem Stmt.passes_prototype {header : FunctionHeader} {s' : Stmt}
    (ends : (Stmt.function header none).walk.Ends engine s' engine')
    (sane : engine.scopes.Sane) :
    engine.Passes engine' 0 ((Stmt.function header none).Alike Unrelated s')
      (s'.Noted Term.Any) := by
  obtain ⟨declared, term, yields, rfl⟩ := Stmt.ends_prototype.mp ends
  obtain ⟨parameters, between, _, isType, started, _⟩ := yields_function.mp yields
  have known := (grows_orFresh started).2
  refine ⟨⟨[], rfl, grows_function yields⟩, .prototype trivial, ⟨term, rfl, trivial⟩,
    ?_, ?_⟩
  · refine sane.notesResult isType fun type found => known _ ?_
    rw [found]
    rfl
  · intro unwritten external
    refine congrArg some (known _ ?_)
    change knownResult header declared = _
    rw [Scopes.typeOf?_none isType unwritten, knownResult]
    exact if_pos external

theorem Stmt.passes_function {header : FunctionHeader} {body : List Stmt} {s' : Stmt}
    (walked : ∀ {engine engine' : Engine} {body' : List Stmt},
      (Stmt.walkAll body).Ends engine body' engine' → engine.scopes.Sane →
        engine.Passes engine' (Stmt.returnCountAll body) (Stmt.AllAlike Unrelated body body')
          (Stmt.AllNoted Term.Any body'))
    (ends : (Stmt.function header (some body)).walk.Ends engine s' engine')
    (sane : engine.scopes.Sane) :
    engine.Passes engine' 0 ((Stmt.function header (some body)).Alike Unrelated s')
      (s'.Noted Term.Any) := by
  obtain ⟨declared, before, inner, start, body', last, term, yields, taken, ended, concluded,
    rfl⟩ := Stmt.ends_function.mp ends
  obtain ⟨parameters, between, _, isType, _⟩ := yields_function.mp yields
  have opened : inner.enter.Grows start [] := grows_parameters taken
  have sane' : start.scopes.Sane := opened.sane ((grows_function yields).sane sane).push
  obtain ⟨⟨returned, counted, grows⟩, same, noted⟩ := walked ended sane'
  obtain ⟨_, returns, leaves⟩ := (opened.andThen grows).leave
  obtain ⟨stays, stated, void⟩ := stays_conclusion concluded
  refine ⟨⟨[], rfl, ((grows_function yields).andThen leaves).andThen stays.grows⟩,
    .function trivial same, ⟨term, rfl, trivial⟩, sane.notesResult isType stated, ?_, noted⟩
  intro unwritten none
  rw [← same.returnCountAll_eq, ← counted, List.length_eq_zero_iff] at none
  rw [returns] at void
  exact congrArg some (void (Scopes.typeOf?_none isType unwritten) none)

end Walks

section

variable {engine engine' : Engine}

/-- Two parts, one after the other. -/
theorem Engine.Passes.andThen {middle : Engine} {count more : Nat}
    {alike noted alike' noted' : Prop}
    (first : engine.Passes middle count alike noted)
    (second : middle.Passes engine' more alike' noted') :
    engine.Passes engine' (count + more) (alike ∧ alike') (noted ∧ noted') := by
  obtain ⟨⟨returned, rfl, grows⟩, same, holds⟩ := first
  obtain ⟨⟨returned', rfl, grows'⟩, same', holds'⟩ := second
  exact ⟨⟨returned ++ returned', List.length_append, grows.trans grows'⟩, ⟨same, same'⟩,
    ⟨holds, holds'⟩⟩

theorem Engine.Passes.block {count : Nat} {alike noted : Prop}
    (inside : engine.push.Passes engine' count alike noted) :
    engine.Passes engine'.pop count alike noted := by
  obtain ⟨⟨returned, counted, grows⟩, same, holds⟩ := inside
  exact ⟨⟨returned, counted, grows.block.2⟩, same, holds⟩

theorem Engine.Stays.andThen {middle : Engine} {count : Nat} {alike noted : Prop}
    (stays : engine.Stays middle) (passes : middle.Passes engine' count alike noted) :
    engine.Passes engine' count alike noted := by
  obtain ⟨⟨returned, counted, grows⟩, same, holds⟩ := passes
  exact ⟨⟨returned, counted, stays.grows.andThen grows⟩, same, holds⟩

theorem Engine.Passes.imp {count : Nat} {alike noted alike' noted' : Prop}
    (passes : engine.Passes engine' count alike noted) (same : alike → alike')
    (holds : noted → noted') : engine.Passes engine' count alike' noted' :=
  ⟨passes.grows, same passes.alike, holds passes.noted⟩

theorem Engine.Passes.sane {count : Nat} {alike noted : Prop}
    (passes : engine.Passes engine' count alike noted) (sane : engine.scopes.Sane) :
    engine'.scopes.Sane := by
  obtain ⟨⟨_, _, grows⟩, _, _⟩ := passes
  exact grows.sane sane

theorem Engine.Stays.sane (stays : engine.Stays engine') (sane : engine.scopes.Sane) :
    engine'.scopes.Sane := by
  rw [stays.scopes]
  exact sane

end

mutual

/-- A successful walk over a statement. -/
theorem Stmt.passes_walk : ∀ (s : Stmt) {engine engine' : Engine} {s' : Stmt},
    s.walk.Ends engine s' engine' → engine.scopes.Sane →
      engine.Passes engine' s.returnCount (s.Alike Unrelated s') (s'.Noted Term.Any)
  | .expr e, _, _, _, ends, _ => by
      rw [Stmt.walk, ends_still] at ends
      obtain ⟨rfl, term, yields⟩ := ends
      exact (e.stays_infer yields).passes (.expr e) trivial
  | .comment text, _, _, _, ends, _ => by
      rw [Stmt.walk, ends_still] at ends
      obtain ⟨rfl, term, yields⟩ := ends
      obtain ⟨_, rfl⟩ := yields_pure.mp yields
      exact (Engine.Stays.refl _).passes (.comment text) trivial
  | .use used, _, _, _, ends, _ => by
      rw [Stmt.walk, ends_still] at ends
      obtain ⟨rfl, term, yields⟩ := ends
      obtain ⟨_, rfl⟩ := yields_pure.mp yields
      exact (Engine.Stays.refl _).passes (.use used) trivial
  | .parameter param, _, _, _, ends, _ => by
      rw [Stmt.walk, ends_still] at ends
      obtain ⟨rfl, term, yields⟩ := ends
      exact ⟨⟨[], rfl, grows_parameter yields⟩, .parameter param, trivial⟩
  | .returns value, _, _, _, ends, _ => by
      obtain ⟨rfl, term, yields⟩ := Stmt.ends_returns.mp ends
      exact ⟨⟨[term], rfl, grows_returns yields⟩, .returns value, trivial⟩
  | .declare decl, _, _, _, ends, sane => by
      obtain ⟨decl', walked, rfl⟩ := Stmt.ends_declare.mp ends
      exact Variable.passes_walk walked sane
  | .function header none, _, _, _, ends, sane => Stmt.passes_prototype ends sane
  | .function header (some body), _, _, _, ends, sane =>
      Stmt.passes_function (Stmt.passes_walkAll body) ends sane
  | .branch condition body alternate, _, _, _, ends, sane => by
      obtain ⟨between, body', last, alternate', yields, walked, walked', rfl⟩ :=
        Stmt.ends_branch.mp ends
      have stays := stays_condition yields
      have inside := (Stmt.passes_walkAll body walked (stays.sane sane).push).block
      have after := Alternate.passes_walk alternate walked' (inside.sane (stays.sane sane))
      exact (stays.andThen (inside.andThen after)).imp (fun same => .branch same.1 same.2) id
  | .loop condition body, _, _, _, ends, sane => by
      obtain ⟨between, body', last, yields, walked, rfl, rfl⟩ := Stmt.ends_loop.mp ends
      have stays := stays_condition yields
      have inside := (Stmt.passes_walkAll body walked (stays.sane sane).push).block
      exact (stays.andThen inside).imp .loop id
  | .switch subject arms, _, _, _, ends, sane => by
      obtain ⟨term, between, arms', yields, walked, rfl⟩ := Stmt.ends_switch.mp ends
      have stays := subject.stays_infer yields
      exact (stays.andThen (Arm.passes_walkAll arms walked (stays.sane sane))).imp .switch id
  | .arm single, _, _, _, ends, sane => by
      obtain ⟨single', walked, rfl⟩ := Stmt.ends_arm.mp ends
      exact (Arm.passes_walk single walked sane).imp .arm id
  | .merged body, _, _, _, ends, sane => by
      obtain ⟨body', walked, rfl⟩ := Stmt.ends_merged.mp ends
      exact (Stmt.passes_walkAll body walked sane).imp .merged id
termination_by structural s => s

theorem Alternate.passes_walk : ∀ (alternate : Alternate) {engine engine' : Engine}
    {alternate' : Alternate}, alternate.walk.Ends engine alternate' engine' →
      engine.scopes.Sane →
      engine.Passes engine' alternate.returnCount (alternate.Alike Unrelated alternate')
        (alternate'.Noted Term.Any)
  | .none, _, _, _, ends, _ => by
      obtain ⟨rfl, rfl⟩ := Alternate.ends_none.mp ends
      exact (Engine.Stays.refl _).passes .none trivial
  | .elseBranch condition body alternate, _, _, _, ends, sane => by
      obtain ⟨between, body', last, alternate', yields, walked, walked', rfl⟩ :=
        Alternate.ends_elseBranch.mp ends
      have stays := stays_condition yields
      have inside := (Stmt.passes_walkAll body walked (stays.sane sane).push).block
      have after := Alternate.passes_walk alternate walked' (inside.sane (stays.sane sane))
      exact (stays.andThen (inside.andThen after)).imp (fun same => .elseBranch same.1 same.2) id
  | .otherwise body, _, _, _, ends, sane => by
      obtain ⟨body', last, walked, rfl, rfl⟩ := Alternate.ends_otherwise.mp ends
      exact (Stmt.passes_walkAll body walked sane.push).block.imp .otherwise id
termination_by structural alternate => alternate

theorem Arm.passes_walk : ∀ (arm : Arm) {subject : Option Term} {engine engine' : Engine}
    {arm' : Arm}, (arm.walk subject).Ends engine arm' engine' → engine.scopes.Sane →
      engine.Passes engine' arm.returnCount (arm.Alike Unrelated arm') (arm'.Noted Term.Any)
  | .value pattern body, _, _, _, _, ends, sane => by
      obtain ⟨between, body', last, yields, walked, rfl, rfl⟩ := Arm.ends_value.mp ends
      have stays := stays_pattern yields
      have inside := (Stmt.passes_walkAll body walked (stays.sane sane).push).block
      exact (stays.andThen inside).imp .value id
  | .otherwise body, _, _, _, _, ends, sane => by
      obtain ⟨body', last, walked, rfl, rfl⟩ := Arm.ends_otherwise.mp ends
      exact (Stmt.passes_walkAll body walked sane.push).block.imp .otherwise id
termination_by structural arm => arm

theorem Stmt.passes_walkAll : ∀ (body : List Stmt) {engine engine' : Engine}
    {body' : List Stmt}, (Stmt.walkAll body).Ends engine body' engine' → engine.scopes.Sane →
      engine.Passes engine' (Stmt.returnCountAll body) (Stmt.AllAlike Unrelated body body')
        (Stmt.AllNoted Term.Any body')
  | [], _, _, _, ends, _ => by
      obtain ⟨rfl, rfl⟩ := Stmt.ends_nil.mp ends
      exact (Engine.Stays.refl _).passes .nil trivial
  | first :: rest, _, _, _, ends, sane => by
      obtain ⟨first', between, rest', walked, walked', rfl⟩ := Stmt.ends_cons.mp ends
      have before := Stmt.passes_walk first walked sane
      have after := Stmt.passes_walkAll rest walked' (before.sane sane)
      exact (before.andThen after).imp (fun same => .cons same.1 same.2) id
termination_by structural body => body

theorem Arm.passes_walkAll : ∀ (arms : List Arm) {subject : Option Term}
    {engine engine' : Engine} {arms' : List Arm},
    (Arm.walkAll subject arms).Ends engine arms' engine' → engine.scopes.Sane →
      engine.Passes engine' (Arm.returnCountAll arms) (Arm.AllAlike Unrelated arms arms')
        (Arm.AllNoted Term.Any arms')
  | [], _, _, _, _, ends, _ => by
      obtain ⟨rfl, rfl⟩ := Arm.ends_nil.mp ends
      exact (Engine.Stays.refl _).passes .nil trivial
  | first :: rest, _, _, _, _, ends, sane => by
      obtain ⟨first', between, rest', walked, walked', rfl⟩ := Arm.ends_cons.mp ends
      have before := Arm.passes_walk first walked sane
      have after := Arm.passes_walkAll rest walked' (before.sane sane)
      exact (before.andThen after).imp (fun same => .cons same.1 same.2) id
termination_by structural arms => arms

end

end SmallLang
