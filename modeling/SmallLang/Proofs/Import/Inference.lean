import SmallLang.Proofs.Import.Names
import SmallLang.Proofs.Import.Scopes

/-!
# Inference under a namespace

The inference of a merged module goes through the same steps as that of the module alone. After each
step the two engines are the same but for the names in the root scope, those that wait for a
declaration, and that of the root variable whose value is being walked.
-/

set_option autoImplicit false

namespace SmallLang

open Infer

/-- A name that waits for its declaration, under the name that the declaration gets. -/
def ForwardReference.qualify (qualifier : Qualifier) (reference : ForwardReference) :
    ForwardReference :=
  { reference with name := qualifier.use [] reference.name }

theorem ForwardReference.find?_qualify {qualifier : Qualifier} {name : String}
    {references : List ForwardReference} (plain : ∀ reference ∈ references, Undotted reference.name)
    (undotted : Undotted name) :
    (references.map (qualify qualifier)).find? (·.name == qualifier.use [] name) =
      (references.find? (·.name == name)).map (qualify qualifier) := by
  induction references with
  | nil => rfl
  | cons first rest ih =>
      obtain ⟨undotted', plain⟩ := List.forall_mem_cons.mp plain
      have same : ((first.qualify qualifier).name == qualifier.use [] name) =
          (first.name == name) := by
        rw [Bool.eq_iff_iff, beq_iff_eq, beq_iff_eq]
        exact Qualifier.use_eq_use_iff undotted' undotted
      rw [List.map_cons, List.find?_cons, List.find?_cons, same, ih plain]
      split <;> rfl

namespace Engine

variable {qualifier : Qualifier} {engine : Engine} {name : String} {hidden : List String}

/-- The engine with new names for what a module declares at its top. -/
def qualify (qualifier : Qualifier) (engine : Engine) : Engine :=
  { engine with
    scopes := engine.scopes.qualify qualifier
    forward := engine.forward.map (·.qualify qualifier)
    declaring := engine.declaring.map (qualifier.use []) }

/-- Nothing is known from an earlier run, and no name with a dot is on its way. -/
structure Plain (engine : Engine) : Prop where
  known : engine.known = []
  forward : ∀ reference ∈ engine.forward, Undotted reference.name
  declaring : ∀ name, engine.declaring = some name → Undotted name

theorem plain_start : start.Plain :=
  ⟨rfl, List.forall_mem_nil _, fun _ same => by cases same⟩

/-- Only the parts of the engine that hold names matter. -/
theorem Plain.congr {engine' : Engine} (plain : engine.Plain)
    (known : engine'.known = engine.known) (forward : engine'.forward = engine.forward)
    (declaring : engine'.declaring = engine.declaring) : engine'.Plain :=
  ⟨known ▸ plain.known, forward ▸ plain.forward, declaring ▸ plain.declaring⟩

theorem Plain.push (plain : engine.Plain) : engine.push.Plain := plain.congr rfl rfl rfl

theorem Plain.pop (plain : engine.Plain) : engine.pop.Plain := plain.congr rfl rfl rfl

theorem Plain.enter (plain : engine.Plain) : engine.enter.Plain := plain.congr rfl rfl rfl

theorem Plain.leave (plain : engine.Plain) : engine.leave.Plain := plain.congr rfl rfl rfl

theorem qualify_start (proper : qualifier.Proper) : start.qualify qualifier = start := by
  have same := Scopes.qualify_start proper
  rw [qualify, start, same]
  rfl

@[simp] theorem qualify_constrain (left right : Term) :
    (engine.constrain left right).qualify qualifier =
      (engine.qualify qualifier).constrain left right := by
  unfold constrain
  split <;> rfl

@[simp] theorem qualify_constrainAll (pairs : List (Term × Term)) : ∀ {engine : Engine},
    (engine.constrainAll pairs).qualify qualifier =
      (engine.qualify qualifier).constrainAll pairs := by
  induction pairs with
  | nil => exact rfl
  | cons pair rest ih =>
      intro engine
      change ((engine.constrain pair.1 pair.2).constrainAll rest).qualify qualifier = _
      rw [ih, qualify_constrain]
      rfl

@[simp] theorem qualify_addReturn (term : Term) :
    (engine.addReturn term).qualify qualifier = (engine.qualify qualifier).addReturn term := by
  unfold addReturn
  have same : (engine.qualify qualifier).frames = engine.frames := rfl
  rw [same]
  cases engine.frames <;> rfl

theorem plain_constrain (plain : engine.Plain) (left right : Term) :
    (engine.constrain left right).Plain := by
  rw [constrain_eq]
  exact plain.congr rfl rfl rfl

theorem plain_constrainAll (pairs : List (Term × Term)) : ∀ {engine : Engine}, engine.Plain →
    (engine.constrainAll pairs).Plain := by
  induction pairs with
  | nil => exact id
  | cons pair rest ih => exact fun plain => ih (plain_constrain plain pair.1 pair.2)

theorem plain_addReturn (plain : engine.Plain) (term : Term) : (engine.addReturn term).Plain := by
  unfold addReturn
  split
  · exact plain
  · exact plain.congr rfl rfl rfl

/-- A name waits for a declaration under its new name. -/
theorem Plain.find?_qualify (plain : engine.Plain) (undotted : Undotted name) :
    (engine.qualify qualifier).forward.find? (·.name == qualifier.use [] name) =
      (engine.forward.find? (·.name == name)).map (·.qualify qualifier) :=
  ForwardReference.find?_qualify plain.forward undotted

/-- A declaration settles what it settled. -/
theorem Plain.qualify_settleForward (plain : engine.Plain) (undotted : Undotted name)
    (term : Term) :
    (engine.settleForward name term).qualify qualifier =
      (engine.qualify qualifier).settleForward (engine.scopes.named qualifier name) term := by
  cases root : engine.scopes.isRoot with
  | false =>
      rw [settleForward_of_not_isRoot root, settleForward_of_not_isRoot]
      exact root
  | true =>
      rw [Scopes.named_of_isRoot root]
      unfold settleForward
      rw [if_pos root, if_pos (show (engine.qualify qualifier).scopes.isRoot = true from root),
        plain.find?_qualify undotted]
      cases engine.forward.find? (·.name == name) with
      | none => rfl
      | some reference =>
          have filtered : (engine.qualify qualifier).forward.filter
              (·.name != qualifier.use [] name) =
                (engine.forward.filter (·.name != name)).map (·.qualify qualifier) := by
            change (engine.forward.map _).filter _ = _
            rw [List.filter_map]
            congr 1
            apply List.filter_congr
            intro reference present
            rw [Function.comp_apply, Bool.eq_iff_iff, bne_iff_ne, bne_iff_ne]
            exact not_congr (Qualifier.use_eq_use_iff (plain.forward reference present) undotted)
          change (constrain _ _ _).qualify qualifier = constrain _ _ _
          rw [qualify_constrain, filtered]
          rfl

theorem plain_settleForward (plain : engine.Plain) (name : String) (term : Term) :
    (engine.settleForward name term).Plain := by
  unfold settleForward
  split
  · split
    · exact plain
    · apply plain_constrain
      exact ⟨plain.known, fun reference present =>
        plain.forward reference (List.mem_filter.mp present).1, plain.declaring⟩
  · exact plain

/-- A name means what it meant. -/
theorem Plain.lookup?_qualify (plain : engine.Plain) (hosts : engine.scopes.Hosts hidden)
    (proper : qualifier.Proper) (undotted : Undotted name) :
    (engine.qualify qualifier).lookup? (qualifier.use hidden name) = engine.lookup? name := by
  unfold lookup?
  change ((engine.scopes.qualify qualifier).resolve? _).or (engine.known.lookup _) = _
  rw [plain.known, hosts.resolve?_qualify proper undotted]
  rfl

end Engine

namespace Infer

variable {α β : Type} {qualifier : Qualifier} {hidden : List String} {engine : Engine}

/-- Where one step succeeds, another one succeeds with the same value on the engine with new
names. -/
def Follows (qualifier : Qualifier) (work work' : Infer α) (engine : Engine) : Prop :=
  ∀ ⦃value : α⦄ ⦃engine' : Engine⦄, Yields work engine value engine' →
    Yields work' (engine.qualify qualifier) value (engine'.qualify qualifier) ∧ engine'.Plain

theorem Follows.bind {first first' : Infer α} {second second' : α → Infer β}
    (begins : Follows qualifier first first' engine)
    (ends : ∀ value between, Yields first engine value between → between.Plain →
      Follows qualifier (second value) (second' value) between) :
    Follows qualifier (first >>= second) (first' >>= second') engine := by
  intro value engine' yields
  obtain ⟨middle, between, yields, yields'⟩ := yields_bind.mp yields
  obtain ⟨follows, plain⟩ := begins yields
  obtain ⟨follows', plain'⟩ := ends middle between yields plain yields'
  exact ⟨yields_bind.mpr ⟨middle, _, follows, follows'⟩, plain'⟩

theorem follows_pure (plain : engine.Plain) (value : α) :
    Follows qualifier (pure value) (pure value) engine := by
  rintro _ _ yields
  obtain ⟨rfl, rfl⟩ := yields_pure.mp yields
  exact ⟨yields_pure.mpr ⟨rfl, rfl⟩, plain⟩

theorem follows_fail (error : Error) (work : Infer α) :
    Follows qualifier (fail error) work engine :=
  fun _ _ yields => (yields_fail.mp yields).elim

theorem follows_fresh (plain : engine.Plain) : Follows qualifier fresh fresh engine := by
  rintro _ _ yields
  obtain ⟨rfl, rfl⟩ := yields_fresh.mp yields
  exact ⟨yields_fresh.mpr ⟨rfl, rfl⟩, plain.congr rfl rfl rfl⟩

theorem follows_constrain (plain : engine.Plain) (left right : Term) :
    Follows qualifier (constrain left right) (constrain left right) engine := by
  rintro _ _ yields
  obtain rfl := yields_constrain.mp yields
  exact ⟨yields_constrain.mpr (Engine.qualify_constrain left right),
    Engine.plain_constrain plain left right⟩

theorem follows_orFresh (plain : engine.Plain) : ∀ known : Option Term,
    Follows qualifier (orFresh known) (orFresh known) engine
  | some term => follows_pure plain term
  | none => follows_fresh plain

theorem follows_name {name : String} (proper : qualifier.Proper) (plain : engine.Plain)
    (hosts : engine.scopes.Hosts hidden) (undotted : Undotted name) (position : Position) :
    Follows qualifier (Infer.name name position)
      (Infer.name (qualifier.use hidden name) position) engine := by
  intro term engine' yields
  obtain ⟨symbol, found, isTerm, rfl⟩ | ⟨unknown, other, yields⟩ := yields_name.mp yields
  · refine ⟨yields_name.mpr (.inl ⟨symbol, ?_, isTerm, rfl⟩), plain⟩
    rw [plain.lookup?_qualify hosts proper undotted]
    exact found
  · have missing : engine.scopes.resolve? name = none := (Option.or_eq_none_iff.mp unknown).1
    have renamed : qualifier.use hidden name = qualifier.use [] name :=
      hosts.use_of_resolve?_eq_none proper missing
    have unknown' : (engine.qualify qualifier).lookup? (qualifier.use hidden name) = none := by
      rw [plain.lookup?_qualify hosts proper undotted]
      exact unknown
    have other' : (engine.qualify qualifier).declaring ≠ some (qualifier.use hidden name) := by
      rw [renamed]
      change engine.declaring.map (qualifier.use []) ≠ _
      rw [Ne, Option.map_eq_some_iff]
      rintro ⟨declared, isDeclaring, same⟩
      rw [Qualifier.use_inj (plain.declaring declared isDeclaring) undotted same] at isDeclaring
      exact other isDeclaring
    rw [yields_name]
    have forwards : Yields (forward (qualifier.use hidden name) position)
        (engine.qualify qualifier) term (engine'.qualify qualifier) ∧ engine'.Plain := by
      rw [yields_forward, renamed, plain.find?_qualify undotted]
      obtain ⟨reference, found, rfl, rfl⟩ | ⟨absent, rfl, rfl⟩ := yields_forward.mp yields
      · exact ⟨.inl ⟨reference.qualify qualifier, by rw [found]; rfl, rfl, rfl⟩, plain⟩
      · refine ⟨.inr ⟨by rw [absent]; rfl, rfl, ?_⟩, plain.known, ?_, plain.declaring⟩
        · simp only [Engine.qualify, List.map_append, List.map_cons, List.map_nil]
          rfl
        · exact List.forall_mem_append.mpr
            ⟨plain.forward, List.forall_mem_singleton.mpr undotted⟩
    exact ⟨.inr ⟨unknown', other', forwards.1⟩, forwards.2⟩

theorem follows_operation (plain : engine.Plain) (operator : BinaryOperator) (left right : Term)
    (position position' : Position) :
    Follows qualifier (operation operator left right position)
      (operation operator left right position') engine := by
  unfold operation
  split
  · split
    · exact follows_pure plain _
    · exact follows_fail _ _
  · refine (follows_constrain plain _ _).bind ?_
    intro _ _ _ plain
    refine (follows_fresh plain).bind ?_
    intro _ _ _ plain
    exact (follows_constrain plain _ _).bind fun _ _ _ plain => follows_pure plain _

theorem follows_application (plain : engine.Plain) (parameters : List Ty) (result : Term)
    (arguments : List Term) :
    Follows qualifier (application parameters result arguments)
      (application parameters result arguments) engine := by
  unfold application
  split
  · refine Follows.bind ?_ fun _ _ _ plain => follows_pure plain _
    rintro _ _ yields
    obtain rfl := yields_update.mp yields
    exact ⟨yields_update.mpr (Engine.qualify_constrainAll _), Engine.plain_constrainAll _ plain⟩
  · exact follows_pure plain _

end Infer

mutual

/-- An expression has the term that it had. -/
theorem Expr.follows_infer {qualifier : Qualifier} {hidden : List String}
    (proper : qualifier.Proper) : ∀ (e : Expr) {engine : Engine}, engine.Plain →
      engine.scopes.Hosts hidden → (∀ mention ∈ e.mentions, Undotted mention.1) →
      Infer.Follows qualifier e.infer (e.qualify qualifier hidden).infer engine
  | .identifier name position, _, plain, hosts, undotted =>
      follows_name proper plain hosts (undotted (name, position) List.mem_cons_self) position
  | .member object property, engine, _, _, undotted => by
      cases object with
      | identifier space position =>
          have dotless := undotted (qualifiedName space property, position) List.mem_cons_self
          exact absurd rfl dotless.ne_qualifiedName
      | _ =>
          intro _ _ yields
          obtain ⟨_, _, _, yields⟩ := yields_bind.mp yields
          exact (yields_fail.mp yields).elim
  | .call callee arguments, engine, plain, hosts, undotted => by
      rw [Expr.mentions, List.forall_mem_append] at undotted
      rw [Expr.infer, Expr.qualify, Expr.infer]
      refine (Expr.follows_inferAll proper arguments plain hosts undotted.1).bind ?_
      intro terms between yields plain
      have hosts : between.scopes.Hosts hidden := (Expr.stays_inferAll _ yields).scopes ▸ hosts
      have means : ((callee.qualify qualifier hidden).symbol?.bind
          (between.qualify qualifier).lookup?) = callee.symbol?.bind between.lookup? := by
        rw [Expr.symbol?_qualify undotted.2]
        cases named : callee.symbol? with
        | none => rfl
        | some name =>
            obtain ⟨position, _, _, mentions⟩ := Expr.exists_position_of_symbol? named
            have dotless := undotted.2 (name, position) (by rw [mentions]; exact List.mem_cons_self)
            exact plain.lookup?_qualify hosts proper dotless
      intro term engine' whole
      obtain ⟨_, _, reads, ends⟩ := yields_bind.mp whole
      obtain ⟨rfl, rfl⟩ := yields_get.mp reads
      rw [yields_bind]
      suffices Yields _ _ _ _ ∧ _ from ⟨⟨_, _, yields_get.mpr ⟨rfl, rfl⟩, this.1⟩, this.2⟩
      rw [means]
      split at ends
      · exact follows_application plain _ _ _ ends
      · exact Expr.follows_infer proper callee plain hosts undotted.2 ends
  | .binary operator left right, engine, plain, hosts, undotted => by
      rw [Expr.mentions, List.forall_mem_append] at undotted
      rw [Expr.infer, Expr.qualify, Expr.infer]
      refine (Expr.follows_infer proper left plain hosts undotted.1).bind ?_
      intro first between yields plain
      have hosts : between.scopes.Hosts hidden := (Expr.stays_infer _ yields).scopes ▸ hosts
      refine (Expr.follows_infer proper right plain hosts undotted.2).bind ?_
      intro second between yields plain term engine' yields
      obtain ⟨_, _, reads, yields⟩ := yields_bind.mp yields
      obtain ⟨rfl, rfl⟩ := yields_get.mp reads
      obtain ⟨follows, plain⟩ := follows_operation plain operator first second _ _ yields
      exact ⟨yields_bind.mpr ⟨_, _, yields_get.mpr ⟨rfl, rfl⟩, follows⟩, plain⟩
  | .prefixed .negate operand, _, plain, hosts, undotted =>
      Expr.follows_infer proper operand plain hosts undotted
  | .prefixed .not operand, _, plain, hosts, undotted => by
      rw [Expr.infer, Expr.qualify, Expr.infer]
      refine (Expr.follows_infer proper operand plain hosts undotted).bind ?_
      intro _ _ _ plain
      exact (follows_constrain plain _ _).bind fun _ _ _ plain => follows_pure plain _
  | .postfixed _ operand, _, plain, hosts, undotted =>
      Expr.follows_infer proper operand plain hosts undotted
  | .number _, _, plain, _, _ | .string _, _, plain, _, _ | .boolean _, _, plain, _, _
  | .null, _, plain, _, _ => follows_pure plain _

theorem Expr.follows_inferAll {qualifier : Qualifier} {hidden : List String}
    (proper : qualifier.Proper) : ∀ (expressions : List Expr) {engine : Engine},
    engine.Plain → engine.scopes.Hosts hidden →
      (∀ mention ∈ Expr.allMentions expressions, Undotted mention.1) →
      Infer.Follows qualifier (Expr.inferAll expressions)
        (Expr.inferAll (Expr.qualifyAll qualifier hidden expressions)) engine
  | [], _, plain, _, _ => follows_pure plain _
  | first :: rest, engine, plain, hosts, undotted => by
      rw [Expr.allMentions, List.forall_mem_append] at undotted
      rw [Expr.inferAll, Expr.qualifyAll, Expr.inferAll]
      refine (Expr.follows_infer proper first plain hosts undotted.1).bind ?_
      intro _ between yields plain
      have hosts : between.scopes.Hosts hidden := (Expr.stays_infer _ yields).scopes ▸ hosts
      refine (Expr.follows_inferAll proper rest plain hosts undotted.2).bind ?_
      intro _ _ _ plain
      exact follows_pure plain _

end

end SmallLang
