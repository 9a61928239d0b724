import SmallLang.Proofs.Inference.Program
import SmallLang.Proofs.Parse.Loaded
import SmallLang.Proofs.Scope.Scoping

/-!
# What inference accepts is well scoped

A walk finds every name in its scopes, or leaves it to a declaration in the root scope that is
still to come. Where no such name is left at the end, the program is well scoped.
-/

set_option autoImplicit false

namespace SmallLang

open Infer Walk

section Forward

variable {engine engine' : Engine}

theorem Stmt.forward_block {body body' : List Stmt}
    (ends : (Stmt.walkAll body).Ends engine.push body' engine') (sane : engine.scopes.Sane) :
    engine.forward <+: engine'.pop.forward ∧ engine'.pop.scopes = engine.scopes := by
  obtain ⟨⟨_, _, grows⟩, _, _⟩ := Stmt.passes_walkAll body ends sane.push
  exact ⟨grows.forward rfl, grows.block.1⟩

/-- What follows a branch settles no forward reference, and leaves the scopes as they are. -/
theorem Alternate.forward_walk (alternate : Alternate) {engine engine' : Engine}
    {alternate' : Alternate} (ends : alternate.walk.Ends engine alternate' engine')
    (sane : engine.scopes.Sane) :
    engine.forward <+: engine'.forward ∧ engine'.scopes = engine.scopes := by
  cases alternate with
  | none =>
      obtain ⟨_, rfl⟩ := Alternate.ends_none.mp ends
      exact ⟨List.prefix_rfl, rfl⟩
  | elseBranch condition body rest =>
      obtain ⟨between, _, last, _, yields, ends, ends', _⟩ := Alternate.ends_elseBranch.mp ends
      have stays := stays_condition yields
      have sane' : between.scopes.Sane := stays.scopes ▸ sane
      obtain ⟨more, scopes⟩ := Stmt.forward_block ends sane'
      have sane'' : last.pop.scopes.Sane := scopes ▸ sane'
      obtain ⟨later, scopes'⟩ := Alternate.forward_walk rest ends' sane''
      exact ⟨(stays.forward.trans more).trans later, scopes'.trans (scopes.trans stays.scopes)⟩
  | otherwise body =>
      obtain ⟨_, _, ends', rfl, _⟩ := Alternate.ends_otherwise.mp ends
      exact Stmt.forward_block ends' sane
termination_by structural alternate

theorem Arm.forward_walk {arm arm' : Arm} {subject : Option Term}
    (ends : (arm.walk subject).Ends engine arm' engine') (sane : engine.scopes.Sane) :
    engine.forward <+: engine'.forward ∧ engine'.scopes = engine.scopes := by
  cases arm with
  | value pattern body =>
      obtain ⟨between, _, _, yields, ends', rfl, _⟩ := Arm.ends_value.mp ends
      have stays := stays_pattern yields
      have sane' : between.scopes.Sane := stays.scopes ▸ sane
      obtain ⟨more, scopes⟩ := Stmt.forward_block ends' sane'
      exact ⟨stays.forward.trans more, scopes.trans stays.scopes⟩
  | otherwise body =>
      obtain ⟨_, _, ends', rfl, _⟩ := Arm.ends_otherwise.mp ends
      exact Stmt.forward_block ends' sane

theorem Arm.forward_walkAll {subject : Option Term} : ∀ (arms : List Arm)
    {engine engine' : Engine} {arms' : List Arm},
    (Arm.walkAll subject arms).Ends engine arms' engine' → engine.scopes.Sane →
      engine.forward <+: engine'.forward ∧ engine'.scopes = engine.scopes
  | [], _, _, _, ends, _ => by
      obtain ⟨_, rfl⟩ := Arm.ends_nil.mp ends
      exact ⟨List.prefix_rfl, rfl⟩
  | _ :: rest, _, _, _, ends, sane => by
      obtain ⟨_, between, _, ends, ends', _⟩ := Arm.ends_cons.mp ends
      obtain ⟨more, scopes⟩ := Arm.forward_walk ends sane
      have sane' : between.scopes.Sane := scopes ▸ sane
      obtain ⟨later, scopes'⟩ := Arm.forward_walkAll rest ends' sane'
      exact ⟨more.trans later, scopes'.trans scopes⟩

namespace Engine

/-- Every name that waits for its declaration is one of some names. -/
def Awaits (engine : Engine) (names : List String) : Prop :=
  ∀ reference ∈ engine.forward, reference.name ∈ names

variable {names : List String}

theorem Awaits.of_earlier (awaits : engine'.Awaits names)
    (more : engine.forward <+: engine'.forward) : engine.Awaits names :=
  fun reference present => awaits reference (more.subset present)

/-- Settling a name removes the references to that name only. -/
theorem Awaits.of_settleForward {name : String} {term : Term}
    (awaits : (engine.settleForward name term).Awaits names)
    (declared : engine.scopes.isRoot = true → name ∈ names) : engine.Awaits names := by
  cases root : engine.scopes.isRoot with
  | false => rwa [settleForward_of_not_isRoot root] at awaits
  | true =>
      intro reference present
      by_cases same : reference.name = name
      · exact same ▸ declared root
      · apply awaits reference
        rw [settleForward, if_pos root]
        split
        · exact present
        · rw [constrain_eq]
          exact List.mem_filter.mpr ⟨present, bne_iff_ne.mpr same⟩

end Engine

theorem Engine.forward_addReturn (engine : Engine) (term : Term) :
    (engine.addReturn term).forward = engine.forward := by
  rw [addReturn]
  split <;> rfl

/-- A function settles references to its own name only. -/
theorem Infer.awaits_function {header : FunctionHeader} {declared : Option Ty} {term : Term}
    {names : List String} (yields : Yields (Infer.function header) engine (declared, term) engine')
    (awaits : engine'.Awaits names) (named : engine.scopes.isRoot = true → header.name ∈ names) :
    engine.Awaits names := by
  obtain ⟨_, between, _, _, yields', _, _, rfl⟩ := yields_function.mp yields
  have stays := (grows_orFresh yields').1
  apply (awaits.of_settleForward _).of_earlier stays.forward
  intro root
  rw [Scopes.isRoot_insert, stays.scopes] at root
  exact named root

/-- A variable settles references to its own name only. -/
theorem Infer.awaits_declare {decl : Variable} {known : Option Term} {term : Term}
    {names : List String} (yields : Yields (Infer.declare decl known) engine term engine')
    (awaits : engine'.Awaits names) (named : engine.scopes.isRoot = true → decl.name ∈ names) :
    engine.Awaits names := by
  obtain ⟨between, yields', _, _, rfl⟩ := yields_declare.mp yields
  have stays := (grows_orFresh yields').1
  apply (awaits.of_settleForward _).of_earlier stays.forward
  intro root
  rw [Scopes.isRoot_insert, stays.scopes] at root
  exact named root

mutual

/-- A walk settles no references but to the names that are declared. -/
theorem Stmt.awaits_walk {names : List String} : ∀ (s : Stmt) {engine engine' : Engine} {s' : Stmt},
    s.walk.Ends engine s' engine' → engine.scopes.Sane →
      (engine.scopes.isRoot = true → s.declares ⊆ names) →
      engine'.Awaits names → engine.Awaits names
  | .expr e, _, _, _, ends, _, _, awaits => by
      obtain ⟨_, _, yields⟩ := ends_still.mp ends
      exact awaits.of_earlier (Expr.stays_infer e yields).forward
  | .comment _, _, _, _, ends, _, _, awaits | .use _, _, _, _, ends, _, _, awaits => by
      obtain ⟨_, _, yields⟩ := ends_still.mp ends
      obtain ⟨_, rfl⟩ := yields_pure.mp yields
      exact awaits
  | .parameter param, _, _, _, ends, _, _, awaits => by
      obtain ⟨_, _, yields⟩ := ends_still.mp ends
      obtain ⟨_, _, _, _, rfl, _⟩ := yields_parameter.mp yields
      exact awaits
  | .returns value, _, _, _, ends, _, _, awaits => by
      obtain ⟨_, term, yields⟩ := Stmt.ends_returns.mp ends
      obtain ⟨_, between, yields', _, rfl⟩ := yields_returns.mp yields
      have awaits' : between.Awaits names := fun reference present =>
        awaits reference ((Engine.forward_addReturn between term).symm ▸ present)
      exact awaits'.of_earlier (stays_value? yields').1.forward
  | .declare decl, _, _, _, ends, _, declared, awaits => by
      obtain ⟨_, ends', _⟩ := Stmt.ends_declare.mp ends
      obtain ⟨known, between, term, initial, declares, _⟩ := Variable.ends_walk.mp ends'
      obtain ⟨_, _, last, _, yields, rfl, _⟩ := yields_initial.mp initial
      have stays := (stays_value? yields).1
      have before := awaits_declare declares awaits fun root =>
        declared (stays.scopes ▸ root) List.mem_cons_self
      exact Engine.Awaits.of_earlier before stays.forward
  | .function header none, _, _, _, ends, _, declared, awaits => by
      obtain ⟨_, _, yields, _⟩ := Stmt.ends_prototype.mp ends
      exact awaits_function yields awaits fun root => declared root List.mem_cons_self
  | .function header (some body), engine, _, _, ends, sane, declared, awaits => by
      obtain ⟨_, _, inner, start, _, last, _, yields, yields', ends', yields'', _⟩ :=
        Stmt.ends_function.mp ends
      have opened := grows_parameters yields'
      have entered : inner.enter.scopes.Sane := ((grows_function yields).sane sane).push
      obtain ⟨⟨_, _, grows⟩, _, _⟩ := Stmt.passes_walkAll body ends' (opened.sane entered)
      have before : last.Awaits names := awaits.of_earlier (stays_conclusion yields'').1.forward
      have inside : inner.Awaits names :=
        before.of_earlier ((opened.andThen grows).forward rfl)
      exact awaits_function yields inside fun root => declared root List.mem_cons_self
  | .branch _ _ alternate, _, _, _, ends, sane, _, awaits => by
      obtain ⟨between, _, last, _, yields, inside, ends', _⟩ := Stmt.ends_branch.mp ends
      have stays := stays_condition yields
      have sane' : between.scopes.Sane := stays.scopes ▸ sane
      obtain ⟨more, scopes⟩ := Stmt.forward_block inside sane'
      have sane'' : last.pop.scopes.Sane := scopes ▸ sane'
      exact awaits.of_earlier
        ((stays.forward.trans more).trans (Alternate.forward_walk alternate ends' sane'').1)
  | .loop _ _, _, _, _, ends, sane, _, awaits => by
      obtain ⟨between, _, _, yields, inside, rfl, _⟩ := Stmt.ends_loop.mp ends
      have stays := stays_condition yields
      have sane' : between.scopes.Sane := stays.scopes ▸ sane
      exact awaits.of_earlier (stays.forward.trans (Stmt.forward_block inside sane').1)
  | .switch subject arms, _, _, _, ends, sane, _, awaits => by
      obtain ⟨_, between, _, yields, inside, _⟩ := Stmt.ends_switch.mp ends
      have stays := Expr.stays_infer subject yields
      have sane' : between.scopes.Sane := stays.scopes ▸ sane
      exact awaits.of_earlier (stays.forward.trans (Arm.forward_walkAll arms inside sane').1)
  | .arm _, _, _, _, ends, sane, _, awaits => by
      obtain ⟨_, inside, _⟩ := Stmt.ends_arm.mp ends
      exact awaits.of_earlier (Arm.forward_walk inside sane).1
  | .merged body, _, _, _, ends, sane, declared, awaits => by
      obtain ⟨_, inside, _⟩ := Stmt.ends_merged.mp ends
      exact Stmt.awaits_walkAll body inside sane declared awaits
termination_by structural part => part

theorem Stmt.awaits_walkAll {names : List String} : ∀ (body : List Stmt)
    {engine engine' : Engine} {body' : List Stmt},
    (Stmt.walkAll body).Ends engine body' engine' → engine.scopes.Sane →
      (engine.scopes.isRoot = true → Stmt.allDeclares body ⊆ names) →
      engine'.Awaits names → engine.Awaits names
  | [], _, _, _, ends, _, _, awaits => by
      obtain ⟨_, rfl⟩ := Stmt.ends_nil.mp ends
      exact awaits
  | first :: rest, _, _, _, ends, sane, declared, awaits => by
      obtain ⟨_, between, _, begins, goes, _⟩ := Stmt.ends_cons.mp ends
      have passes := Stmt.passes_walk first begins sane
      obtain ⟨_, _, grows⟩ := passes.grows
      apply Stmt.awaits_walk first begins sane
      · intro root
        exact (List.append_subset.mp (declared root)).1
      · apply Stmt.awaits_walkAll rest goes (passes.sane sane) _ awaits
        intro root
        exact (List.append_subset.mp (declared (grows.isRoot ▸ root))).2
termination_by structural part => part

end

end Forward

/-- An environment shows everything that an engine finds, has only that in its block, and shows
some other names as well. -/
structure Engine.Shows (engine : Engine) (names : List String) (Γ : Env Unit) : Prop where
  sane : engine.scopes.Sane
  seen : ∀ name, (engine.lookup? name).isSome → Γ.Sees name
  block : ∀ name, engine.scopes.innermost.lookup name = none → Ty.isTypeName name = false →
    Γ.block name = none
  others : Γ.SeesAll names

namespace Engine.Shows

variable {engine engine' : Engine} {names : List String} {Γ : Env Unit}

theorem congr (shows : engine.Shows names Γ) (scopes : engine'.scopes = engine.scopes)
    (known : engine'.known = engine.known) : engine'.Shows names Γ where
  sane := scopes ▸ shows.sane
  seen name found := shows.seen name (by rwa [lookup?, scopes, known] at found)
  block name new := shows.block name (by rwa [scopes] at new)
  others := shows.others

theorem stays (shows : engine.Shows names Γ) (stays : engine.Stays engine') :
    engine'.Shows names Γ :=
  shows.congr stays.scopes stays.learns.known

theorem enter (shows : engine.Shows names Γ) : engine.push.Shows names Γ.enter where
  sane := shows.sane.push
  seen name found := by
    rw [Env.sees_enter]
    apply shows.seen
    rwa [lookup?, push, Scopes.resolve?_push] at found
  block _ _ _ := rfl
  others name present := Env.sees_enter.mpr (shows.others name present)

theorem insert (shows : engine.Shows names Γ) {name : String} (symbol : Symbol)
    (notType : Ty.isTypeName name = false) (new : ∀ type, symbol ≠ .builtin type) :
    { engine with scopes := engine.scopes.insert name symbol }.Shows names
      (Γ.declare name ()) where
  sane := shows.sane.insert notType new
  seen other found := by
    rw [Env.sees_declare]
    by_cases same : other = name
    · exact .inl same
    · right
      apply shows.seen
      rwa [lookup?, Scopes.resolve?_insert, if_neg same] at found
  block other missing isName := by
    rw [Scopes.lookup_innermost_insert] at missing
    rw [Env.block_declare]
    by_cases same : other = name
    · simp [same] at missing
    · rw [if_neg same] at missing ⊢
      exact shows.block other missing isName
  others other present := Env.sees_declare.mpr (.inr (shows.others other present))

theorem free (shows : engine.Shows names Γ) {name : String} (notType : Ty.isTypeName name = false)
    (new : engine.scopes.innermost.lookup name = none) : Γ.Free name :=
  ⟨notType, shows.block name new notType⟩

end Engine.Shows

section Expressions

variable {engine engine' : Engine} {names : List String} {Γ : Env Unit}

/-- A name that an expression uses is found, or waits for its declaration afterwards. -/
def Engine.Reaches (engine engine' : Engine) (name : String) : Prop :=
  (engine.lookup? name).isSome ∨ ∃ reference ∈ engine'.forward, reference.name = name

theorem Engine.Reaches.later {middle : Engine} {name : String} (stays : engine.Stays middle)
    (reaches : middle.Reaches engine' name) : engine.Reaches engine' name := by
  cases reaches with
  | inl found => exact .inl (by rwa [lookup?, stays.scopes, stays.learns.known] at found)
  | inr waits => exact .inr waits

theorem Engine.Reaches.sooner {last : Engine} {name : String} (stays : engine'.Stays last)
    (reaches : engine.Reaches engine' name) : engine.Reaches last name := by
  cases reaches with
  | inl found => exact .inl found
  | inr waits =>
      obtain ⟨reference, present, named⟩ := waits
      exact .inr ⟨reference, stays.forward.subset present, named⟩

theorem Infer.reaches_name {name : String} {position : Position} {term : Term}
    (yields : Yields (Infer.name name position) engine term engine') :
    engine.Reaches engine' name := by
  rw [yields_name] at yields
  rcases yields with ⟨symbol, found, _, _⟩ | ⟨_, _, yields⟩
  · exact .inl (by rw [found]; rfl)
  · right
    rw [yields_forward] at yields
    rcases yields with ⟨reference, found, _, rfl⟩ | ⟨_, _, rfl⟩
    · have named : (reference.name == name) = true :=
        List.find?_some (p := fun reference : ForwardReference => reference.name == name) found
      exact ⟨reference, List.mem_of_find?_eq_some found, beq_iff_eq.mp named⟩
    · exact ⟨_, List.mem_append_right _ (List.mem_singleton_self _), rfl⟩

mutual

theorem Expr.reaches_infer : ∀ (e : Expr) {engine engine' : Engine} {term : Term},
    Yields e.infer engine term engine' → ∀ name ∈ e.names, engine.Reaches engine' name
  | .identifier name _, _, _, _, yields, other, present => by
      rw [List.mem_singleton.mp present]
      exact reaches_name yields
  | .member (.identifier space _) property, _, _, _, yields, other, present => by
      rw [List.mem_singleton.mp present]
      exact reaches_name yields
  | .member (.member ..) _, _, _, _, yields, _, _ | .member (.call ..) _, _, _, _, yields, _, _
  | .member (.binary ..) _, _, _, _, yields, _, _ | .member (.prefixed ..) _, _, _, _, yields, _, _
  | .member (.postfixed ..) _, _, _, _, yields, _, _ | .member (.number _) _, _, _, _, yields, _, _
  | .member (.string _) _, _, _, _, yields, _, _ | .member (.boolean _) _, _, _, _, yields, _, _
  | .member .null _, _, _, _, yields, _, _ => by
      obtain ⟨_, _, _, fails⟩ := yields_bind.mp yields
      cases yields_fail.mp fails
  | .call callee arguments, engine, engine', _, yields, name, present => by
      obtain ⟨terms, middle, yields, yields'⟩ := yields_bind.mp yields
      obtain ⟨_, _, found, applies⟩ := yields_bind.mp yields'
      obtain ⟨rfl, rfl⟩ := yields_get.mp found
      have stays := Expr.stays_inferAll arguments yields
      rcases List.mem_append.mp present with present | present
      · split at applies
        · next found =>
            obtain ⟨symbol, named, found⟩ := Option.bind_eq_some_iff.mp found
            rw [names_of_symbol? named, List.mem_singleton] at present
            exact Engine.Reaches.later stays (.inl (by rw [present, found]; rfl))
        · exact (Expr.reaches_infer callee applies name present).later stays
      · apply (Expr.reaches_inferAll arguments yields name present).sooner
        split at applies
        · exact stays_application applies
        · exact Expr.stays_infer callee applies
  | .binary operator left right, _, _, _, yields, name, present => by
      obtain ⟨first, middle, yields, yields'⟩ := yields_bind.mp yields
      obtain ⟨second, last, yields', yields''⟩ := yields_bind.mp yields'
      obtain ⟨_, _, found, operates⟩ := yields_bind.mp yields''
      obtain ⟨rfl, rfl⟩ := yields_get.mp found
      have more := stays_operation operates
      rcases List.mem_append.mp present with present | present
      · exact (Expr.reaches_infer left yields name present).sooner
          ((Expr.stays_infer right yields').trans more)
      · exact ((Expr.reaches_infer right yields' name present).later
          (Expr.stays_infer left yields)).sooner more
  | .prefixed .negate operand, _, _, _, yields, name, present =>
      Expr.reaches_infer operand yields name present
  | .prefixed .not operand, _, _, _, yields, name, present => by
      obtain ⟨term, between, yields, yields'⟩ := yields_bind.mp yields
      obtain ⟨_, _, constrains, yields'⟩ := yields_bind.mp yields'
      obtain ⟨_, rfl⟩ := yields_pure.mp yields'
      rw [yields_constrain] at constrains
      exact (Expr.reaches_infer operand yields name present).sooner
        (constrains ▸ (Engine.Stays.refl between).constrain _ _)
  | .postfixed _ operand, _, _, _, yields, name, present =>
      Expr.reaches_infer operand yields name present
  | .number _, _, _, _, _, _, present | .string _, _, _, _, _, _, present
  | .boolean _, _, _, _, _, _, present | .null, _, _, _, _, _, present => by cases present

theorem Expr.reaches_inferAll : ∀ (expressions : List Expr) {engine engine' : Engine}
    {terms : List Term}, Yields (Expr.inferAll expressions) engine terms engine' →
    ∀ name ∈ Expr.allNames expressions, engine.Reaches engine' name
  | [], _, _, _, _, _, present => by cases present
  | first :: rest, _, _, _, yields, name, present => by
      obtain ⟨term, between, yields, yields'⟩ := yields_bind.mp yields
      obtain ⟨terms, last, yields', yields''⟩ := yields_bind.mp yields'
      obtain ⟨_, rfl⟩ := yields_pure.mp yields''
      rcases List.mem_append.mp present with present | present
      · exact (Expr.reaches_infer first yields name present).sooner
          (Expr.stays_inferAll rest yields')
      · exact (Expr.reaches_inferAll rest yields' name present).later
          (Expr.stays_infer first yields)

end

/-- Where nothing but some shown names waits for a declaration, an expression whose term was found
uses shown names only. -/
theorem Engine.Shows.expr (shows : engine.Shows names Γ) {e : Expr} {term : Term}
    (yields : Yields e.infer engine term engine') (awaits : engine'.Awaits names) :
    Γ.SeesAll e.names := by
  intro name present
  cases Expr.reaches_infer e yields name present with
  | inl found => exact shows.seen name found
  | inr waits =>
      obtain ⟨reference, waiting, named⟩ := waits
      exact shows.others name (named ▸ awaits reference waiting)

theorem Engine.Shows.value? (shows : engine.Shows names Γ) {value : Option Expr}
    {found : Option Term} (yields : Yields (Infer.value? value) engine found engine')
    (awaits : engine'.Awaits names) : Γ.SeesAll (Expr.names? value) := by
  cases value with
  | none =>
      intro name present
      cases present
  | some e =>
      obtain ⟨term, yields, _⟩ := yields_value?_some.mp yields
      exact shows.expr yields awaits

theorem Engine.Shows.condition (shows : engine.Shows names Γ) {e : Expr}
    (yields : Yields (Infer.condition e) engine () engine') (awaits : engine'.Awaits names) :
    Γ.SeesAll e.names := by
  obtain ⟨term, between, yields', rfl⟩ := yields_condition.mp yields
  exact shows.expr yields'
    (awaits.of_earlier ((Engine.Stays.refl between).constrain _ _).forward)

theorem Engine.Shows.pattern (shows : engine.Shows names Γ) {subject : Option Term} {e : Expr}
    (yields : Yields (Infer.pattern subject e) engine () engine') (awaits : engine'.Awaits names) :
    Γ.SeesAll e.names := by
  obtain ⟨term, between, yields', constrains⟩ := yields_bind.mp yields
  apply shows.expr yields' (awaits.of_earlier _)
  split at constrains
  · obtain ⟨_, rfl⟩ := yields_pure.mp constrains
    exact List.prefix_rfl
  · rw [yields_constrain.mp constrains]
    exact ((Engine.Stays.refl between).constrain _ _).forward

end Expressions

section Statements

variable {engine engine' : Engine} {names : List String} {Γ : Env Unit}

theorem Engine.Shows.leaveBlock (shows : engine.Shows names Γ) {body body' : List Stmt}
    (ends : (Stmt.walkAll body).Ends engine.push body' engine') : engine'.pop.Shows names Γ := by
  obtain ⟨⟨_, _, grows⟩, _, _⟩ := Stmt.passes_walkAll body ends shows.sane.push
  exact shows.congr grows.block.1 grows.learns.known

theorem Scopes.Sane.types_exist {scopes : Scopes} (sane : scopes.Sane)
    {written : Option TypeName} {found : Option Ty} (known : scopes.typeOf? written = .ok found) :
    ∀ typeName ∈ written, typeName.type?.isSome :=
  (sane.typeOf?_eq_ok_iff.mp known).1

theorem Infer.scoped_parameters : ∀ {parameters : List Parameter} {engine engine' : Engine}
    {Γ : Env Unit}, Yields (Infer.parameters parameters) engine () engine' →
      engine.Shows names Γ → ∃ Γ', Parameter.Scoped Γ parameters Γ' ∧ engine'.Shows names Γ'
  | [], _, _, Γ, yields, shows => by
      obtain ⟨_, rfl⟩ := yields_pure.mp yields
      exact ⟨Γ, .nil, shows⟩
  | param :: rest, engine, _, Γ, yields, shows => by
      obtain ⟨_, middle, first, later⟩ := yields_bind.mp yields
      obtain ⟨type, isType, notType, new, rfl, _⟩ := yields_parameter.mp first
      have known := shows.sane.typeOf_eq_ok_iff.mp isType
      have shown : Engine.Shows _ names (Γ.declare param.name ()) :=
        shows.insert (.variable (.concrete type) true) notType (by intro _ same; cases same)
      obtain ⟨Γ', scoped', last⟩ := Infer.scoped_parameters later shown
      exact ⟨Γ', .cons (by rw [known]; rfl) (shows.free notType new) scoped', last⟩

/-- What a function declares before its body is walked. -/
theorem Infer.shows_function {header : FunctionHeader} {declared : Option Ty} {term : Term}
    (yields : Yields (Infer.function header) engine (declared, term) engine')
    (shows : engine.Shows names Γ) :
    header.parameterTypes?.isSome ∧ (∀ typeName ∈ header.returns, typeName.type?.isSome) ∧
      Γ.Free header.name ∧ engine'.Shows names (Γ.declare header.name ()) := by
  obtain ⟨parameters, between, areTypes, isType, yields', notType, new, rfl⟩ :=
    yields_function.mp yields
  have stays := (grows_orFresh yields').1
  have shown : between.Shows names Γ :=
    shows.congr stays.scopes stays.learns.known
  have known : header.parameterTypes? = some parameters :=
    shows.sane.typesOf_eq_ok_iff.mp areTypes
  have inserted := shown.insert (.function parameters term) notType
    (by intro _ same; cases same)
  refine ⟨by rw [known]; rfl, shows.sane.types_exist isType, shown.free notType new, ?_⟩
  rw [Engine.settleForward_eq]
  exact inserted.congr rfl rfl

theorem Stmt.scoped_declare {decl : Variable} {s' : Stmt} (shows : engine.Shows names Γ)
    (founded : decl.typeName.isSome ∨ decl.value.isSome)
    (ends : (Stmt.declare decl).walk.Ends engine s' engine') (awaits : engine'.Awaits names)
    (declared : engine.scopes.isRoot = true → [decl.name] ⊆ names) :
    (Stmt.declare decl).Scoped Γ (Γ.declare decl.name ()) ∧
      engine'.Shows names (Γ.declare decl.name ()) := by
  obtain ⟨_, ends', _⟩ := Stmt.ends_declare.mp ends
  obtain ⟨known, between, term, initial, declares, _⟩ := Variable.ends_walk.mp ends'
  obtain ⟨_, _, last, isType, yields, rfl, _⟩ := yields_initial.mp initial
  have stays := (stays_value? yields).1
  have before := awaits_declare declares awaits fun root =>
    declared (stays.scopes ▸ root) List.mem_cons_self
  obtain ⟨middle, yields', notType, new, rfl⟩ := yields_declare.mp declares
  have stays' := (grows_orFresh yields').1
  have scopes : middle.scopes = engine.scopes := stays'.scopes.trans stays.scopes
  have known : middle.known = engine.known := stays'.learns.known.trans stays.learns.known
  have shown : middle.Shows names Γ := shows.congr scopes known
  constructor
  · apply Stmt.Scoped.declare founded (shows.sane.types_exist isType) _ (shown.free notType new)
    have opened : Engine.Shows { engine with
        anchor := decl.position
        declaring := if engine.scopes.isRoot then some decl.name else engine.declaring } names Γ :=
      shows.congr rfl rfl
    exact opened.value? yields before
  · rw [Engine.settleForward_eq]
    have inserted := shown.insert (.variable term decl.mutable) notType
      (by intro _ same; cases same)
    exact inserted.congr rfl rfl

theorem Stmt.scoped_function {header : FunctionHeader} {body : List Stmt} {s' : Stmt}
    (shows : engine.Shows names Γ)
    (ends : (Stmt.function header (some body)).walk.Ends engine s' engine')
    (awaits : engine'.Awaits names)
    (walked : ∀ {engine engine' : Engine} {body' : List Stmt} {Γ : Env Unit},
      (Stmt.walkAll body).Ends engine body' engine' → engine.Shows names Γ →
        engine'.Awaits names → engine.scopes.isRoot = false →
        ∃ Γ', Stmt.AllScoped Γ body Γ' ∧ engine'.Shows names Γ') :
    (Stmt.function header (some body)).Scoped Γ (Γ.declare header.name ()) ∧
      engine'.Shows names (Γ.declare header.name ()) := by
  obtain ⟨_, _, inner, start, _, last, _, yields, yields', ends', yields'', _⟩ :=
    Stmt.ends_function.mp ends
  obtain ⟨known, written, free, shown⟩ := shows_function yields shows
  have entered : inner.enter.Shows names (Γ.declare header.name ()).enter :=
    shown.enter.congr rfl rfl
  obtain ⟨inside, taken, opened⟩ := scoped_parameters yields' entered
  have grows := grows_parameters yields'
  have concluded := (stays_conclusion yields'').1
  have waiting : last.Awaits names := awaits.of_earlier concluded.forward
  obtain ⟨_, scoped', _⟩ := walked ends' opened waiting (by rw [grows.isRoot]; rfl)
  obtain ⟨⟨_, _, grows'⟩, _, _⟩ := Stmt.passes_walkAll body ends' opened.sane
  have left := (grows.andThen grows').leave
  refine ⟨.function known written free taken scoped', ?_⟩
  exact shown.congr (concluded.scopes.trans left.1)
    (concluded.learns.known.trans left.2.2.learns.known)

mutual

/-- What a walk accepts is well scoped, where only names that are shown anyway wait for their
declarations at the end. -/
theorem Stmt.scoped_of_walk {names : List String} : ∀ (s : Stmt) {engine engine' : Engine}
    {s' : Stmt} {Γ : Env Unit}, s.walk.Ends engine s' engine' → s.Loaded → s.Founded →
      engine.Shows names Γ → engine'.Awaits names →
      (engine.scopes.isRoot = true → s.declares ⊆ names) →
      ∃ Γ', s.Scoped Γ Γ' ∧ engine'.Shows names Γ'
  | .expr e, _, _, _, Γ, ends, _, _, shows, awaits, _ => by
      obtain ⟨_, _, yields⟩ := ends_still.mp ends
      exact ⟨Γ, .expr (shows.expr yields awaits), shows.stays (Expr.stays_infer e yields)⟩
  | .comment text, _, _, _, Γ, ends, _, _, shows, _, _ => by
      obtain ⟨_, _, yields⟩ := ends_still.mp ends
      obtain ⟨_, rfl⟩ := yields_pure.mp yields
      exact ⟨Γ, .comment text, shows⟩
  | .use used, _, _, _, Γ, ends, _, _, shows, _, _ => by
      obtain ⟨_, _, yields⟩ := ends_still.mp ends
      obtain ⟨_, rfl⟩ := yields_pure.mp yields
      exact ⟨Γ, .use used, shows⟩
  | .parameter _, _, _, _, _, _, loaded, _, _, _, _ => by cases loaded
  | .returns value, _, _, _, Γ, ends, _, _, shows, awaits, _ => by
      obtain ⟨_, term, yields⟩ := Stmt.ends_returns.mp ends
      obtain ⟨_, between, yields', _, rfl⟩ := yields_returns.mp yields
      have awaits' : between.Awaits names := fun reference present =>
        awaits reference ((Engine.forward_addReturn between term).symm ▸ present)
      have shown := shows.stays (stays_value? yields').1
      have kept : (between.addReturn term).scopes = between.scopes ∧
          (between.addReturn term).known = between.known := by
        rw [Engine.addReturn]
        split <;> exact ⟨rfl, rfl⟩
      exact ⟨Γ, .returns (shows.value? yields' awaits'), shown.congr kept.1 kept.2⟩
  | .declare decl, _, _, _, Γ, ends, _, founded, shows, awaits, declared =>
      ⟨Γ.declare decl.name (), Stmt.scoped_declare shows founded ends awaits declared⟩
  | .function header none, _, _, _, Γ, ends, _, _, shows, _, _ => by
      obtain ⟨_, _, yields, _⟩ := Stmt.ends_prototype.mp ends
      obtain ⟨known, written, free, shown⟩ := shows_function yields shows
      exact ⟨Γ.declare header.name (), .prototype known written free, shown⟩
  | .function header (some body), _, _, _, Γ, ends, loaded, founded, shows, awaits, _ => by
      refine ⟨Γ.declare header.name (), Stmt.scoped_function shows ends awaits ?_⟩
      intro _ _ _ _ ends shows awaits inner
      exact Stmt.scoped_of_walkAll body ends loaded.2.2 founded shows awaits fun root =>
        absurd root (by rw [inner]; exact Bool.noConfusion)
  | .branch condition body alternate, _, _, _, Γ, ends, loaded, founded, shows, awaits, _ => by
      obtain ⟨_, _, last, _, yields, inside, rest, _⟩ := Stmt.ends_branch.mp ends
      have shown := shows.stays (stays_condition yields)
      have left := shown.leaveBlock inside
      have later := awaits.of_earlier (Alternate.forward_walk alternate rest left.sane).1
      have before := later.of_earlier (Stmt.forward_block inside shown.sane).1
      obtain ⟨_, scoped', _⟩ := Stmt.scoped_of_walkAll body inside loaded.1 founded.1 shown.enter
        later fun root => nomatch root
      obtain ⟨others, ended⟩ :=
        Alternate.scoped_of_walk alternate rest loaded.2 founded.2 left awaits
      exact ⟨Γ, .branch (shows.condition yields before) scoped' others, ended⟩
  | .loop condition body, _, _, _, Γ, ends, loaded, founded, shows, awaits, _ => by
      obtain ⟨_, _, last, yields, inside, rfl, _⟩ := Stmt.ends_loop.mp ends
      have shown := shows.stays (stays_condition yields)
      have before := awaits.of_earlier (Stmt.forward_block inside shown.sane).1
      obtain ⟨_, scoped', _⟩ := Stmt.scoped_of_walkAll body inside loaded founded shown.enter
        awaits fun root => nomatch root
      exact ⟨Γ, .loop (shows.condition yields before) scoped', shown.leaveBlock inside⟩
  | .switch subject arms, _, _, _, Γ, ends, loaded, founded, shows, awaits, _ => by
      obtain ⟨_, _, _, yields, inside, _⟩ := Stmt.ends_switch.mp ends
      have shown := shows.stays (Expr.stays_infer subject yields)
      have before := awaits.of_earlier (Arm.forward_walkAll arms inside shown.sane).1
      obtain ⟨scoped', ended⟩ := Arm.scoped_of_walkAll arms inside loaded founded shown awaits
      exact ⟨Γ, .switch (shows.expr yields before) scoped', ended⟩
  | .arm _, _, _, _, _, _, loaded, _, _, _, _ => by cases loaded
  | .merged body, _, _, _, Γ, ends, loaded, founded, shows, awaits, declared => by
      obtain ⟨_, inside, _⟩ := Stmt.ends_merged.mp ends
      obtain ⟨Γ', scoped', shown⟩ :=
        Stmt.scoped_of_walkAll body inside loaded founded shows awaits declared
      exact ⟨Γ', .merged scoped', shown⟩
termination_by structural part => part

theorem Alternate.scoped_of_walk {names : List String} : ∀ (alternate : Alternate)
    {engine engine' : Engine} {alternate' : Alternate} {Γ : Env Unit},
    alternate.walk.Ends engine alternate' engine' → alternate.Loaded → alternate.Founded →
      engine.Shows names Γ → engine'.Awaits names →
      alternate.Scoped Γ ∧ engine'.Shows names Γ
  | .none, _, _, _, _, ends, _, _, shows, _ => by
      obtain ⟨_, rfl⟩ := Alternate.ends_none.mp ends
      exact ⟨.none, shows⟩
  | .elseBranch condition body alternate, _, _, _, Γ, ends, loaded, founded, shows, awaits => by
      obtain ⟨_, _, last, _, yields, inside, rest, _⟩ := Alternate.ends_elseBranch.mp ends
      have shown := shows.stays (stays_condition yields)
      have left := shown.leaveBlock inside
      have later := awaits.of_earlier (Alternate.forward_walk alternate rest left.sane).1
      have before := later.of_earlier (Stmt.forward_block inside shown.sane).1
      obtain ⟨_, scoped', _⟩ := Stmt.scoped_of_walkAll body inside loaded.1 founded.1 shown.enter
        later fun root => nomatch root
      obtain ⟨others, ended⟩ :=
        Alternate.scoped_of_walk alternate rest loaded.2 founded.2 left awaits
      exact ⟨.elseBranch (shows.condition yields before) scoped' others, ended⟩
  | .otherwise body, _, _, _, Γ, ends, loaded, founded, shows, awaits => by
      obtain ⟨_, last, inside, rfl, _⟩ := Alternate.ends_otherwise.mp ends
      obtain ⟨_, scoped', _⟩ := Stmt.scoped_of_walkAll body inside loaded founded shows.enter
        awaits fun root => nomatch root
      exact ⟨.otherwise scoped', shows.leaveBlock inside⟩
termination_by structural part => part

theorem Arm.scoped_of_walk {names : List String} : ∀ (arm : Arm) {subject : Option Term}
    {engine engine' : Engine} {arm' : Arm} {Γ : Env Unit},
    (arm.walk subject).Ends engine arm' engine' → arm.Loaded → arm.Founded →
      engine.Shows names Γ → engine'.Awaits names →
      arm.Scoped Γ ∧ engine'.Shows names Γ
  | .value pattern body, _, _, _, _, Γ, ends, loaded, founded, shows, awaits => by
      obtain ⟨_, _, last, yields, inside, rfl, _⟩ := Arm.ends_value.mp ends
      have shown := shows.stays (stays_pattern yields)
      have before := awaits.of_earlier (Stmt.forward_block inside shown.sane).1
      obtain ⟨_, scoped', _⟩ := Stmt.scoped_of_walkAll body inside loaded founded shown.enter
        awaits fun root => nomatch root
      exact ⟨.value (shows.pattern yields before) scoped', shown.leaveBlock inside⟩
  | .otherwise body, _, _, _, _, Γ, ends, loaded, founded, shows, awaits => by
      obtain ⟨_, last, inside, rfl, _⟩ := Arm.ends_otherwise.mp ends
      obtain ⟨_, scoped', _⟩ := Stmt.scoped_of_walkAll body inside loaded founded shows.enter
        awaits fun root => nomatch root
      exact ⟨.otherwise scoped', shows.leaveBlock inside⟩
termination_by structural part => part

theorem Stmt.scoped_of_walkAll {names : List String} : ∀ (body : List Stmt)
    {engine engine' : Engine} {body' : List Stmt} {Γ : Env Unit},
    (Stmt.walkAll body).Ends engine body' engine' → Stmt.AllLoaded body → Stmt.AllFounded body →
      engine.Shows names Γ → engine'.Awaits names →
      (engine.scopes.isRoot = true → Stmt.allDeclares body ⊆ names) →
      ∃ Γ', Stmt.AllScoped Γ body Γ' ∧ engine'.Shows names Γ'
  | [], _, _, _, Γ, ends, _, _, shows, _, _ => by
      obtain ⟨_, rfl⟩ := Stmt.ends_nil.mp ends
      exact ⟨Γ, .nil, shows⟩
  | first :: rest, _, _, _, Γ, ends, loaded, founded, shows, awaits, declared => by
      obtain ⟨_, between, _, begins, goes, _⟩ := Stmt.ends_cons.mp ends
      have passes := Stmt.passes_walk first begins shows.sane
      obtain ⟨_, _, grows⟩ := passes.grows
      have later : between.scopes.isRoot = true → Stmt.allDeclares rest ⊆ names := fun root =>
        (List.append_subset.mp (declared (grows.isRoot ▸ root))).2
      have before := Stmt.awaits_walkAll rest goes (passes.sane shows.sane) later awaits
      obtain ⟨Γ', here, shown⟩ := Stmt.scoped_of_walk first begins loaded.1 founded.1 shows before
        fun root => (List.append_subset.mp (declared root)).1
      obtain ⟨Γ'', there, ended⟩ :=
        Stmt.scoped_of_walkAll rest goes loaded.2 founded.2 shown awaits later
      exact ⟨Γ'', .cons here there, ended⟩
termination_by structural part => part

theorem Arm.scoped_of_walkAll {names : List String} : ∀ (arms : List Arm)
    {subject : Option Term} {engine engine' : Engine} {arms' : List Arm} {Γ : Env Unit},
    (Arm.walkAll subject arms).Ends engine arms' engine' → Arm.AllLoaded arms →
      Arm.AllFounded arms → engine.Shows names Γ → engine'.Awaits names →
      Arm.AllScoped Γ arms ∧ engine'.Shows names Γ
  | [], _, _, _, _, _, ends, _, _, shows, _ => by
      obtain ⟨_, rfl⟩ := Arm.ends_nil.mp ends
      exact ⟨.nil, shows⟩
  | first :: rest, _, _, _, _, Γ, ends, loaded, founded, shows, awaits => by
      obtain ⟨_, between, _, begins, goes, _⟩ := Arm.ends_cons.mp ends
      have sane : between.scopes.Sane := (Arm.forward_walk begins shows.sane).2 ▸ shows.sane
      have before := awaits.of_earlier (Arm.forward_walkAll rest goes sane).1
      obtain ⟨here, shown⟩ :=
        Arm.scoped_of_walk first begins loaded.1 founded.1 shows before
      obtain ⟨there, ended⟩ := Arm.scoped_of_walkAll rest goes loaded.2 founded.2 shown awaits
      exact ⟨.cons here there, ended⟩
termination_by structural part => part

end

end Statements

theorem Engine.shows_start (names : List String) :
    Engine.start.Shows names (.announcingNames names) where
  sane := Scopes.sane_start
  seen name found := by
    left
    rw [lookup?, start, Scopes.resolve?_start, Ty.isTypeName] at *
    simpa using found
  block _ _ _ := rfl
  others name present := .inr (by simp [Env.lookup, Env.announcingNames, present])

/-- What inference accepts is well scoped. -/
theorem Program.wellScoped_of_infer {program typed : Program} {order : ForwardOrder}
    (loaded : Stmt.AllLoaded program) (founded : Stmt.AllFounded program)
    (inferred : program.infer order = .ok typed) : typed.WellScoped := by
  obtain ⟨part, last, ends, declared, settles⟩ := infer_eq_ok_iff.mp inferred
  rw [Engine.learn_of_loaded .start loaded] at ends
  have shows := Engine.shows_start (Stmt.allDeclares program)
  have awaits : last.Awaits (Stmt.allDeclares program) := by
    intro reference present
    rw [declared] at present
    cases present
  obtain ⟨Γ, scoped', _⟩ := Stmt.scoped_of_walkAll program ends loaded founded shows awaits
    fun _ => List.Subset.refl _
  have passes := Stmt.passes_walkAll program ends shows.sane
  have valid : program.WellScoped := ⟨Γ, scoped'⟩
  exact (valid.alike passes.alike).alike settles

end SmallLang
