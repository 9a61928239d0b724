import SmallLang.Proofs.Module.Rebound
import SmallLang.Proofs.Scope.Inferred

/-!
# Names that inference binds inside

Where inference comes to an expression of a file, the scopes inside the root hold exactly the
parameters and declarations that hide names of the file there. So a name gets the new name of
a declaration at the top exactly where inference binds it to the root.
-/

set_option autoImplicit false

namespace SmallLang

open Infer Walk

/-- What a name means in the scopes inside the root. -/
def Scopes.inside? (scopes : Scopes) (name : String) : Option Symbol :=
  scopes.inner.findSome? fun scope => scope.lookup name

/-- Some names are those that inference binds inside the root. -/
def Engine.Hides (engine : Engine) (hidden : List String) : Prop :=
  ∀ name, name ∈ hidden ↔ (engine.scopes.inside? name).isSome

mutual

/-- A walk over a statement comes to an expression in it. A second statement has another expression
at the same place. The engines are those at the beginning and at the expression. -/
inductive Stmt.Visits : Stmt → Stmt → Engine → Engine → Expr → Expr → Prop where
  | expr {engine : Engine} {e e' : Expr} : Stmt.Visits (.expr e) (.expr e') engine engine e e'
  | returns {engine : Engine} {e e' : Expr} :
      Stmt.Visits (.returns (some e)) (.returns (some e')) engine engine e e'
  | declare {engine : Engine} {decl decl' : Variable} {e e' : Expr} :
      decl.value = some e → decl'.value = some e' →
      Stmt.Visits (.declare decl) (.declare decl') engine
        { engine with
          anchor := decl.position
          declaring := if engine.scopes.isRoot then some decl.name else engine.declaring } e e'
  | function {engine inner start place : Engine} {header header' : FunctionHeader}
      {declared : Option Ty} {before : Term} {body body' : List Stmt} {e e' : Expr} :
      Yields (Infer.function header) engine (declared, before) inner →
      Yields (Infer.parameters header.parameters) inner.enter () start →
      Stmt.AllVisits body body' start place e e' →
      Stmt.Visits (.function header (some body)) (.function header' (some body')) engine place e e'
  | condition {engine : Engine} {e e' : Expr} {body body' : List Stmt}
      {alternate alternate' : Alternate} :
      Stmt.Visits (.branch e body alternate) (.branch e' body' alternate') engine engine e e'
  | branch {engine between place : Engine} {condition condition' e e' : Expr}
      {body body' : List Stmt} {alternate alternate' : Alternate} :
      Yields (Infer.condition condition) engine () between →
      Stmt.AllVisits body body' between.push place e e' →
      Stmt.Visits (.branch condition body alternate) (.branch condition' body' alternate') engine
        place e e'
  | alternate {engine between last place : Engine} {condition condition' e e' : Expr}
      {body body' part : List Stmt} {alternate alternate' : Alternate} :
      Yields (Infer.condition condition) engine () between →
      (Stmt.walkAll body).Ends between.push part last →
      Alternate.Visits alternate alternate' last.pop place e e' →
      Stmt.Visits (.branch condition body alternate) (.branch condition' body' alternate') engine
        place e e'
  | repeated {engine : Engine} {e e' : Expr} {body body' : List Stmt} :
      Stmt.Visits (.loop e body) (.loop e' body') engine engine e e'
  | loop {engine between place : Engine} {condition condition' e e' : Expr}
      {body body' : List Stmt} :
      Yields (Infer.condition condition) engine () between →
      Stmt.AllVisits body body' between.push place e e' →
      Stmt.Visits (.loop condition body) (.loop condition' body') engine place e e'
  | subject {engine : Engine} {e e' : Expr} {arms arms' : List Arm} :
      Stmt.Visits (.switch e arms) (.switch e' arms') engine engine e e'
  | switch {engine between place : Engine} {subject subject' e e' : Expr} {term : Term}
      {arms arms' : List Arm} :
      Yields subject.infer engine term between →
      Arm.AllVisits (some term) arms arms' between place e e' →
      Stmt.Visits (.switch subject arms) (.switch subject' arms') engine place e e'

inductive Alternate.Visits : Alternate → Alternate → Engine → Engine → Expr → Expr → Prop where
  | condition {engine : Engine} {e e' : Expr} {body body' : List Stmt}
      {alternate alternate' : Alternate} :
      Alternate.Visits (.elseBranch e body alternate) (.elseBranch e' body' alternate') engine
        engine e e'
  | elseBranch {engine between place : Engine} {condition condition' e e' : Expr}
      {body body' : List Stmt} {alternate alternate' : Alternate} :
      Yields (Infer.condition condition) engine () between →
      Stmt.AllVisits body body' between.push place e e' →
      Alternate.Visits (.elseBranch condition body alternate)
        (.elseBranch condition' body' alternate') engine place e e'
  | alternate {engine between last place : Engine} {condition condition' e e' : Expr}
      {body body' part : List Stmt} {alternate alternate' : Alternate} :
      Yields (Infer.condition condition) engine () between →
      (Stmt.walkAll body).Ends between.push part last →
      Alternate.Visits alternate alternate' last.pop place e e' →
      Alternate.Visits (.elseBranch condition body alternate)
        (.elseBranch condition' body' alternate') engine place e e'
  | otherwise {engine place : Engine} {e e' : Expr} {body body' : List Stmt} :
      Stmt.AllVisits body body' engine.push place e e' →
      Alternate.Visits (.otherwise body) (.otherwise body') engine place e e'

inductive Arm.Visits : Option Term → Arm → Arm → Engine → Engine → Expr → Expr → Prop where
  | pattern {subject : Option Term} {engine : Engine} {e e' : Expr} {body body' : List Stmt} :
      Arm.Visits subject (.value e body) (.value e' body') engine engine e e'
  | value {subject : Option Term} {engine between place : Engine} {pattern pattern' e e' : Expr}
      {body body' : List Stmt} :
      Yields (Infer.pattern subject pattern) engine () between →
      Stmt.AllVisits body body' between.push place e e' →
      Arm.Visits subject (.value pattern body) (.value pattern' body') engine place e e'
  | otherwise {subject : Option Term} {engine place : Engine} {e e' : Expr}
      {body body' : List Stmt} :
      Stmt.AllVisits body body' engine.push place e e' →
      Arm.Visits subject (.otherwise body) (.otherwise body') engine place e e'

inductive Stmt.AllVisits : List Stmt → List Stmt → Engine → Engine → Expr → Expr → Prop where
  | head {engine place : Engine} {first first' : Stmt} {rest rest' : List Stmt} {e e' : Expr} :
      Stmt.Visits first first' engine place e e' →
      Stmt.AllVisits (first :: rest) (first' :: rest') engine place e e'
  | tail {engine between place : Engine} {first first' part : Stmt} {rest rest' : List Stmt}
      {e e' : Expr} :
      first.walk.Ends engine part between → Stmt.AllVisits rest rest' between place e e' →
      Stmt.AllVisits (first :: rest) (first' :: rest') engine place e e'

inductive Arm.AllVisits :
    Option Term → List Arm → List Arm → Engine → Engine → Expr → Expr → Prop where
  | head {subject : Option Term} {engine place : Engine} {first first' : Arm}
      {rest rest' : List Arm} {e e' : Expr} :
      Arm.Visits subject first first' engine place e e' →
      Arm.AllVisits subject (first :: rest) (first' :: rest') engine place e e'
  | tail {subject : Option Term} {engine between place : Engine} {first first' part : Arm}
      {rest rest' : List Arm} {e e' : Expr} :
      (first.walk subject).Ends engine part between →
      Arm.AllVisits subject rest rest' between place e e' →
      Arm.AllVisits subject (first :: rest) (first' :: rest') engine place e e'

end

namespace Scopes

variable {scopes : Scopes} {name : String}

/-- A name that is bound inside hides the one in the root. -/
theorem resolve?_eq (scopes : Scopes) (name : String) :
    scopes.resolve? name = (scopes.inside? name).or (scopes.root.lookup name) := rfl

theorem inside?_of_isRoot (root : scopes.isRoot = true) (name : String) :
    scopes.inside? name = none := by
  unfold inside?
  rw [List.isEmpty_iff.mp root]
  rfl

theorem inside?_insert (scopes : Scopes) (name other : String) (symbol : Symbol) :
    (scopes.insert name symbol).inside? other =
      if other = name ∧ scopes.isRoot = false then some symbol else scopes.inside? other := by
  obtain ⟨root, inner⟩ := scopes
  cases inner with
  | nil => simp [insert, inside?, isRoot]
  | cons scope outer =>
      simp only [insert, inside?, List.findSome?_cons, Scope.lookup_cons]
      by_cases same : other = name <;> simp [same, isRoot]

end Scopes

/-- Those of some new names that are bound inside the root. -/
def Engine.inside (engine : Engine) (names : List String) : List String :=
  if engine.scopes.isRoot then [] else names

namespace Engine.Hides

variable {engine engine' : Engine} {hidden : List String}

theorem congr (hides : engine.Hides hidden) (scopes : engine'.scopes = engine.scopes) :
    engine'.Hides hidden :=
  fun name => scopes ▸ hides name

theorem push (hides : engine.Hides hidden) : engine.push.Hides hidden := hides

theorem enter (hides : engine.Hides hidden) : engine.enter.Hides hidden := hides

theorem of_isRoot (root : engine.scopes.isRoot = true) : engine.Hides [] := by
  intro name
  rw [Scopes.inside?_of_isRoot root]
  simp

theorem insert (hides : engine.Hides hidden) (name : String) (symbol : Symbol)
    (scopes : engine'.scopes = engine.scopes.insert name symbol) :
    engine'.Hides (engine.inside [name] ++ hidden) := by
  intro other
  rw [scopes, Scopes.inside?_insert, inside, List.mem_append, hides other]
  cases engine.scopes.isRoot with
  | true => simp
  | false => by_cases same : other = name <;> simp [same]

end Engine.Hides

section Walks

variable {engine engine' : Engine} {hidden : List String}

theorem Infer.hides_function {header : FunctionHeader} {declared : Option Ty} {term : Term}
    (yields : Yields (Infer.function header) engine (declared, term) engine')
    (hides : engine.Hides hidden) : engine'.Hides (engine.inside [header.name] ++ hidden) := by
  obtain ⟨parameters, between, _, _, yields', _, _, rfl⟩ := yields_function.mp yields
  have same : between.scopes = engine.scopes := (grows_orFresh yields').1.scopes
  apply hides.insert header.name (.function parameters term)
  rw [Engine.settleForward_eq, same]

theorem Infer.hides_declare {decl : Variable} {known : Option Term} {term : Term}
    (yields : Yields (Infer.declare decl known) engine term engine')
    (hides : engine.Hides hidden) : engine'.Hides (engine.inside [decl.name] ++ hidden) := by
  obtain ⟨between, yields', _, _, rfl⟩ := yields_declare.mp yields
  have same : between.scopes = engine.scopes := (grows_orFresh yields').1.scopes
  apply hides.insert decl.name (.variable term decl.mutable)
  rw [Engine.settleForward_eq, same]

theorem Infer.hides_parameters {parameters : List Parameter} : ∀ {engine engine' : Engine}
    {hidden : List String}, Yields (Infer.parameters parameters) engine () engine' →
      engine.scopes.isRoot = false → engine.Hides hidden →
      engine'.Hides (parameters.map (·.name) ++ hidden) := by
  induction parameters with
  | nil =>
      intro engine engine' hidden yields _ hides
      obtain ⟨_, rfl⟩ := yields_pure.mp yields
      exact hides
  | cons param rest ih =>
      intro engine engine' hidden yields inner hides
      obtain ⟨_, between, yields, yields'⟩ := yields_bind.mp yields
      obtain ⟨type, _, _, _, rfl, _⟩ := yields_parameter.mp yields
      have inserted : Engine.Hides { engine with
          scopes := engine.scopes.insert param.name (.variable (.concrete type) true) }
          (engine.inside [param.name] ++ hidden) :=
        hides.insert param.name (.variable (.concrete type) true) rfl
      rw [Engine.inside, if_neg (by simp [inner])] at inserted
      have taken := ih yields' (by rw [Scopes.isRoot_insert, inner]) inserted
      intro name
      rw [← taken name]
      simp only [List.map_cons, List.mem_append, List.mem_cons, List.not_mem_nil, or_false]
      tauto

/-- A statement that declares nothing leaves the scopes as they are. -/
theorem Stmt.Rebound.scopes_eq {naming : Naming} {s s' part : Stmt}
    (rebound : s.Rebound naming hidden s') (undeclared : s.declared? = none)
    (ends : s.walk.Ends engine part engine') (sane : engine.scopes.Sane) :
    engine'.scopes = engine.scopes := by
  cases rebound with
  | expr =>
      obtain ⟨_, _, yields⟩ := ends_still.mp ends
      exact (Expr.stays_infer _ yields).scopes
  | comment | use =>
      obtain ⟨_, _, yields⟩ := ends_still.mp ends
      obtain ⟨_, rfl⟩ := yields_pure.mp yields
      rfl
  | returns =>
      obtain ⟨_, term, yields⟩ := Stmt.ends_returns.mp ends
      obtain ⟨_, between, yields', _, rfl⟩ := yields_returns.mp yields
      have kept : (between.addReturn term).scopes = between.scopes := by
        rw [Engine.addReturn]
        split <;> rfl
      exact kept.trans (stays_value? yields').1.scopes
  | declare | prototype | function => cases undeclared
  | branch =>
      obtain ⟨between, _, last, _, yields, ends, ends', _⟩ := Stmt.ends_branch.mp ends
      have stays := stays_condition yields
      have sane' : between.scopes.Sane := stays.scopes ▸ sane
      obtain ⟨_, same⟩ := Stmt.forward_block ends sane'
      have sane'' : last.pop.scopes.Sane := same ▸ sane'
      obtain ⟨_, same'⟩ := Alternate.forward_walk _ ends' sane''
      exact same'.trans (same.trans stays.scopes)
  | loop =>
      obtain ⟨between, _, _, yields, ends', rfl, _⟩ := Stmt.ends_loop.mp ends
      have stays := stays_condition yields
      have sane' : between.scopes.Sane := stays.scopes ▸ sane
      exact (Stmt.forward_block ends' sane').2.trans stays.scopes
  | switch =>
      obtain ⟨_, between, _, yields, ends, _⟩ := Stmt.ends_switch.mp ends
      have stays := Expr.stays_infer _ yields
      have sane' : between.scopes.Sane := stays.scopes ▸ sane
      exact (Arm.forward_walkAll _ ends sane').2.trans stays.scopes

/-- Inside the root, what a statement declares hides a name from then on. -/
theorem Stmt.Rebound.hides {naming : Naming} {s s' part : Stmt}
    (rebound : s.Rebound naming hidden s') (ends : s.walk.Ends engine part engine')
    (sane : engine.scopes.Sane) (hides : engine.Hides hidden)
    (inner : engine.scopes.isRoot = false) : engine'.Hides (s.declared?.toList ++ hidden) := by
  by_cases undeclared : s.declared? = none
  · rw [undeclared]
    exact hides.congr (rebound.scopes_eq undeclared ends sane)
  have all : engine.inside s.declared?.toList = s.declared?.toList := if_neg (by simp [inner])
  rw [← all]
  cases rebound with
  | @declare _ decl =>
      obtain ⟨_, ends', _⟩ := Stmt.ends_declare.mp ends
      obtain ⟨known, between, term, initial, declares, _⟩ := Variable.ends_walk.mp ends'
      obtain ⟨_, _, last, _, yields, rfl, _⟩ := yields_initial.mp initial
      have same : last.scopes = engine.scopes := (stays_value? yields).1.scopes
      have hides' : Engine.Hides { last with declaring := none } hidden := hides.congr same
      have declared := hides_declare declares hides'
      rw [Engine.inside, same] at declared
      exact declared
  | prototype =>
      obtain ⟨_, _, yields, _⟩ := Stmt.ends_prototype.mp ends
      exact hides_function yields hides
  | @function _ header body =>
      obtain ⟨_, _, between, start, _, last, _, yields, yields', ends', yields'', _⟩ :=
        Stmt.ends_function.mp ends
      have sane' : between.enter.scopes.Sane := ((grows_function yields).sane sane).push
      have opened := grows_parameters yields'
      obtain ⟨⟨_, _, grows⟩, _, _⟩ := Stmt.passes_walkAll body ends' (opened.sane sane')
      have left := (opened.andThen grows).leave.1
      exact (hides_function yields hides).congr
        ((stays_conclusion yields'').1.scopes.trans left)
  | _ => exact absurd rfl undeclared

mutual

/-- Inference comes to an expression with the names bound inside the root that are hidden there. -/
theorem Stmt.Visits.rebound {naming : Naming} : ∀ {s s' : Stmt} {engine place : Engine}
    {e e' : Expr} {hidden : List String}, s.Visits s' engine place e e' →
      s.Rebound naming hidden s' → engine.scopes.Sane → engine.Hides hidden →
      (s.declared?.isSome → engine.scopes.isRoot = false) →
      ∃ hidden, place.Hides hidden ∧ e.Rebound naming hidden e'
  | _, _, _, _, _, _, hidden, .expr, rebound, _, hides, _ => by
      cases rebound with
      | expr rebound => exact ⟨hidden, hides, rebound⟩
  | _, _, _, _, _, _, hidden, .returns, rebound, _, hides, _ => by
      cases rebound with
      | returns rebound =>
          cases rebound with
          | some rebound => exact ⟨hidden, hides, rebound⟩
  | _, _, _, _, _, _, hidden, .declare value value', rebound, _, hides, _ => by
      cases rebound with
      | @declare _ _ new rebound =>
          obtain rfl : new = some _ := value'
          rw [value] at rebound
          cases rebound with
          | some rebound => exact ⟨hidden, hides.congr rfl, rebound⟩
  | _, _, _, _, _, _, hidden, .function yields yields' visits, rebound, sane, hides, inner => by
      cases rebound with
      | function rebound =>
          have named := hides_function yields hides
          rw [Engine.inside, if_neg (by simp [inner rfl])] at named
          have opened := grows_parameters yields'
          have sane' := opened.sane ((grows_function yields).sane sane).push
          have taken := hides_parameters yields' rfl named.enter
          exact Stmt.AllVisits.rebound visits rebound sane' taken opened.isRoot
  | _, _, _, _, _, _, hidden, .condition, rebound, _, hides, _ => by
      cases rebound with
      | branch rebound => exact ⟨hidden, hides, rebound⟩
  | _, _, _, _, _, _, hidden, .branch yields visits, rebound, sane, hides, _ => by
      cases rebound with
      | branch _ rebound =>
          have stays := stays_condition yields
          have sane' := stays.grows.sane sane
          exact Stmt.AllVisits.rebound visits rebound sane'.push (hides.congr stays.scopes).push rfl
  | _, _, _, _, _, _, hidden, .alternate yields ends visits, rebound, sane, hides, _ => by
      cases rebound with
      | branch _ _ rebound =>
          have stays := stays_condition yields
          have sane' := stays.grows.sane sane
          have same := (Stmt.forward_block ends sane').2
          exact Alternate.Visits.rebound visits rebound (same ▸ sane')
            (hides.congr (same.trans stays.scopes))
  | _, _, _, _, _, _, hidden, .repeated, rebound, _, hides, _ => by
      cases rebound with
      | loop rebound => exact ⟨hidden, hides, rebound⟩
  | _, _, _, _, _, _, hidden, .loop yields visits, rebound, sane, hides, _ => by
      cases rebound with
      | loop _ rebound =>
          have stays := stays_condition yields
          have sane' := stays.grows.sane sane
          exact Stmt.AllVisits.rebound visits rebound sane'.push (hides.congr stays.scopes).push rfl
  | _, _, _, _, _, _, hidden, .subject, rebound, _, hides, _ => by
      cases rebound with
      | switch rebound => exact ⟨hidden, hides, rebound⟩
  | _, _, _, _, _, _, hidden, .switch yields visits, rebound, sane, hides, _ => by
      cases rebound with
      | switch _ rebound =>
          have stays := Expr.stays_infer _ yields
          exact Arm.AllVisits.rebound visits rebound (stays.grows.sane sane)
            (hides.congr stays.scopes)

theorem Alternate.Visits.rebound {naming : Naming} : ∀ {alternate alternate' : Alternate}
    {engine place : Engine} {e e' : Expr} {hidden : List String},
      alternate.Visits alternate' engine place e e' →
      alternate.Rebound naming hidden alternate' → engine.scopes.Sane → engine.Hides hidden →
      ∃ hidden, place.Hides hidden ∧ e.Rebound naming hidden e'
  | _, _, _, _, _, _, hidden, .condition, rebound, _, hides => by
      cases rebound with
      | elseBranch rebound => exact ⟨hidden, hides, rebound⟩
  | _, _, _, _, _, _, hidden, .elseBranch yields visits, rebound, sane, hides => by
      cases rebound with
      | elseBranch _ rebound =>
          have stays := stays_condition yields
          have sane' := stays.grows.sane sane
          exact Stmt.AllVisits.rebound visits rebound sane'.push (hides.congr stays.scopes).push rfl
  | _, _, _, _, _, _, hidden, .alternate yields ends visits, rebound, sane, hides => by
      cases rebound with
      | elseBranch _ _ rebound =>
          have stays := stays_condition yields
          have sane' := stays.grows.sane sane
          have same := (Stmt.forward_block ends sane').2
          exact Alternate.Visits.rebound visits rebound (same ▸ sane')
            (hides.congr (same.trans stays.scopes))
  | _, _, _, _, _, _, hidden, .otherwise visits, rebound, sane, hides => by
      cases rebound with
      | otherwise rebound =>
          exact Stmt.AllVisits.rebound visits rebound sane.push hides.push rfl

theorem Arm.Visits.rebound {naming : Naming} : ∀ {subject : Option Term} {arm arm' : Arm}
    {engine place : Engine} {e e' : Expr} {hidden : List String},
      Arm.Visits subject arm arm' engine place e e' →
      arm.Rebound naming hidden arm' → engine.scopes.Sane → engine.Hides hidden →
      ∃ hidden, place.Hides hidden ∧ e.Rebound naming hidden e'
  | _, _, _, _, _, _, _, hidden, .pattern, rebound, _, hides => by
      cases rebound with
      | value rebound => exact ⟨hidden, hides, rebound⟩
  | _, _, _, _, _, _, _, hidden, .value yields visits, rebound, sane, hides => by
      cases rebound with
      | value _ rebound =>
          have stays := stays_pattern yields
          have sane' := stays.grows.sane sane
          exact Stmt.AllVisits.rebound visits rebound sane'.push (hides.congr stays.scopes).push rfl
  | _, _, _, _, _, _, _, hidden, .otherwise visits, rebound, sane, hides => by
      cases rebound with
      | otherwise rebound =>
          exact Stmt.AllVisits.rebound visits rebound sane.push hides.push rfl

theorem Stmt.AllVisits.rebound {naming : Naming} : ∀ {body body' : List Stmt}
    {engine place : Engine} {e e' : Expr} {hidden : List String},
      Stmt.AllVisits body body' engine place e e' →
      Stmt.AllRebound naming hidden body body' → engine.scopes.Sane → engine.Hides hidden →
      engine.scopes.isRoot = false → ∃ hidden, place.Hides hidden ∧ e.Rebound naming hidden e'
  | _, _, _, _, _, _, hidden, .head visits, rebound, sane, hides, inner => by
      cases rebound with
      | cons rebound => exact Stmt.Visits.rebound visits rebound sane hides fun _ => inner
  | _, _, _, _, _, _, hidden, .tail ends visits, rebound, sane, hides, inner => by
      cases rebound with
      | cons rebound rebound' =>
          have passes := Stmt.passes_walk _ ends sane
          obtain ⟨_, _, grows⟩ := passes.grows
          exact Stmt.AllVisits.rebound visits rebound' (passes.sane sane)
            (rebound.hides ends sane hides inner) (grows.isRoot.trans inner)

theorem Arm.AllVisits.rebound {naming : Naming} : ∀ {subject : Option Term}
    {arms arms' : List Arm} {engine place : Engine} {e e' : Expr} {hidden : List String},
      Arm.AllVisits subject arms arms' engine place e e' →
      Arm.AllRebound naming hidden arms arms' → engine.scopes.Sane → engine.Hides hidden →
      ∃ hidden, place.Hides hidden ∧ e.Rebound naming hidden e'
  | _, _, _, _, _, _, _, hidden, .head visits, rebound, sane, hides => by
      cases rebound with
      | cons rebound => exact Arm.Visits.rebound visits rebound sane hides
  | _, _, _, _, _, _, _, hidden, .tail ends visits, rebound, sane, hides => by
      cases rebound with
      | cons rebound rebound' =>
          have same := (Arm.forward_walk ends sane).2
          exact Arm.AllVisits.rebound visits rebound' (same ▸ sane) (hides.congr same)

end

/-- At the top of a file, inference binds a name to the root where a declaration at the top gives
it its new name. -/
theorem Stmt.Visits.reboundTop {naming : Naming} {s s' : Stmt} {engine place : Engine}
    {e e' : Expr} (visits : s.Visits s' engine place e e') (rebound : s.ReboundTop naming s')
    (sane : engine.scopes.Sane) (root : engine.scopes.isRoot = true) :
    ∃ hidden, place.Hides hidden ∧ e.Rebound naming hidden e' := by
  have hides := Engine.Hides.of_isRoot root
  cases rebound with
  | @declare _ new rebound =>
      cases visits with
      | declare value value' =>
          obtain rfl : new = some e' := value'
          rw [value] at rebound
          cases rebound with
          | some rebound => exact ⟨[], hides.congr rfl, rebound⟩
  | prototype => cases visits
  | function rebound =>
      cases visits with
      | function yields yields' visits =>
          have named := hides_function yields hides
          rw [Engine.inside, if_pos root] at named
          have opened := grows_parameters yields'
          have sane' := opened.sane ((grows_function yields).sane sane).push
          have taken := hides_parameters yields' rfl named.enter
          simp only [List.append_nil] at taken
          exact visits.rebound rebound sane' taken opened.isRoot
  | inside undeclared rebound =>
      exact visits.rebound rebound sane hides (by simp [undeclared])

end Walks

end SmallLang
