import SmallLang.Proofs.Inference.Runs
import SmallLang.Proofs.Table.Sweep
import SmallLang.Proofs.Tree.Alike
import SmallLang.Proofs.Typing.Names

/-!
# What a walk leaves alone

A successful walk adds names to the innermost scope and terms to the innermost frame, and
changes no other scope or frame. What it writes into declarations that state their type is
that type.
-/

set_option autoImplicit false

namespace SmallLang

open Infer Walk

namespace Scopes

/-- Adds names to the innermost scope, the first of them last. -/
def insertAll (scopes : Scopes) : Scope → Scopes
  | [] => scopes
  | (name, symbol) :: rest => (scopes.insertAll rest).insert name symbol

theorem insertAll_append (scopes : Scopes) (later earlier : Scope) :
    scopes.insertAll (later ++ earlier) = (scopes.insertAll earlier).insertAll later := by
  induction later with
  | nil => rfl
  | cons entry rest ih => simp only [List.cons_append, insertAll, ih]

theorem pop_insert_of_not_isRoot {scopes : Scopes} (inner : scopes.isRoot = false)
    (name : String) (symbol : Symbol) : (scopes.insert name symbol).pop = scopes.pop := by
  obtain ⟨root, inside⟩ := scopes
  cases inside with
  | nil => cases inner
  | cons => rfl

theorem isRoot_insertAll (scopes : Scopes) (entries : Scope) :
    (scopes.insertAll entries).isRoot = scopes.isRoot := by
  induction entries with
  | nil => rfl
  | cons entry rest ih => exact (isRoot_insert _ entry.1 entry.2).trans ih

@[simp] theorem pop_push (scopes : Scopes) : scopes.push.pop = scopes := rfl

theorem pop_insertAll_push (scopes : Scopes) (entries : Scope) :
    (scopes.push.insertAll entries).pop = scopes := by
  induction entries with
  | nil => rfl
  | cons entry rest ih =>
      have inner : (scopes.push.insertAll rest).isRoot = false := isRoot_insertAll ..
      exact (pop_insert_of_not_isRoot inner entry.1 entry.2).trans ih

end Scopes

theorem Scopes.Sane.insertAll {scopes : Scopes} (sane : scopes.Sane) {entries : Scope}
    (proper : entries.Proper) : (scopes.insertAll entries).Sane := by
  induction entries with
  | nil => exact sane
  | cons entry rest ih =>
      obtain ⟨notType, new⟩ := proper entry (List.mem_cons_self ..)
      exact (ih fun other present => proper other (List.mem_cons_of_mem entry present)).insert
        notType new

namespace Engine

/-- The frames after the innermost function has returned some more terms. -/
def framesAfter (frames : List (List Term)) (returned : List Term) : List (List Term) :=
  match frames with
  | [] => []
  | frame :: outer => (frame ++ returned) :: outer

theorem framesAfter_nil (frames : List (List Term)) : framesAfter frames [] = frames := by
  cases frames <;> simp [framesAfter]

theorem framesAfter_append (frames : List (List Term)) (returned more : List Term) :
    framesAfter frames (returned ++ more) = framesAfter (framesAfter frames returned) more := by
  cases frames <;> simp [framesAfter]

/-- From one engine to a later one, constraints and placeholders were added, and nothing that
was known was given up. -/
structure Learns (engine engine' : Engine) : Prop where
  known : engine'.known = engine.known
  constraints : engine.constraints <+: engine'.constraints
  unbound : ∀ count, engine.table = .unbound count → ∃ more, engine'.table = .unbound more

variable {engine engine' engine'' : Engine} {returned more : List Term}

theorem Learns.refl (engine : Engine) : engine.Learns engine :=
  ⟨rfl, List.prefix_rfl, fun count same => ⟨count, same⟩⟩

theorem Learns.trans (first : engine.Learns engine') (second : engine'.Learns engine'') :
    engine.Learns engine'' where
  known := second.known.trans first.known
  constraints := first.constraints.trans second.constraints
  unbound := fun count same =>
    (first.unbound count same).elim fun more same' => second.unbound more same'

theorem Learns.constrain (learns : engine.Learns engine') (left right : Term) :
    engine.Learns (engine'.constrain left right) := by
  unfold Engine.constrain
  split
  · exact ⟨learns.known, learns.constraints.trans (List.prefix_append ..), learns.unbound⟩
  · exact learns

theorem Learns.grow (learns : engine.Learns engine') : engine.Learns engine'.grow where
  known := learns.known
  constraints := learns.constraints
  unbound := by
    intro count same
    obtain ⟨more, same'⟩ := learns.unbound count same
    refine ⟨more + 1, ?_⟩
    show engine'.table.grow = _
    rw [same', Table.grow_unbound]

theorem Learns.settleForward (learns : engine.Learns engine') (name : String) (term : Term) :
    engine.Learns (engine'.settleForward name term) := by
  unfold Engine.settleForward
  split
  · split
    · exact learns
    · apply Learns.constrain
      exact ⟨learns.known, learns.constraints, learns.unbound⟩
  · exact learns

/-- From one engine to a later one, names were added to the innermost scope, and terms to
the innermost frame. Outside of the root scope, no forward reference was settled. -/
structure Grows (engine engine' : Engine) (returned : List Term) : Prop where
  scopes : ∃ entries : Scope, entries.Proper ∧ engine'.scopes = engine.scopes.insertAll entries
  frames : engine'.frames = framesAfter engine.frames returned
  forward : engine.scopes.isRoot = false → engine.forward <+: engine'.forward
  learns : engine.Learns engine'

theorem Grows.refl (engine : Engine) : engine.Grows engine [] :=
  ⟨⟨[], nofun, rfl⟩, (framesAfter_nil engine.frames).symm, fun _ => List.prefix_rfl, .refl _⟩

theorem Grows.isRoot (grows : engine.Grows engine' returned) :
    engine'.scopes.isRoot = engine.scopes.isRoot := by
  obtain ⟨entries, _, grown⟩ := grows.scopes
  rw [grown, Scopes.isRoot_insertAll]

theorem Grows.trans (first : engine.Grows engine' returned)
    (second : engine'.Grows engine'' more) : engine.Grows engine'' (returned ++ more) where
  scopes := by
    obtain ⟨entries, proper, grown⟩ := first.scopes
    obtain ⟨entries', proper', grown'⟩ := second.scopes
    refine ⟨entries' ++ entries, ?_, ?_⟩
    · intro entry present
      exact (List.mem_append.mp present).elim (proper' entry) (proper entry)
    · rw [grown', grown, Scopes.insertAll_append]
  frames := by rw [second.frames, first.frames, framesAfter_append]
  forward := fun inner =>
    (first.forward inner).trans (second.forward (first.isRoot.trans inner))
  learns := first.learns.trans second.learns

theorem Grows.andThen (first : engine.Grows engine' []) (second : engine'.Grows engine'' more) :
    engine.Grows engine'' more :=
  first.trans second

theorem Grows.sane (grows : engine.Grows engine' returned) (sane : engine.scopes.Sane) :
    engine'.scopes.Sane := by
  obtain ⟨entries, proper, grown⟩ := grows.scopes
  rw [grown]
  exact sane.insertAll proper

/-- Leaving a block takes back the names that were added in it. -/
theorem Grows.block (grows : engine.push.Grows engine' returned) :
    engine'.pop.scopes = engine.scopes ∧ engine.Grows engine'.pop returned := by
  obtain ⟨entries, _, grown⟩ := grows.scopes
  have same : engine'.pop.scopes = engine.scopes := by
    show engine'.scopes.pop = _
    rw [grown]
    exact Scopes.pop_insertAll_push engine.scopes entries
  refine ⟨same, ⟨[], nofun, same⟩, grows.frames, fun _ => grows.forward rfl, ?_⟩
  exact ⟨grows.learns.known, grows.learns.constraints, grows.learns.unbound⟩

/-- Leaving a function takes back the names that were added in it, and its frame. -/
theorem Grows.leave (grows : engine.enter.Grows engine' returned) :
    engine'.leave.scopes = engine.scopes ∧ engine'.returned = returned ∧
      engine.Grows engine'.leave [] := by
  obtain ⟨entries, _, grown⟩ := grows.scopes
  have same : engine'.leave.scopes = engine.scopes := by
    show engine'.scopes.pop = _
    rw [grown]
    exact Scopes.pop_insertAll_push engine.scopes entries
  refine ⟨same, ?_, ⟨[], nofun, same⟩, ?_, fun _ => grows.forward rfl, ?_⟩
  · unfold Engine.returned
    rw [grows.frames]
    rfl
  · show engine'.frames.tail = _
    rw [grows.frames, framesAfter_nil]
    rfl
  · exact ⟨grows.learns.known, grows.learns.constraints, grows.learns.unbound⟩

/-- Only what is known of terms has changed. -/
structure Stays (engine engine' : Engine) : Prop where
  scopes : engine'.scopes = engine.scopes
  frames : engine'.frames = engine.frames
  declaring : engine'.declaring = engine.declaring
  forward : engine.forward <+: engine'.forward
  learns : engine.Learns engine'

theorem Stays.refl (engine : Engine) : engine.Stays engine :=
  ⟨rfl, rfl, rfl, List.prefix_rfl, .refl _⟩

theorem Stays.trans (first : engine.Stays engine') (second : engine'.Stays engine'') :
    engine.Stays engine'' :=
  ⟨second.scopes.trans first.scopes, second.frames.trans first.frames,
    second.declaring.trans first.declaring, first.forward.trans second.forward,
    first.learns.trans second.learns⟩

theorem Stays.grows (stays : engine.Stays engine') : engine.Grows engine' [] :=
  ⟨⟨[], nofun, stays.scopes⟩, by rw [framesAfter_nil, stays.frames], fun _ => stays.forward,
    stays.learns⟩

theorem constrain_eq (engine : Engine) (left right : Term) :
    engine.constrain left right =
      { engine with constraints := (engine.constrain left right).constraints } := by
  unfold Engine.constrain
  split <;> rfl

theorem settleForward_eq (engine : Engine) (name : String) (term : Term) :
    engine.settleForward name term =
      { engine with
        constraints := (engine.settleForward name term).constraints
        forward := (engine.settleForward name term).forward } := by
  unfold settleForward
  split
  · split
    · rfl
    · rw [constrain_eq]
  · rfl

theorem settleForward_of_not_isRoot (inner : engine.scopes.isRoot = false) (name : String)
    (term : Term) : engine.settleForward name term = engine := by
  unfold settleForward
  rw [if_neg (by rw [inner]; exact Bool.false_ne_true)]

theorem Stays.constrain (stays : engine.Stays engine') (left right : Term) :
    engine.Stays (engine'.constrain left right) := by
  have learns := stays.learns.constrain left right
  rw [constrain_eq] at learns ⊢
  exact ⟨stays.scopes, stays.frames, stays.declaring, stays.forward, learns⟩

theorem Stays.constrainAll (pairs : List (Term × Term)) :
    ∀ {engine' : Engine}, engine.Stays engine' → engine.Stays (engine'.constrainAll pairs) := by
  induction pairs with
  | nil => exact id
  | cons pair rest ih => exact fun stays => ih (stays.constrain pair.1 pair.2)

theorem Stays.grow (stays : engine.Stays engine') : engine.Stays engine'.grow :=
  ⟨stays.scopes, stays.frames, stays.declaring, stays.forward, stays.learns.grow⟩

end Engine

namespace Infer

variable {engine engine' : Engine}

theorem stays_name {name : String} {position : Position} {term : Term}
    (yields : Yields (Infer.name name position) engine term engine') : engine.Stays engine' := by
  rw [yields_name, yields_forward] at yields
  obtain ⟨_, _, _, rfl⟩ | ⟨_, _, ⟨_, _, _, rfl⟩ | ⟨_, _, rfl⟩⟩ := yields
  · exact .refl _
  · exact .refl _
  · have grown := (Engine.Stays.refl engine).grow
    exact ⟨rfl, rfl, rfl, List.prefix_append .., ⟨rfl, List.prefix_rfl, grown.learns.unbound⟩⟩

theorem stays_operation {operator : BinaryOperator} {left right : Term} {position : Position}
    {term : Term} (yields : Yields (operation operator left right position) engine term engine') :
    engine.Stays engine' := by
  unfold operation at yields
  split at yields
  · split at yields
    · obtain ⟨rfl, rfl⟩ := yields_pure.mp yields
      exact .refl _
    · exact (yields_fail.mp yields).elim
  · simp only [yields_bind, yields_constrain, yields_fresh, yields_pure] at yields
    obtain ⟨_, _, rfl, _, _, ⟨rfl, rfl⟩, _, _, rfl, rfl, rfl⟩ := yields
    exact ((Engine.Stays.refl engine).constrain left right).grow.constrain _ _

theorem stays_application {parameters : List Ty} {result : Term} {arguments : List Term}
    {term : Term} (yields : Yields (application parameters result arguments) engine term engine') :
    engine.Stays engine' := by
  unfold application at yields
  split at yields
  · simp only [yields_bind, yields_update, yields_pure] at yields
    obtain ⟨_, _, rfl, rfl, rfl⟩ := yields
    exact (Engine.Stays.refl engine).constrainAll _
  · obtain ⟨rfl, rfl⟩ := yields_pure.mp yields
    exact .refl _

end Infer

mutual

/-- An expression only adds to what is known of terms. -/
theorem Expr.stays_infer : ∀ (e : Expr) {engine engine' : Engine} {term : Term},
    Yields e.infer engine term engine' → engine.Stays engine'
  | .identifier .., _, _, _, yields => stays_name yields
  | .member object property, _, _, _, yields => by
      cases object with
      | identifier => exact stays_name yields
      | _ =>
          unfold Expr.infer at yields
          simp only [yields_bind, yields_fail] at yields
          obtain ⟨_, _, _, ⟨⟩⟩ := yields
  | .call callee arguments, _, _, _, yields => by
      unfold Expr.infer at yields
      simp only [yields_bind, yields_get] at yields
      obtain ⟨terms, between, yields, _, _, ⟨rfl, rfl⟩, yields'⟩ := yields
      refine (Expr.stays_inferAll arguments yields).trans ?_
      split at yields'
      · exact stays_application yields'
      · exact Expr.stays_infer callee yields'
  | .binary operator left right, _, _, _, yields => by
      unfold Expr.infer at yields
      simp only [yields_bind, yields_get] at yields
      obtain ⟨first, _, yields, second, _, yields', _, _, ⟨rfl, rfl⟩, yields''⟩ := yields
      exact (Expr.stays_infer left yields).trans
        ((Expr.stays_infer right yields').trans (stays_operation yields''))
  | .prefixed .negate operand, _, _, _, yields => Expr.stays_infer operand yields
  | .prefixed .not operand, _, _, _, yields => by
      unfold Expr.infer at yields
      simp only [yields_bind, yields_constrain, yields_pure] at yields
      obtain ⟨term, between, yields, _, _, rfl, rfl, rfl⟩ := yields
      exact (Expr.stays_infer operand yields).constrain _ _
  | .postfixed _ operand, _, _, _, yields => Expr.stays_infer operand yields
  | .number _, _, _, _, yields | .string _, _, _, _, yields | .boolean _, _, _, _, yields
  | .null, _, _, _, yields => by
      obtain ⟨rfl, rfl⟩ := yields_pure.mp yields
      exact .refl _

theorem Expr.stays_inferAll : ∀ (expressions : List Expr) {engine engine' : Engine}
    {terms : List Term}, Yields (Expr.inferAll expressions) engine terms engine' →
    engine.Stays engine'
  | [], _, _, _, yields => by
      obtain ⟨rfl, rfl⟩ := yields_pure.mp yields
      exact .refl _
  | first :: rest, _, _, _, yields => by
      unfold Expr.inferAll at yields
      simp only [yields_bind, yields_pure] at yields
      obtain ⟨term, between, yields, terms, _, yields', rfl, rfl⟩ := yields
      exact (Expr.stays_infer first yields).trans (Expr.stays_inferAll rest yields')

end

end SmallLang
