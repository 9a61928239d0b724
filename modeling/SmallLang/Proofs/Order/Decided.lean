import SmallLang.Proofs.Order.Grounded

/-!
# Notes that come down to types

Where all names that some statements use come down to types, so does all that is noted in them, if
no function in them is circular.
-/

set_option autoImplicit false

namespace SmallLang

open Infer Walk

/-- All of some notes come down to types. -/
def Term.AllGrounded (final : List Constraint) (notes : List (Option Term)) : Prop :=
  ∀ note ∈ notes, ∀ term ∈ note, term.Grounded final

section Notes

variable {final : List Constraint} {first second : List (Option Term)}

theorem Term.allGrounded_nil : AllGrounded final [] := nofun

theorem Term.AllGrounded.append (grounded : AllGrounded final first)
    (grounded' : AllGrounded final second) : AllGrounded final (first ++ second) :=
  fun note present => (List.mem_append.mp present).elim (grounded note) (grounded' note)

end Notes

theorem Variable.founded_of_worth {look : String → Option Meaning} {decl : Variable}
    {found : Option Kind} {kind : Kind} (valued : Expr.Worth? look decl.value found)
    (stated : ((decl.typeName.bind TypeName.type?).map Ty.kind).or found = some kind) :
    decl.isOpen (fun _ => false) = false := by
  rw [isOpen]
  cases written : decl.typeName with
  | some => rfl
  | none =>
      rw [written, Option.bind_none, Option.map_none, Option.none_or] at stated
      rw [stated] at valued
      cases value' : decl.value with
      | some e => exact e.isOpen_of_known
      | none =>
          rw [value'] at valued
          cases valued

/-- All names are known after a declaration where they are before, unless it is circular. -/
theorem Stmt.Worth.known_after {s : Stmt} {Δ Δ' : Env Meaning} {returned notes : List Kind}
    (worth : Stmt.Worth Δ s Δ' returned notes) (decided : NoneCircular s.declarations) :
    s.unknownAfter (fun _ => false) = fun _ => false := by
  cases worth with
  | @declare _ decl _ _ _ valued stated _ =>
      rw [unknownAfter, Variable.founded_of_worth valued stated, Function.update_eq_self_iff]
  | prototype => exact Function.update_eq_self_iff.mpr rfl
  | @function _ _ _ header body =>
      have known : header.isOpen
          (allOpenReturns body (header.unknownInside fun _ => false)) = false :=
        decided header body List.mem_cons_self
      rw [unknownAfter, known, Function.update_eq_self_iff]
  | _ => rfl

section Statements

variable {final : List Constraint} {ahead : List ForwardReference} {engine engine' : Engine}

/-- Where all names that a function uses come down to types, so does what is noted in it. -/
theorem Stmt.grounded_function {header : FunctionHeader} {body : List Stmt} {s' : Stmt}
    {Δ Δ' : Env Meaning} {returned notes : List Kind}
    (worth : Stmt.AllWorth Δ body Δ' returned notes)
    (walks : ∀ {engine engine' : Engine} {body' : List Stmt},
      (Stmt.walkAll body).Ends engine body' engine' → engine.Inside final ahead engine' →
        engine.GroundsKnown final ahead (fun _ => false) (Stmt.allNeeds [] body) →
        Term.AllGrounded final (Stmt.allNotes body'))
    (decided : header.isCircular body = false)
    (ends : (Stmt.function header (some body)).walk.Ends engine s' engine')
    (sane : engine.scopes.Sane) (within : engine'.constraints ⊆ final)
    (forward : engine'.forward <+: ahead)
    (grounds : engine.GroundsKnown final ahead (fun _ => false)
      ((Stmt.function header (some body)).needs [])) :
    Term.AllGrounded final s'.notes := by
  obtain ⟨declared, before, inner, start, body', last, term, begins, given, walked, concluded,
    rfl⟩ := Stmt.ends_function.mp ends
  obtain ⟨inside, _, _⟩ :=
    Stmt.inside_function begins given walked concluded sane within forward
  obtain ⟨grounded, grounded'⟩ := Stmt.grounded_own begins given
    (fun grounds => Stmt.AllWorth.leaves worth walked inside grounds) concluded within grounds
    decided
  have names : start.GroundsKnown final ahead (fun _ => false) (Stmt.allNeeds [] body) := by
    intro name used known
    refine grounds_start begins given (fun _ _ => grounded) ?_
    intro missing differs
    exact grounds name (Stmt.mem_needs_of_mem_body used differs missing) known
  intro note present
  cases present with
  | head =>
      rintro _ ⟨⟩
      exact grounded'
  | tail _ present => exact walks walked inside names note present

/-- The two ways of a branch, one after the other. -/
theorem Stmt.grounded_branch {condition : Expr} {body body' : List Stmt}
    {alternate alternate' : Alternate} {between last : Engine}
    (yields : Yields (Infer.condition condition) engine () between)
    (walked : (Stmt.walkAll body).Ends between.push body' last)
    (walked' : alternate.walk.Ends last.pop alternate' engine')
    (walks : between.push.Inside final ahead last →
      between.push.GroundsKnown final ahead (fun _ => false) (Stmt.allNeeds [] body) →
      Term.AllGrounded final (Stmt.allNotes body'))
    (walks' : last.pop.Inside final ahead engine' →
      last.pop.GroundsKnown final ahead (fun _ => false) alternate.needs →
      Term.AllGrounded final alternate'.notes)
    (inside : engine.Inside final ahead engine')
    (grounds : engine.GroundsKnown final ahead (fun _ => false)
      (condition.names ++ Stmt.allNeeds [] body ++ alternate.needs)) :
    Term.AllGrounded final (Stmt.allNotes body' ++ alternate'.notes) := by
  have stays := stays_condition yields
  have inside' := inside.second stays.grows
  obtain ⟨⟨_, _, grows⟩, _, _⟩ := Stmt.passes_walkAll body walked inside'.sane.push
  obtain ⟨⟨_, _, grows'⟩, _, _⟩ :=
    Alternate.passes_walk alternate walked' (grows.block.2.sane inside'.sane)
  obtain ⟨needs, others⟩ := grounds.append
  have first : between.Inside final ahead last.pop :=
    inside'.first (grows.block.2.isRoot.trans inside'.inner) grows'
  exact (walks first.block (needs.append.2.stays stays).push).append
    (walks' (inside'.second grows.block.2) (grows.grounds_block (others.stays stays)))

mutual

/-- Where all names that a statement of known kinds uses come down to types, so does all that is
noted in it, if no function in it is circular. -/
theorem Stmt.Worth.grounded : ∀ {s s' : Stmt} {Δ Δ' : Env Meaning} {returned notes : List Kind}
    {engine engine' : Engine} {later : List String}, Stmt.Worth Δ s Δ' returned notes →
      Stmt.NoneCircular s.declarations → s.walk.Ends engine s' engine' →
      engine.Inside final ahead engine' →
      engine.GroundsKnown final ahead (fun _ => false) (s.needs later) →
      Term.AllGrounded final s'.notes
  | .expr _, _, _, _, _, _, _, _, _, .expr _, _, ends, _, _
  | .comment _, _, _, _, _, _, _, _, _, .comment _, _, ends, _, _
  | .use _, _, _, _, _, _, _, _, _, .use _, _, ends, _, _ => by
      rw [Stmt.walk, ends_still] at ends
      obtain ⟨rfl, _⟩ := ends
      exact Term.allGrounded_nil
  | .returns _, _, _, _, _, _, _, _, _, .returns _, _, ends, _, _ => by
      obtain ⟨rfl, _⟩ := Stmt.ends_returns.mp ends
      exact Term.allGrounded_nil
  | .declare _, _, _, _, _, _, _, _, _, .declare _ valued stated _, _, ends, inside, grounds => by
      obtain ⟨decl', walked, rfl⟩ := Stmt.ends_declare.mp ends
      obtain ⟨noted, _⟩ := Variable.grounded_walk walked
        (fun isRoot => by rw [inside.inner] at isRoot; cases isRoot) inside.within inside.forward
        grounds.append.1
      exact List.forall_mem_singleton.mpr (noted (Variable.founded_of_worth valued stated))
  | .function _ none, _, _, _, _, _, _, _, _, .prototype _ _ external _, _, ends, _, _ => by
      exact (@Stmt.grounded_prototype _ ahead _ _ _ _ ends external).2.1
  | .function header (some body), _, _, _, _, _, _, _, _, .function _ _ _ _ _ _ worth _, decided,
      ends, inside, grounds => by
      obtain ⟨needs, _⟩ := grounds.append
      refine Stmt.grounded_function worth (fun ends inside grounds =>
        Stmt.AllWorth.grounded worth
          (fun _ _ present => decided _ _ (List.mem_cons_of_mem _ present)) ends inside grounds)
        (decided header body List.mem_cons_self) ends inside.sane inside.within inside.forward ?_
      rwa [Stmt.needs, List.filter_nil, List.append_nil]
  | .branch _ _ _, _, _, _, _, _, _, _, _, .branch _ body alternate, decided, ends, inside,
      grounds => by
      obtain ⟨between, body', last, alternate', yields, walked, walked', rfl⟩ :=
        Stmt.ends_branch.mp ends
      obtain ⟨decided, decided'⟩ := decided.append
      exact Stmt.grounded_branch yields walked walked'
        (Stmt.AllWorth.grounded body decided walked)
        (Alternate.Worth.grounded alternate decided' walked') inside grounds.append.1
  | .loop _ _, _, _, _, _, _, _, _, _, .loop _ body, decided, ends, inside, grounds => by
      obtain ⟨between, body', last, yields, walked, rfl, rfl⟩ := Stmt.ends_loop.mp ends
      have stays := stays_condition yields
      exact Stmt.AllWorth.grounded body decided walked (inside.second stays.grows).block
        (grounds.append.1.append.2.stays stays).push
  | .switch _ _, _, _, _, _, _, _, _, _, .switch _ arms, decided, ends, inside, grounds => by
      obtain ⟨term, between, arms', yields, walked, rfl⟩ := Stmt.ends_switch.mp ends
      have stays := Expr.stays_infer _ yields
      obtain ⟨needs, _⟩ := grounds.append
      exact Arm.AllWorth.grounded arms decided walked (inside.second stays.grows)
        (needs.append.2.stays stays)
termination_by structural s => s

theorem Alternate.Worth.grounded : ∀ {alternate alternate' : Alternate} {Δ : Env Meaning}
    {returned notes : List Kind} {engine engine' : Engine},
    Alternate.Worth Δ alternate returned notes → Stmt.NoneCircular alternate.declarations →
      alternate.walk.Ends engine alternate' engine' → engine.Inside final ahead engine' →
      engine.GroundsKnown final ahead (fun _ => false) alternate.needs →
      Term.AllGrounded final alternate'.notes
  | .none, _, _, _, _, _, _, .none, _, ends, _, _ => by
      obtain ⟨rfl, rfl⟩ := Alternate.ends_none.mp ends
      exact Term.allGrounded_nil
  | .elseBranch _ _ _, _, _, _, _, _, _, .elseBranch _ body alternate, decided, ends, inside,
    grounds => by
      obtain ⟨between, body', last, alternate', yields, walked, walked', rfl⟩ :=
        Alternate.ends_elseBranch.mp ends
      obtain ⟨decided, decided'⟩ := decided.append
      exact Stmt.grounded_branch yields walked walked'
        (Stmt.AllWorth.grounded body decided walked)
        (Alternate.Worth.grounded alternate decided' walked') inside grounds
  | .otherwise _, _, _, _, _, _, _, .otherwise body, decided, ends, inside, grounds => by
      obtain ⟨body', last, walked, rfl, rfl⟩ := Alternate.ends_otherwise.mp ends
      exact Stmt.AllWorth.grounded body decided walked inside.block grounds.push
termination_by structural alternate => alternate

theorem Arm.Worth.grounded : ∀ {arm arm' : Arm} {subject : Kind} {Δ : Env Meaning}
    {returned notes : List Kind} {engine engine' : Engine} {term : Option Term},
    Arm.Worth subject Δ arm returned notes → Stmt.NoneCircular arm.declarations →
      (arm.walk term).Ends engine arm' engine' → engine.Inside final ahead engine' →
      engine.GroundsKnown final ahead (fun _ => false) arm.needs →
      Term.AllGrounded final arm'.notes
  | .value _ _, _, _, _, _, _, _, _, _, .value _ body, decided, ends, inside, grounds => by
      obtain ⟨between, body', last, yields, walked, rfl, rfl⟩ := Arm.ends_value.mp ends
      have stays := stays_pattern yields
      exact Stmt.AllWorth.grounded body decided walked (inside.second stays.grows).block
        (grounds.append.2.stays stays).push
  | .otherwise _, _, _, _, _, _, _, _, _, .otherwise body, decided, ends, inside, grounds => by
      obtain ⟨body', last, walked, rfl, rfl⟩ := Arm.ends_otherwise.mp ends
      exact Stmt.AllWorth.grounded body decided walked inside.block grounds.push
termination_by structural arm => arm

theorem Stmt.AllWorth.grounded : ∀ {body body' : List Stmt} {Δ Δ' : Env Meaning}
    {returned notes : List Kind} {engine engine' : Engine} {later : List String},
    Stmt.AllWorth Δ body Δ' returned notes → Stmt.NoneCircular (Stmt.allDeclarations body) →
      (Stmt.walkAll body).Ends engine body' engine' → engine.Inside final ahead engine' →
      engine.GroundsKnown final ahead (fun _ => false) (Stmt.allNeeds later body) →
      Term.AllGrounded final (Stmt.allNotes body')
  | [], _, _, _, _, _, _, _, _, .nil, _, ends, _, _ => by
      obtain ⟨rfl, rfl⟩ := Stmt.ends_nil.mp ends
      exact Term.allGrounded_nil
  | _ :: _, _, _, _, _, _, _, _, _, .cons first rest, decided, ends, inside, grounds => by
      obtain ⟨first', between, rest', walked, walked', rfl⟩ := Stmt.ends_cons.mp ends
      obtain ⟨⟨_, _, grows⟩, _, _⟩ := Stmt.passes_walk _ walked inside.sane
      obtain ⟨⟨_, _, grows'⟩, _, _⟩ := Stmt.passes_walkAll _ walked' (grows.sane inside.sane)
      obtain ⟨decided, decided'⟩ := decided.append
      have inside' := inside.first (grows.isRoot.trans inside.inner) grows'
      have leaves := Stmt.Worth.leaves first walked inside' grounds
      rw [first.known_after decided] at leaves
      exact (Stmt.Worth.grounded first decided walked inside' grounds).append
        (Stmt.AllWorth.grounded rest decided' walked' (inside.second grows) leaves.grounds)
termination_by structural body => body

theorem Arm.AllWorth.grounded : ∀ {arms arms' : List Arm} {subject : Kind} {Δ : Env Meaning}
    {returned notes : List Kind} {engine engine' : Engine} {term : Option Term},
    Arm.AllWorth subject Δ arms returned notes → Stmt.NoneCircular (Arm.allDeclarations arms) →
      (Arm.walkAll term arms).Ends engine arms' engine' → engine.Inside final ahead engine' →
      engine.GroundsKnown final ahead (fun _ => false) (Arm.allNeeds arms) →
      Term.AllGrounded final (Arm.allNotes arms')
  | [], _, _, _, _, _, _, _, _, .nil, _, ends, _, _ => by
      obtain ⟨rfl, rfl⟩ := Arm.ends_nil.mp ends
      exact Term.allGrounded_nil
  | _ :: _, _, _, _, _, _, _, _, _, .cons first rest, decided, ends, inside, grounds => by
      obtain ⟨first', between, rest', walked, walked', rfl⟩ := Arm.ends_cons.mp ends
      obtain ⟨⟨_, _, grows⟩, _, _⟩ := Arm.passes_walk _ walked inside.sane
      obtain ⟨⟨_, _, grows'⟩, _, _⟩ := Arm.passes_walkAll _ walked' (grows.sane inside.sane)
      obtain ⟨decided, decided'⟩ := decided.append
      obtain ⟨grounds, others⟩ := grounds.append
      have inside' := inside.first (grows.isRoot.trans inside.inner) grows'
      have leaves := Arm.Worth.leaves first walked inside' grounds others
      exact (Arm.Worth.grounded first decided walked inside' grounds).append
        (Arm.AllWorth.grounded rest decided' walked' (inside.second grows) leaves.grounds)
termination_by structural arms => arms

end

end Statements

end SmallLang
