import Mathlib.Data.List.Forall2
import SmallLang.Check.Stmt
import SmallLang.Proofs.Import.Names
import SmallLang.Proofs.Import.Scopes

/-!
# The check of expressions under a namespace

The check of a merged module goes through the same steps as that of the module alone, and complains
of the same at the same places. Where a complaint names a declaration of the module, it does so by
the name that the declaration has there.
-/

set_option autoImplicit false

namespace SmallLang

namespace Cause

/-- The name that a cause is about, if it is about one. -/
def about? : Cause → Option String
  | .alreadyDeclared name | .notDeclared name | .builtinRedefined name | .untypedVariable name
  | .notCallable name | .constantModified name | .conflictingReturns name _ _
  | .unresolvedType name => some name
  | _ => none

/-- The cause with a new name for what it is about. -/
def renamed (new : String → String) : Cause → Cause
  | .alreadyDeclared name => .alreadyDeclared (new name)
  | .notDeclared name => .notDeclared (new name)
  | .builtinRedefined name => .builtinRedefined (new name)
  | .untypedVariable name => .untypedVariable (new name)
  | .notCallable name => .notCallable (new name)
  | .constantModified name => .constantModified (new name)
  | .conflictingReturns name first second => .conflictingReturns (new name) first second
  | .unresolvedType name => .unresolvedType (new name)
  | cause => cause

end Cause

/-- Two errors at one place, of which the second is the first in a merged module. If it is about a
name at some place in the module, it is about the name that stands there in the merged module. -/
inductive Error.Renamed (qualifier : Qualifier) (appearances : List Appearance) :
    Error → Error → Prop where
  | named {cause : Cause} {name : String} {position : Position} {hidden : List String} :
      cause.about? = some name → ⟨name, position, hidden⟩ ∈ appearances →
      Renamed qualifier appearances ⟨cause, position⟩
        ⟨cause.renamed (qualifier.use hidden), position⟩
  /-- What is called has no name, and is described instead. -/
  | described {callee : Expr} {position : Position} :
      callee.symbol? = none →
      Renamed qualifier appearances ⟨.notCallable callee.nodeName, position⟩
        ⟨.notCallable callee.nodeName, position⟩
  | nameless {error : Error} : error.cause.about? = none →
      Renamed qualifier appearances error error

namespace Check

variable {α β : Type} {related : Error → Error → Prop}

/-- Where one check goes on to the end, another one does so too. It finds the same under new names,
and its complaints are related one by one. Of what the first one finds something holds. -/
def Follows (related : Error → Error → Prop) (new : α → α) (holds : α → Prop)
    (check check' : Check α) : Prop :=
  ∀ ⦃found : Checked α⦄, @Eq (Except Error (Checked α)) check (.ok found) →
    holds found.value ∧ ∃ reports, @Eq (Except Error (Checked α)) check'
      (.ok ⟨new found.value, reports⟩) ∧ List.Forall₂ related found.reports reports

theorem Follows.bind {first first' : Check α} {second second' : α → Check β} {new : α → α}
    {new' : β → β} {middle : α → Prop} {holds : β → Prop}
    (begins : Follows related new middle first first')
    (ends : ∀ value, middle value →
      Follows related new' holds (second value) (second' (new value))) :
    Follows related new' holds (first >>= second) (first' >>= second') := by
  intro found whole
  change Check.andThen first second = _ at whole
  cases result : first with
  | error error =>
      simp only [Check.andThen, result] at whole
      cases whole
  | ok before =>
      simp only [Check.andThen, result] at whole
      cases result' : second before.value with
      | error error =>
          simp only [result'] at whole
          cases whole
      | ok after =>
          simp only [result'] at whole
          cases whole
          obtain ⟨given, reports, follows, forall₂⟩ := begins result
          obtain ⟨given', reports', follows', forall₂'⟩ := ends before.value given result'
          refine ⟨given', reports ++ reports', ?_, List.rel_append forall₂ forall₂'⟩
          change Check.andThen first' second' = _
          simp only [Check.andThen, follows, follows']
          rfl

/-- The next check, where the first one finds the same. -/
theorem Follows.andThen {first first' : Check α} {second second' : α → Check β} {new : β → β}
    {middle : α → Prop} {holds : β → Prop} (begins : Follows related id middle first first')
    (ends : ∀ value, middle value → Follows related new holds (second value) (second' value)) :
    Follows related new holds (first >>= second) (first' >>= second') :=
  begins.bind ends

theorem Follows.imp {check check' : Check α} {new : α → α} {holds holds' : α → Prop}
    (follows : Follows related new holds check check')
    (weaker : ∀ value, holds value → holds' value) : Follows related new holds' check check' :=
  fun _ result => ⟨weaker _ (follows result).1, (follows result).2⟩

theorem follows_pure {value : α} {new : α → α} {holds : α → Prop} (given : holds value) :
    Follows related new holds (pure value) (pure (new value)) := by
  intro found result
  cases result
  exact ⟨given, [], rfl, .nil⟩

theorem follows_ofExcept {result result' : Except Error α}
    (same : ∀ value, result = .ok value → result' = .ok value) :
    Follows related id (fun value => result = .ok value) (ofExcept result) (ofExcept result') := by
  intro found ends
  cases known : result with
  | error error =>
      rw [known] at ends
      cases ends
  | ok value =>
      rw [known] at ends
      cases ends
      rw [same value known]
      exact ⟨rfl, [], rfl, .nil⟩

theorem follows_report {cause cause' : Cause} {position position' : Position}
    (blames : related ⟨cause, position⟩ ⟨cause', position'⟩) :
    Follows related id (fun _ => True) (report cause position) (report cause' position') := by
  intro found result
  cases result
  exact ⟨trivial, _, rfl, .cons blames .nil⟩

section Expressions

variable {qualifier : Qualifier} {places : List Appearance} {hidden : List String}
  {context : Context}

/-- The context with new names for what a module declares at its top. -/
def Context.qualify (qualifier : Qualifier) (context : Context) : Context :=
  { context with scopes := context.scopes.qualify qualifier }

theorem follows_requireSame {cause : String → String → Cause}
    (nameless : ∀ first second, (cause first second).about? = none) (expected received : Option Ty)
    (position : Position) :
    Follows (Error.Renamed qualifier places) id (fun _ => True)
      (requireSame cause expected received position)
      (requireSame cause expected received position) := by
  unfold requireSame
  split
  · split
    · exact follows_pure trivial
    · exact follows_report (.nameless (nameless _ _))
  · exact follows_pure trivial

theorem follows_lookup (proper : qualifier.Proper) (hosts : context.scopes.Hosts hidden)
    {name : String} (undotted : Undotted name) (position : Position) :
    Follows related id (fun _ => True) (ofExcept (context.scopes.lookup name position))
      (ofExcept ((context.qualify qualifier).scopes.lookup (qualifier.use hidden name)
        position)) := by
  refine (follows_ofExcept fun symbol known => ?_).imp fun _ _ => trivial
  have means : (context.qualify qualifier).scopes.resolve? (qualifier.use hidden name) =
      context.scopes.resolve? name := hosts.resolve?_qualify proper undotted
  rw [Scopes.lookup] at known ⊢
  rw [means]
  split at known
  · exact known
  · cases known

theorem follows_name (proper : qualifier.Proper) (hosts : context.scopes.Hosts hidden)
    {name : String} (undotted : Undotted name) (position : Position) :
    Follows (Error.Renamed qualifier places) id (fun _ => True) (Check.name context name position)
      (Check.name (context.qualify qualifier) (qualifier.use hidden name) position) := by
  refine (follows_lookup proper hosts undotted position).andThen ?_
  intro symbol _
  cases symbol with
  | builtin type =>
      exact (follows_report (.nameless rfl)).andThen fun _ _ => follows_pure trivial
  | _ => exact follows_pure trivial

theorem follows_operation (operator : BinaryOperator) (left right : Option Ty)
    (position : Position) :
    Follows (Error.Renamed qualifier places) id (fun _ => True)
      (operation operator left right position) (operation operator left right position) := by
  unfold operation
  split
  · split
    · exact follows_pure trivial
    · exact (follows_report (.nameless rfl)).andThen fun _ _ => follows_pure trivial
  · exact follows_pure trivial

theorem follows_requireOperand (accepted : Ty → Bool) (symbol : String) (operand : Option Ty)
    (position : Position) :
    Follows (Error.Renamed qualifier places) id (fun _ => True)
      (requireOperand accepted symbol operand position)
      (requireOperand accepted symbol operand position) := by
  unfold requireOperand
  split
  · exact follows_pure trivial
  · split
    · exact follows_pure trivial
    · exact (follows_report (.nameless rfl)).andThen fun _ _ => follows_pure trivial

/-- A constant is named as it is in the operand. -/
theorem follows_requireMutable (proper : qualifier.Proper) (hosts : context.scopes.Hosts hidden)
    {name : String} {position : Position} (undotted : Undotted name)
    (present : ⟨name, position, hidden⟩ ∈ places) :
    Follows (Error.Renamed qualifier places) id (fun _ => True)
      (requireMutable context name position)
      (requireMutable (context.qualify qualifier) (qualifier.use hidden name) position) := by
  have means : (context.qualify qualifier).scopes.resolve? (qualifier.use hidden name) =
      context.scopes.resolve? name := hosts.resolve?_qualify proper undotted
  have blames : Error.Renamed qualifier places ⟨.constantModified name, position⟩
      ⟨Cause.renamed (qualifier.use hidden) (.constantModified name), position⟩ :=
    .named rfl present
  unfold requireMutable
  rw [means]
  split
  · exact follows_report blames
  · exact follows_pure trivial

end Expressions

end Check

namespace Expr

variable {qualifier : Qualifier} {hidden : List String}

mutual

/-- An expression stands where it stood. -/
theorem position?_qualify : ∀ e : Expr, (e.qualify qualifier hidden).position? = e.position?
  | .identifier _ _ | .number _ | .string _ | .boolean _ | .null => rfl
  | .member object _ => position?_qualify object
  | .call callee arguments => by
      rw [qualify, position?, position?, position?_qualify callee,
        firstPosition?_qualify arguments]
  | .binary _ left right => by
      rw [qualify, position?, position?, position?_qualify left, position?_qualify right]
  | .prefixed _ operand => position?_qualify operand
  | .postfixed _ operand => position?_qualify operand

theorem firstPosition?_qualify : ∀ expressions : List Expr,
    firstPosition? (qualifyAll qualifier hidden expressions) = firstPosition? expressions
  | [] => rfl
  | first :: rest => by
      rw [qualifyAll, firstPosition?, firstPosition?, position?_qualify first,
        firstPosition?_qualify rest]

end

theorem nodeName_qualify (e : Expr) : (e.qualify qualifier hidden).nodeName = e.nodeName := by
  cases e <;> rfl

theorem length_qualifyAll (expressions : List Expr) :
    (qualifyAll qualifier hidden expressions).length = expressions.length := by
  induction expressions with
  | nil => rfl
  | cons first rest ih => rw [qualifyAll, List.length_cons, List.length_cons, ih]

end Expr

open Check

section Expressions

variable {qualifier : Qualifier} {places : List Appearance} {hidden : List String}
  {context : Context}

theorem Check.Context.positionOf_qualify (e : Expr) :
    (context.qualify qualifier).positionOf (e.qualify qualifier hidden) = context.positionOf e := by
  rw [positionOf, positionOf, Expr.position?_qualify]
  rfl

theorem Check.follows_argumentKinds : ∀ (parameters : List Ty) (arguments : List Expr)
    (types : List (Option Ty)),
    Follows (Error.Renamed qualifier places) id (fun _ => True)
      (argumentKinds context parameters arguments types)
      (argumentKinds (context.qualify qualifier) parameters
        (Expr.qualifyAll qualifier hidden arguments) types)
  | _ :: parameters, _ :: arguments, _ :: types => by
      rw [Expr.qualifyAll, argumentKinds, argumentKinds, Context.positionOf_qualify]
      refine (follows_requireSame (fun _ _ => rfl) _ _ _).andThen ?_
      intro _ _
      exact Check.follows_argumentKinds parameters arguments types
  | [], _, _ => follows_pure trivial
  | _ :: _, [], _ => follows_pure trivial
  | _ :: _, _ :: _, [] => follows_pure trivial

theorem Check.follows_arguments (parameters : List Ty) (arguments : List Expr)
    (types : List (Option Ty)) (position : Position) :
    Follows (Error.Renamed qualifier places) id (fun _ => True)
      (Check.arguments context parameters arguments types position)
      (Check.arguments (context.qualify qualifier) parameters
        (Expr.qualifyAll qualifier hidden arguments) types position) := by
  unfold Check.arguments
  rw [Expr.length_qualifyAll]
  split
  · exact follows_report (.nameless rfl)
  · split
    · exact follows_report (.nameless rfl)
    · exact Check.follows_argumentKinds parameters arguments types

mutual

/-- An expression has the type that it had, and the complaints about it are the same. -/
theorem Expr.follows_check (proper : qualifier.Proper)
    (undotted : ∀ appearance ∈ places, Undotted appearance.name)
    (hosts : context.scopes.Hosts hidden) : ∀ e : Expr,
    (∀ appearance ∈ Appearance.ofMentions hidden e.mentions, appearance ∈ places) →
    Follows (Error.Renamed qualifier places) id (fun _ => True) (e.check context)
      ((e.qualify qualifier hidden).check (context.qualify qualifier))
  | .identifier _ position, present =>
      follows_name proper hosts (undotted _ (present _ List.mem_cons_self)) position
  | .member object property, present => by
      have blames : Error.Renamed qualifier places
          ⟨.memberOfValue property, context.positionOf object⟩
          ⟨.memberOfValue property,
            (context.qualify qualifier).positionOf (object.qualify qualifier hidden)⟩ := by
        rw [Context.positionOf_qualify]
        exact .nameless rfl
      cases object with
      | identifier space position =>
          have dotless := undotted _ (present _ List.mem_cons_self)
          exact absurd rfl dotless.ne_qualifiedName
      | _ => exact (follows_report blames).andThen fun _ _ => follows_pure trivial
  | .call callee arguments, present => by
      rw [Expr.mentions, Appearance.ofMentions, List.map_append, List.forall_mem_append] at present
      obtain ⟨given, called⟩ := present
      have named : (callee.qualify qualifier hidden).symbol? = _ :=
        Expr.symbol?_qualify fun mention among =>
          undotted ⟨mention.1, mention.2, hidden⟩ (called _ (List.mem_map_of_mem among))
      rw [Expr.check, Expr.qualify, Expr.check, named, Context.positionOf_qualify,
        Expr.nodeName_qualify]
      refine (Expr.follows_checkAll proper undotted hosts arguments given).andThen ?_
      intro types _
      cases symbol : callee.symbol? with
      | none =>
          refine (Expr.follows_check proper undotted hosts callee called).andThen ?_
          intro _ _
          exact (follows_report (.described symbol)).andThen fun _ _ => follows_pure trivial
      | some name =>
          obtain ⟨position, stands, _, mentions⟩ := Expr.exists_position_of_symbol? symbol
          have present : ⟨name, context.positionOf callee, hidden⟩ ∈ places := by
            rw [Context.positionOf, stands]
            exact called _ (by rw [mentions]; exact List.mem_cons_self)
          have blames : Error.Renamed qualifier places
              ⟨.notCallable name, context.positionOf callee⟩
              ⟨Cause.renamed (qualifier.use hidden) (.notCallable name),
                context.positionOf callee⟩ := .named rfl present
          refine (follows_lookup proper hosts (undotted _ present) _).andThen ?_
          intro meaning _
          cases meaning with
          | function parameters result =>
              refine (Check.follows_arguments parameters arguments types _).andThen ?_
              intro _ _
              exact follows_pure trivial
          | _ => exact (follows_report blames).andThen fun _ _ => follows_pure trivial
  | .binary operator left right, present => by
      rw [Expr.mentions, Appearance.ofMentions, List.map_append, List.forall_mem_append] at present
      rw [Expr.check]
      change Follows _ _ _ _ (Expr.check _ (.binary operator _ _))
      rw [Expr.check]
      refine (Expr.follows_check proper undotted hosts left present.1).andThen ?_
      intro first _
      refine (Expr.follows_check proper undotted hosts right present.2).andThen ?_
      intro second _
      have same : (context.qualify qualifier).positionOf
          (Expr.qualify qualifier hidden (.binary operator left right)) = _ :=
        Context.positionOf_qualify _
      rw [Expr.qualify] at same
      rw [same]
      exact follows_operation operator first second _
  | .prefixed operator operand, present => by
      rw [Expr.check, Expr.qualify, Expr.check, Context.positionOf_qualify]
      refine (Expr.follows_check proper undotted hosts operand present).andThen ?_
      intro _ _
      exact follows_requireOperand _ _ _ _
  | .postfixed operator operand, present => by
      have blames : Error.Renamed qualifier places
          ⟨.notAssignable operator.symbol, context.positionOf operand⟩
          ⟨.notAssignable operator.symbol,
            (context.qualify qualifier).positionOf (operand.qualify qualifier hidden)⟩ := by
        rw [Context.positionOf_qualify]
        exact .nameless rfl
      have checked := Expr.follows_check proper undotted hosts operand present
      cases operand with
      | identifier name position =>
          have among := present _ List.mem_cons_self
          refine (follows_name proper hosts (undotted _ among) position).andThen ?_
          intro _ _
          refine (follows_requireMutable proper hosts (undotted _ among) among).andThen ?_
          intro _ _
          exact follows_requireOperand _ _ _ _
      | _ =>
          refine checked.andThen ?_
          intro _ _
          exact (follows_report blames).andThen fun _ _ => follows_pure trivial
  | .number _, _ | .string _, _ | .boolean _, _ | .null, _ => follows_pure trivial

theorem Expr.follows_checkAll (proper : qualifier.Proper)
    (undotted : ∀ appearance ∈ places, Undotted appearance.name)
    (hosts : context.scopes.Hosts hidden) : ∀ expressions : List Expr,
    (∀ appearance ∈ Appearance.ofMentions hidden (Expr.allMentions expressions),
      appearance ∈ places) →
    Follows (Error.Renamed qualifier places) id (fun _ => True)
      (Expr.checkAll context expressions)
      (Expr.checkAll (context.qualify qualifier) (Expr.qualifyAll qualifier hidden expressions))
  | [], _ => follows_pure trivial
  | first :: rest, present => by
      rw [Expr.allMentions, Appearance.ofMentions, List.map_append, List.forall_mem_append]
        at present
      rw [Expr.checkAll, Expr.qualifyAll, Expr.checkAll]
      refine (Expr.follows_check proper undotted hosts first present.1).andThen ?_
      intro _ _
      refine (Expr.follows_checkAll proper undotted hosts rest present.2).andThen ?_
      intro _ _
      exact follows_pure trivial

end

end Expressions

end SmallLang
