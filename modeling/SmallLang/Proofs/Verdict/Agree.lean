import SmallLang.Check.Expr
import SmallLang.Proofs.Scope.Lookup

/-!
# Checks that agree

What the check of an expression finds depends on what names mean, and not on where the root scope
keeps them or which declaration was the latest one. That declaration only lends its place to
complaints about expressions without a position.
-/

set_option autoImplicit false

namespace SmallLang

/-- Scopes with the same names in each of them. In the root they may stand in another order. -/
structure Scopes.Alike (first second : Scopes) : Prop where
  inner : first.inner = second.inner
  root : ∀ name, first.root.lookup name = second.root.lookup name

namespace Scopes.Alike

variable {first second : Scopes} {name : String}

theorem refl (scopes : Scopes) : scopes.Alike scopes := ⟨rfl, fun _ => rfl⟩

theorem symm (alike : first.Alike second) : second.Alike first :=
  ⟨alike.inner.symm, fun name => (alike.root name).symm⟩

theorem push (alike : first.Alike second) : first.push.Alike second.push :=
  ⟨congrArg ([] :: ·) alike.inner, alike.root⟩

theorem isRoot_eq (alike : first.Alike second) : first.isRoot = second.isRoot := by
  rw [isRoot, alike.inner, isRoot]

theorem resolve?_eq (alike : first.Alike second) (name : String) :
    first.resolve? name = second.resolve? name := by
  rw [resolve?, alike.inner, alike.root, resolve?]

theorem innermost_eq (alike : first.Alike second) (name : String) :
    first.innermost.lookup name = second.innermost.lookup name := by
  obtain ⟨root, inner⟩ := first
  obtain ⟨root', inner'⟩ := second
  obtain ⟨rfl, same⟩ := alike
  cases inner with
  | nil => exact same name
  | cons => rfl

theorem insert (alike : first.Alike second) (name : String) (symbol : Symbol) :
    (first.insert name symbol).Alike (second.insert name symbol) := by
  obtain ⟨root, inner⟩ := first
  obtain ⟨root', inner'⟩ := second
  obtain ⟨rfl, same⟩ := alike
  cases inner with
  | nil =>
      refine ⟨rfl, fun other => ?_⟩
      change List.lookup other ((name, symbol) :: root) =
        List.lookup other ((name, symbol) :: root')
      rw [Scope.lookup_cons, Scope.lookup_cons, same other]
  | cons => exact ⟨rfl, same⟩

theorem typeOf_eq (alike : first.Alike second) (typeName : TypeName) :
    first.typeOf typeName = second.typeOf typeName := by
  rw [typeOf, alike.resolve?_eq, typeOf]

theorem typesOf_eq (alike : first.Alike second) (typeNames : List TypeName) :
    first.typesOf typeNames = second.typesOf typeNames := by
  induction typeNames with
  | nil => rfl
  | cons head rest ih => rw [typesOf, typesOf, alike.typeOf_eq, ih]

theorem typeOf?_eq (alike : first.Alike second) (written : Option TypeName) :
    first.typeOf? written = second.typeOf? written := by
  cases written with
  | none => rfl
  | some typeName => rw [typeOf?, typeOf?, alike.typeOf_eq]

end Scopes.Alike

namespace Check

variable {α β γ δ : Type} {related : α → β → Prop}

/-- Two checks end alike. Either both fail, of the same cause, or they find what is related and
complain of the same causes in the same order. The places do not matter. -/
def Agree (related : α → β → Prop) (check : Check α) (check' : Check β) : Prop :=
  match check, check' with
  | .ok found, .ok found' =>
      related found.value found'.value ∧
        found.reports.map (·.cause) = found'.reports.map (·.cause)
  | .error error, .error error' => error.cause = error'.cause
  | _, _ => False

theorem agree_pure {value : α} {value' : β} (holds : related value value') :
    Agree related (pure value) (pure value') :=
  ⟨holds, rfl⟩

theorem Agree.bind {first : Check α} {first' : Check β} {second : α → Check γ}
    {second' : β → Check δ} {last : γ → δ → Prop} (begins : Agree related first first')
    (ends : ∀ value value', related value value' → Agree last (second value) (second' value')) :
    Agree last (first >>= second) (first' >>= second') := by
  change Agree last (andThen first second) (andThen first' second')
  unfold andThen
  cases first with
  | error error =>
      cases first' with
      | error error' => exact begins
      | ok found' => exact begins.elim
  | ok found =>
      cases first' with
      | error error' => exact begins.elim
      | ok found' =>
          obtain ⟨holds, causes⟩ := begins
          have next := ends found.value found'.value holds
          dsimp only
          revert next
          generalize second found.value = after
          generalize second' found'.value = after'
          intro next
          cases after with
          | error error =>
              cases after' with
              | error error' => exact next
              | ok other' => exact next.elim
          | ok other =>
              cases after' with
              | error error' => exact next.elim
              | ok other' =>
                  refine ⟨next.1, ?_⟩
                  rw [List.map_append, List.map_append, causes, next.2]

/-- The next check, where the first ones find the same. -/
theorem Agree.andThen {first first' : Check α} {second : α → Check γ} {second' : α → Check δ}
    {last : γ → δ → Prop} (begins : Agree Eq first first')
    (ends : ∀ value, Agree last (second value) (second' value)) :
    Agree last (first >>= second) (first' >>= second') :=
  begins.bind fun value _ same => same ▸ ends value

theorem agree_refl (check : Check α) : Agree Eq check check := by
  cases check with
  | ok found => exact ⟨rfl, rfl⟩
  | error error => exact Eq.refl error.cause

theorem agree_report (cause : Cause) (position position' : Position) :
    Agree Eq (report cause position) (report cause position') :=
  ⟨rfl, rfl⟩

theorem agree_requireSame (cause : String → String → Cause) (expected received : Option Ty)
    (position position' : Position) :
    Agree Eq (requireSame cause expected received position)
      (requireSame cause expected received position') := by
  unfold requireSame
  split
  · split
    · exact agree_refl _
    · exact agree_report _ _ _
  · exact agree_refl _

theorem agree_operation (operator : BinaryOperator) (left right : Option Ty)
    (position position' : Position) :
    Agree Eq (operation operator left right position)
      (operation operator left right position') := by
  unfold operation
  split
  · split
    · exact agree_refl _
    · exact (agree_report _ _ _).andThen fun _ => agree_refl _
  · exact agree_refl _

theorem agree_requireOperand (accepted : Ty → Bool) (symbol : String) (operand : Option Ty)
    (position position' : Position) :
    Agree Eq (requireOperand accepted symbol operand position)
      (requireOperand accepted symbol operand position') := by
  unfold requireOperand
  split
  · exact agree_refl _
  · split
    · exact agree_refl _
    · exact (agree_report _ _ _).andThen fun _ => agree_refl _

/-- Contexts in which names mean the same. The latest declarations may be different ones. -/
structure Context.Alike (first second : Context) : Prop where
  scopes : first.scopes.Alike second.scopes
  returns : first.returns = second.returns

section Alike

variable {context context' : Context}

theorem agree_lookup (alike : context.Alike context') (name : String)
    (position position' : Position) :
    Agree Eq (ofExcept (context.scopes.lookup name position))
      (ofExcept (context'.scopes.lookup name position')) := by
  rw [Scopes.lookup, alike.scopes.resolve?_eq, Scopes.lookup]
  cases context'.scopes.resolve? name with
  | none => exact Eq.refl (Cause.notDeclared name)
  | some symbol => exact agree_refl _

theorem agree_name (alike : context.Alike context') (name : String)
    (position position' : Position) :
    Agree Eq (Check.name context name position) (Check.name context' name position') := by
  refine (agree_lookup alike name position position').andThen ?_
  intro symbol
  cases symbol with
  | builtin type => exact (agree_report _ _ _).andThen fun _ => agree_refl _
  | _ => exact agree_refl _

theorem agree_requireMutable (alike : context.Alike context') (name : String)
    (position : Position) :
    Agree Eq (requireMutable context name position) (requireMutable context' name position) := by
  rw [requireMutable, alike.scopes.resolve?_eq, ← requireMutable]
  exact agree_refl _

theorem agree_argumentKinds : ∀ (parameters : List Ty) (arguments : List Expr)
    (types : List (Option Ty)),
    Agree Eq (argumentKinds context parameters arguments types)
      (argumentKinds context' parameters arguments types)
  | _ :: parameters, _ :: arguments, _ :: types =>
      (agree_requireSame _ _ _ _ _).andThen fun _ => agree_argumentKinds parameters arguments types
  | [], _, _ | _ :: _, [], _ | _ :: _, _ :: _, [] => agree_refl _

theorem agree_arguments (parameters : List Ty) (arguments : List Expr) (types : List (Option Ty))
    (position position' : Position) :
    Agree Eq (Check.arguments context parameters arguments types position)
      (Check.arguments context' parameters arguments types position') := by
  unfold Check.arguments
  split
  · exact agree_report _ _ _
  · split
    · exact agree_report _ _ _
    · exact agree_argumentKinds parameters arguments types

end Alike

end Check

open Check

section Expressions

variable {context context' : Context}

mutual

/-- An expression has the same type wherever names mean the same. -/
theorem Expr.agree_check (alike : context.Alike context') : ∀ e : Expr,
    Agree Eq (e.check context) (e.check context')
  | .identifier name position => agree_name alike name position position
  | .member object property => by
      have agrees := Expr.agree_check alike object
      cases object with
      | identifier space position => exact agree_name alike _ position position
      | _ => exact (agree_report _ _ _).andThen fun _ => agree_refl _
  | .call callee arguments => by
      rw [Expr.check, Expr.check]
      refine (Expr.agree_checkAll alike arguments).andThen ?_
      intro types
      cases callee.symbol? with
      | none =>
          refine (Expr.agree_check alike callee).andThen ?_
          intro _
          exact (agree_report _ _ _).andThen fun _ => agree_refl _
      | some name =>
          refine (agree_lookup alike name _ _).andThen ?_
          intro symbol
          cases symbol with
          | function parameters result =>
              exact (agree_arguments parameters arguments types _ _).andThen fun _ => agree_refl _
          | _ => exact (agree_report _ _ _).andThen fun _ => agree_refl _
  | .binary operator left right => by
      rw [Expr.check, Expr.check]
      refine (Expr.agree_check alike left).andThen ?_
      intro first
      refine (Expr.agree_check alike right).andThen ?_
      intro second
      exact agree_operation operator first second _ _
  | .prefixed operator operand => by
      rw [Expr.check, Expr.check]
      exact (Expr.agree_check alike operand).andThen fun type => agree_requireOperand _ _ type _ _
  | .postfixed operator operand => by
      have agrees := Expr.agree_check alike operand
      cases operand with
      | identifier name position =>
          refine (agree_name alike name position position).andThen ?_
          intro type
          refine (agree_requireMutable alike name position).andThen ?_
          intro _
          exact agree_requireOperand _ _ type _ _
      | _ => exact agrees.andThen fun _ => (agree_report _ _ _).andThen fun _ => agree_refl _
  | .number _ | .string _ | .boolean _ | .null => agree_refl _

theorem Expr.agree_checkAll (alike : context.Alike context') : ∀ expressions : List Expr,
    Agree Eq (Expr.checkAll context expressions) (Expr.checkAll context' expressions)
  | [] => agree_refl _
  | first :: rest => by
      rw [Expr.checkAll, Expr.checkAll]
      refine (Expr.agree_check alike first).andThen ?_
      intro _
      exact (Expr.agree_checkAll alike rest).andThen fun _ => agree_refl _

end

end Expressions

end SmallLang
