import SmallLang.Check.Stmt
import SmallLang.Proofs.Order.Names

/-!
# Checks that find nothing wrong with names

A check that goes on to the end and complains of nothing but types that do not fit. The check of
an expression is one where every name in it means something.
-/

set_option autoImplicit false

namespace SmallLang

/-- What is wrong is the use of types that are all known. -/
def Cause.OfKnownTypes (cause : Cause) : Prop :=
  cause.category = .type ∧ ∀ name, cause ≠ .unknownType name

namespace Check

variable {α β : Type}

/-- The check goes on to the end, complains only of types that do not fit, and something holds of
what it finds. -/
def Clean (check : Check α) (holds : α → Prop) : Prop :=
  ∃ found : Checked α, @Eq (Except Error (Checked α)) check (.ok found) ∧ holds found.value ∧
    ∀ report ∈ found.reports, report.cause.OfKnownTypes

theorem clean_pure {value : α} {holds : α → Prop} (given : holds value) :
    Clean (pure value) holds := by
  refine ⟨⟨value, []⟩, rfl, given, ?_⟩
  intro report present
  cases present

theorem Clean.bind {first : Check α} {second : α → Check β} {middle : α → Prop} {holds : β → Prop}
    (before : Clean first middle) (after : ∀ value, middle value → Clean (second value) holds) :
    Clean (first >>= second) holds := by
  obtain ⟨found, ends, given, fine⟩ := before
  obtain ⟨last, ends', given', fine'⟩ := after found.value given
  refine ⟨⟨last.value, found.reports ++ last.reports⟩, ?_, given', ?_⟩
  · change andThen first second = _
    simp only [Check.andThen, ends, ends']
    rfl
  · intro report present
    rcases List.mem_append.mp present with early | late
    · exact fine report early
    · exact fine' report late

/-- The next check, whatever the first one finds. -/
theorem Clean.andThen {first : Check α} {second : α → Check β} {middle : α → Prop}
    {holds : β → Prop} (before : Clean first middle)
    (after : ∀ value, Clean (second value) holds) : Clean (first >>= second) holds :=
  before.bind fun value _ => after value

theorem Clean.imp {check : Check α} {holds holds' : α → Prop} (clean : Clean check holds)
    (weaker : ∀ value, holds value → holds' value) : Clean check holds' := by
  obtain ⟨found, ends, given, fine⟩ := clean
  exact ⟨found, ends, weaker _ given, fine⟩

theorem clean_ofExcept {result : Except Error α} {value : α} (known : result = .ok value) :
    Clean (ofExcept result) fun found => found = value := by
  rw [known]
  exact clean_pure rfl

theorem clean_report {cause : Cause} {position : Position} (fine : cause.OfKnownTypes) :
    Clean (report cause position) fun _ => True := by
  refine ⟨⟨(), [⟨cause, position⟩]⟩, rfl, trivial, ?_⟩
  intro report present
  rw [List.mem_singleton.mp present]
  exact fine

theorem clean_requireSame {cause : String → String → Cause}
    (fine : ∀ first second, (cause first second).OfKnownTypes) (expected received : Option Ty)
    (position : Position) :
    Clean (requireSame cause expected received position) fun _ => True := by
  unfold requireSame
  split
  · split
    · exact clean_pure trivial
    · exact clean_report (fine _ _)
  · exact clean_pure trivial

theorem typeMismatch_ofKnownTypes (expected received : String) :
    (Cause.typeMismatch expected received).OfKnownTypes :=
  ⟨rfl, fun _ same => Cause.noConfusion same⟩

section Expressions

variable {context : Context}

/-- The name means something. -/
def Context.Finds (context : Context) (name : String) : Prop :=
  ∃ symbol, context.scopes.resolve? name = some symbol

theorem clean_lookup {name : String} (finds : context.Finds name) (position : Position) :
    Clean (ofExcept (context.scopes.lookup name position)) fun _ => True := by
  obtain ⟨symbol, found⟩ := finds
  have known : context.scopes.lookup name position = .ok symbol := by
    rw [Scopes.lookup, found]
  exact (clean_ofExcept known).imp fun _ _ => trivial

theorem clean_name {name : String} (finds : context.Finds name) (position : Position) :
    Clean (Check.name context name position) fun _ => True := by
  apply (clean_lookup finds position).andThen
  intro symbol
  cases symbol with
  | builtin type =>
      exact (clean_report (typeMismatch_ofKnownTypes _ _)).andThen fun _ => clean_pure trivial
  | _ => exact clean_pure trivial

theorem clean_argumentKinds : ∀ (parameters : List Ty) (arguments : List Expr)
    (types : List (Option Ty)),
    Clean (argumentKinds context parameters arguments types) fun _ => True
  | _ :: parameters, _ :: arguments, _ :: types => by
      rw [argumentKinds]
      apply (clean_requireSame _ _ _ _).andThen fun _ =>
        clean_argumentKinds parameters arguments types
      intro _ _
      exact ⟨rfl, fun _ same => Cause.noConfusion same⟩
  | [], _, _ | _ :: _, [], _ | _ :: _, _ :: _, [] => clean_pure trivial

theorem clean_arguments (parameters : List Ty) (arguments : List Expr) (types : List (Option Ty))
    (position : Position) :
    Clean (Check.arguments context parameters arguments types position) fun _ => True := by
  unfold Check.arguments
  split
  · exact clean_report ⟨rfl, fun _ same => Cause.noConfusion same⟩
  · split
    · exact clean_report ⟨rfl, fun _ same => Cause.noConfusion same⟩
    · exact clean_argumentKinds parameters arguments types

theorem clean_operation (operator : BinaryOperator) (left right : Option Ty)
    (position : Position) : Clean (operation operator left right position) fun _ => True := by
  unfold operation
  split
  · split
    · exact clean_pure trivial
    · refine (clean_report ⟨rfl, fun _ same => Cause.noConfusion same⟩).andThen ?_
      intro _
      exact clean_pure trivial
  · exact clean_pure trivial

theorem clean_requireMutable (name : String) (position : Position) :
    Clean (requireMutable context name position) fun _ => True := by
  unfold requireMutable
  split
  · exact clean_report ⟨rfl, fun _ same => Cause.noConfusion same⟩
  · exact clean_pure trivial

theorem clean_requireOperand (accepted : Ty → Bool) (symbol : String) (operand : Option Ty)
    (position : Position) :
    Clean (requireOperand accepted symbol operand position) fun _ => True := by
  unfold requireOperand
  split
  · exact clean_pure trivial
  · split
    · exact clean_pure trivial
    · refine (clean_report ⟨rfl, fun _ same => Cause.noConfusion same⟩).andThen ?_
      intro _
      exact clean_pure trivial

end Expressions

end Check

open Check

section Expressions

variable {context : Context}

/-- All of some names mean something. -/
def Check.Context.FindsAll (context : Context) (names : List String) : Prop :=
  ∀ name ∈ names, context.Finds name

theorem Check.Context.findsAll_append {first second : List String} :
    context.FindsAll (first ++ second) ↔ context.FindsAll first ∧ context.FindsAll second :=
  List.forall_mem_append

theorem Expr.clean_member (object : Expr) (property : String)
    (finds : context.FindsAll (Expr.member object property).names) :
    Clean ((Expr.member object property).check context) fun _ => True := by
  cases object with
  | identifier space position =>
      exact clean_name (finds (qualifiedName space property) List.mem_cons_self) position
  | _ =>
      refine (clean_report ⟨rfl, fun _ same => Cause.noConfusion same⟩).andThen ?_
      intro _
      exact clean_pure trivial

theorem Expr.clean_postfixed (operator : PostfixOperator) {operand : Expr}
    (finds : context.FindsAll operand.names)
    (clean : Clean (operand.check context) fun _ => True) :
    Clean ((Expr.postfixed operator operand).check context) fun _ => True := by
  cases operand with
  | identifier name position =>
      apply clean.andThen
      intro type
      exact (clean_requireMutable name position).andThen fun _ => clean_requireOperand _ _ type _
  | _ =>
      apply clean.andThen
      intro type
      refine (clean_report ⟨rfl, fun _ same => Cause.noConfusion same⟩).andThen ?_
      intro _
      exact clean_pure trivial

mutual

/-- The check of an expression whose names mean something finds nothing wrong with names. -/
theorem Expr.clean_check : ∀ (e : Expr), context.FindsAll e.names →
    Clean (e.check context) fun _ => True
  | .identifier name position, finds => clean_name (finds name List.mem_cons_self) position
  | .member object property, finds => clean_member object property finds
  | .call callee arguments, finds => by
      obtain ⟨finds, finds'⟩ := Context.findsAll_append.mp finds
      apply (Expr.clean_checkAll arguments finds').andThen
      intro types
      cases named : callee.symbol? with
      | none =>
          apply (Expr.clean_check callee finds).andThen
          intro _
          refine (clean_report ⟨rfl, fun _ same => Cause.noConfusion same⟩).andThen ?_
          intro _
          exact clean_pure trivial
      | some name =>
          have present : name ∈ callee.names := by
            rw [Expr.names_of_symbol? named]
            exact List.mem_cons_self
          apply (clean_lookup (finds name present) _).andThen
          intro symbol
          cases symbol with
          | function parameters result =>
              exact (clean_arguments _ _ _ _).andThen fun _ => clean_pure trivial
          | _ =>
              refine (clean_report ⟨rfl, fun _ same => Cause.noConfusion same⟩).andThen ?_
              intro _
              exact clean_pure trivial
  | .binary operator left right, finds => by
      obtain ⟨finds, finds'⟩ := Context.findsAll_append.mp finds
      apply (Expr.clean_check left finds).andThen
      intro first
      apply (Expr.clean_check right finds').andThen
      intro second
      exact clean_operation operator first second _
  | .prefixed operator operand, finds =>
      (Expr.clean_check operand finds).andThen fun type => clean_requireOperand _ _ type _
  | .postfixed operator operand, finds =>
      clean_postfixed operator finds (Expr.clean_check operand finds)
  | .number _, _ | .string _, _ | .boolean _, _ | .null, _ => clean_pure trivial

theorem Expr.clean_checkAll : ∀ (expressions : List Expr),
    context.FindsAll (Expr.allNames expressions) →
    Clean (Expr.checkAll context expressions) fun _ => True
  | [], _ => clean_pure trivial
  | first :: rest, finds => by
      obtain ⟨finds, finds'⟩ := Context.findsAll_append.mp finds
      apply (Expr.clean_check first finds).andThen
      intro type
      exact (Expr.clean_checkAll rest finds').andThen fun _ => clean_pure trivial

end

end Expressions

end SmallLang
