import SmallLang.Proofs.Module.Loaded
import SmallLang.Proofs.Scope.Checked
import SmallLang.Proofs.Scope.Inferred

/-!
# Inference and the check agree on scopes

Inference resolves names one statement after the other and leaves those that it does not find to
declarations still to come; the check takes the declarations of the root scope ahead of their
turn. What inference accepts is well scoped, and the check finds nothing wrong with names in what
is well scoped.
-/

set_option autoImplicit false

namespace SmallLang

open Check

/-- The check of a well-scoped program with types in all its declarations finds nothing wrong
with names. -/
theorem Program.WellScoped.clean_check {program : Program} (valid : program.WellScoped)
    (noted : Stmt.AllNoted Term.IsType program) :
    ∃ reports, program.check = .ok reports ∧ ∀ report ∈ reports, report.cause.OfKnownTypes := by
  obtain ⟨last, valid⟩ := valid
  have clean : Clean (do
      let context ← Stmt.hoistAll .start program
      Stmt.checkAll context program) fun _ => True := by
    apply (Stmt.clean_hoistAll valid noted (Context.opens_start _)).bind
    intro context opens
    have sees : (Env.announcingNames (Stmt.allDeclares program)).SeesAll
        (Stmt.allDeclares program) := fun name present =>
      .inr (by simp [Env.lookup, Env.announcingNames, present])
    have checked := Stmt.clean_checkAll valid noted (opens.shows valid.widens) fun _ => sees
    exact Clean.imp checked fun _ _ => trivial
  obtain ⟨found, ends, _, fine⟩ := clean
  refine ⟨found.reports, ?_, fine⟩
  unfold Program.check
  rw [ends]

/-- The check of what inference accepts goes on to the end. It does not complain of a name that is
missing, taken or reserved, nor of a type that does not exist or stayed open. -/
theorem Program.check_agrees_on_scopes {program typed : Program} {order : ForwardOrder}
    (loaded : Program.Loaded program) (founded : Stmt.AllFounded program)
    (inferred : program.infer order = .ok typed) :
    ∃ reports, typed.check = .ok reports ∧ ∀ report ∈ reports,
      report.cause.category ≠ .scope ∧ report.cause.category ≠ .unresolvedType ∧
        ∀ name, report.cause ≠ .unknownType name := by
  have valid := wellScoped_of_infer loaded.allLoaded founded inferred
  obtain ⟨reports, checked, fine⟩ := valid.clean_check (allNoted_of_infer inferred)
  refine ⟨reports, checked, ?_⟩
  intro report present
  obtain ⟨category, known⟩ := fine report present
  rw [category]
  exact ⟨Category.noConfusion, Category.noConfusion, known⟩

namespace ForwardFlag

/-- The tokens of `let z := g + 1` and `let g := true`, all at one place. -/
def tokens : List Token :=
  let token (kind : Token.Kind) (text : String) : Token := ⟨kind, text, ⟨"flag", 0, 0⟩⟩
  [token .keyword "let", token .identifier "z", token .operator ":=", token .identifier "g",
   token .operator "+", token .number "1", token .endOfLine "\n", token .keyword "let",
   token .identifier "g", token .operator ":=", token .keyword "true"]

/-- The program that they spell, with some notes in it. -/
def program (sum flag : Option Ty) : Program :=
  [.declare ⟨"z", true, none,
      some (.binary .add (.identifier "g" ⟨"flag", 0⟩) (.number "1")), ⟨"flag", 0⟩,
      sum.map .concrete⟩,
   .declare ⟨"g", true, none, some (.boolean true), ⟨"flag", 0⟩, flag.map .concrete⟩]

end ForwardFlag

open ForwardFlag in
/-- A truth value that is added to a number ahead of its declaration: inference finds it, and so
does the check, which complains of its type alone. -/
theorem Program.check_agrees_on_scopes_forward_flag :
    Program.parse tokens = .ok (program none none) ∧ Stmt.AllFounded (program none none) ∧
      (program none none).infer .byUse = .ok (program (some .int) (some .bool)) ∧
      ∃ reports, (program (some .int) (some .bool)).check = .ok reports ∧ reports ≠ [] ∧
        ∀ report ∈ reports,
          report.cause.category ≠ .scope ∧ report.cause.category ≠ .unresolvedType ∧
            ∀ name, report.cause ≠ .unknownType name := by
  have parsed : Program.parse tokens = .ok (program none none) := by rfl
  have founded : Stmt.AllFounded (program none none) := ⟨.inr rfl, .inr rfl, trivial⟩
  have inferred : (program none none).infer .byUse = .ok (program (some .int) (some .bool)) := by
    rfl
  obtain ⟨reports, checked, fine⟩ :=
    Program.check_agrees_on_scopes (.parsed parsed) founded inferred
  have mismatch : (program (some .int) (some .bool)).check =
      .ok [⟨.operatorMismatch "+" "bool" (some "int"), ⟨"flag", 0⟩⟩] := by rfl
  refine ⟨parsed, founded, inferred, reports, checked, ?_, fine⟩
  rw [mismatch] at checked
  cases checked
  exact List.cons_ne_nil _ _

end SmallLang
