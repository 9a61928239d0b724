import SmallLang.Proofs.Inference.Program
import SmallLang.Proofs.Inference.Repeat
import SmallLang.Proofs.Parse.Loaded
import SmallLang.Proofs.Typing.Program

/-!
# Inferring a program again

A second run of inference starts from what the first has settled. It changes nothing exactly if
what is noted in each declaration is what follows from its type, its value or its returns, down
to the width of integers.
-/

set_option autoImplicit false

namespace SmallLang

/-- The symbols of what is announced, as far as it is known. -/
def Scope.ofAnnounced (announced : List (String × Option Binding)) : Scope :=
  announced.filterMap fun entry => entry.2.map fun binding => (entry.1, binding.symbol)

namespace Scope

theorem ofAnnounced_append (first second : List (String × Option Binding)) :
    ofAnnounced (first ++ second) = ofAnnounced first ++ ofAnnounced second :=
  List.filterMap_append

theorem mem_ofAnnounced {announced : List (String × Option Binding)} {name : String}
    {symbol : Symbol} :
    (name, symbol) ∈ ofAnnounced announced ↔
      ∃ binding, (name, some binding) ∈ announced ∧ binding.symbol = symbol := by
  unfold ofAnnounced
  simp only [List.mem_filterMap, Option.map_eq_some_iff, Prod.mk.injEq]
  constructor
  · rintro ⟨⟨_, _⟩, present, binding, rfl, rfl, rfl⟩
    exact ⟨binding, present, rfl⟩
  · rintro ⟨binding, present, rfl⟩
    exact ⟨_, present, binding, rfl, rfl, rfl⟩

theorem nodup_ofAnnounced {announced : List (String × Option Binding)}
    (distinct : (announced.map Prod.fst).Nodup) :
    ((ofAnnounced announced).map Prod.fst).Nodup := by
  refine distinct.sublist ?_
  induction announced with
  | nil => exact .slnil
  | cons first rest ih =>
      obtain ⟨name, binding?⟩ := first
      rw [List.map_cons, List.nodup_cons] at distinct
      cases binding? with
      | none => exact (ih distinct.2).cons name
      | some binding => exact (ih distinct.2).cons_cons name

theorem lookup_reverse_ofAnnounced {announced : List (String × Option Binding)}
    (distinct : (announced.map Prod.fst).Nodup) (name : String) :
    (ofAnnounced announced).reverse.lookup name =
      ((announced.lookup name).join).map Binding.symbol := by
  cases found : (announced.lookup name).join with
  | none =>
      rw [Option.map_none, lookup_eq_none_iff, List.map_reverse, List.mem_reverse, List.mem_map]
      rintro ⟨⟨_, symbol⟩, present, rfl⟩
      obtain ⟨binding, present', _⟩ := mem_ofAnnounced.mp present
      rw [lookup_of_mem distinct present'] at found
      cases found
  | some binding =>
      refine lookup_of_mem ?_ ?_
      · rw [List.map_reverse, List.nodup_reverse]
        exact nodup_ofAnnounced distinct
      · rw [List.mem_reverse, mem_ofAnnounced]
        refine ⟨binding, ?_, rfl⟩
        obtain ⟨before, after, rfl, _⟩ :=
          List.lookup_eq_some_iff.mp (Option.join_eq_some_iff.mp found)
        simp

end Scope

namespace Engine

variable {scopes : Scopes}

theorem settledFunction?_eq {header : FunctionHeader} (sane : scopes.Sane)
    (notes : Notes Term.IsType header.resolved)
    (written : NotesType header.returns header.resolved) :
    settledFunction? scopes header = header.binding?.map Binding.symbol := by
  obtain ⟨term, noted, isType⟩ := notes
  cases term with
  | pending => cases isType
  | concrete type =>
      have resolved : header.resolvedType? = some type := by
        rw [FunctionHeader.resolvedType?, noted]
        rfl
      have result : header.resultType? = some type := by
        unfold FunctionHeader.resultType?
        cases returns : header.returns with
        | none => simp [resolved]
        | some typeName =>
            obtain ⟨other, isType, same⟩ := written typeName returns
            rw [noted] at same
            cases same
            exact isType
      unfold settledFunction? FunctionHeader.binding?
      rw [resolved, result]
      cases known : header.parameterTypes? with
      | some parameters => rw [sane.typesOf_eq_ok_iff.mpr known]; rfl
      | none =>
          cases found : scopes.typesOf (header.parameters.map (·.typeName)) with
          | error error => rfl
          | ok parameters =>
              have := sane.typesOf_eq_ok_iff.mp found
              rw [FunctionHeader.parameterTypes?, this] at known
              cases known

theorem announced_declare {decl : Variable} (written : NotesType decl.typeName decl.resolved) :
    (Stmt.declare decl).announced =
      (decl.resolvedType?.map fun type => (decl.name, some (.value type decl.mutable))).toList := by
  rw [Stmt.announced, Variable.statedType?]
  cases named : decl.typeName with
  | none => cases decl.resolvedType? <;> rfl
  | some typeName =>
      obtain ⟨type, isType, noted⟩ := written typeName named
      have resolved : decl.resolvedType? = some type := by
        rw [Variable.resolvedType?, noted]
        rfl
      simp only [isType, resolved]
      rfl

mutual

/-- The settled declarations of a root statement are what it announces. -/
theorem noteSettled_eq (sane : scopes.Sane) : ∀ (s : Stmt) (known : Scope),
    s.Noted Term.IsType →
      noteSettled scopes known s = (Scope.ofAnnounced s.announced).reverse ++ known
  | .declare decl, known, noted => by
      rw [noteSettled, announced_declare noted.1, settledVariable?]
      cases decl.resolvedType? <;> rfl
  | .function header none, known, noted => by
      rw [noteSettled, settledFunction?_eq sane noted.1 noted.2.1, Stmt.announced]
      cases header.binding? <;> rfl
  | .function header (some _), known, noted => by
      rw [noteSettled, settledFunction?_eq sane noted.1 noted.2.1, Stmt.announced]
      cases header.binding? <;> rfl
  | .merged body, known, noted => noteAllSettled_eq sane body known noted
  | .expr _, _, _ | .comment _, _, _ | .use _, _, _ | .parameter _, _, _ | .returns _, _, _
  | .branch .., _, _ | .loop .., _, _ | .switch .., _, _ | .arm _, _, _ => rfl

theorem noteAllSettled_eq (sane : scopes.Sane) : ∀ (body : List Stmt) (known : Scope),
    Stmt.AllNoted Term.IsType body →
      noteAllSettled scopes known body =
        (Scope.ofAnnounced (Stmt.allAnnounced body)).reverse ++ known
  | [], _, _ => rfl
  | first :: rest, known, noted => by
      rw [noteAllSettled, noteSettled_eq sane first known noted.1,
        noteAllSettled_eq sane rest _ noted.2, Stmt.allAnnounced, Scope.ofAnnounced_append,
        List.reverse_append, List.append_assoc]

end

/-- An engine that has learnt a settled program reads what the program announces. -/
theorem reads_learn {program : Program} (noted : Stmt.AllNoted Term.IsType program)
    (announceable : Announceable (Stmt.allAnnounced program)) :
    (start.learn program).Reads (.announcing (Stmt.allAnnounced program)) where
  describes := {
    look_eq := by
      intro name
      have known : (start.learn program).known =
          (Scope.ofAnnounced (Stmt.allAnnounced program)).reverse ++ [] :=
        noteAllSettled_eq Scopes.sane_start program [] noted
      rw [lookup?, known, List.append_nil,
        Scope.lookup_reverse_ofAnnounced announceable.distinct]
      exact congrArg (Option.or · _) (Scopes.resolve?_start name)
    apart := by
      intro name isType
      cases found : (Env.announcing (Stmt.allAnnounced program)).lookup name with
      | none => rfl
      | some binding =>
          obtain ⟨before, after, split, _⟩ :=
            List.lookup_eq_some_iff.mp (Option.join_eq_some_iff.mp found)
          have present : (name, some binding) ∈ Stmt.allAnnounced program := by simp [split]
          rw [(announceable.known _ present).1] at isType
          cases isType }
  sane := Scopes.sane_start
  block := by
    intro name notType
    rw [Scopes.innermost_of_isRoot rfl]
    show Scopes.start.resolve? name = none
    rw [Scopes.resolve?_start, Ty.isTypeName_eq_false_iff.mp notType]
    rfl
  forward := rfl

end Engine

/-- What is known of a program that was inferred from one without types. -/
theorem Program.noted_of_infer {program typed : Program} {order : ForwardOrder}
    (loaded : Stmt.AllLoaded program) (inferred : program.infer order = .ok typed) :
    Stmt.AllNoted Term.IsType typed ∧ Stmt.allBare typed = program ∧
      ∀ table : Table, Stmt.AllAlike table.Settles typed typed := by
  obtain ⟨part, last, ends, _, settled⟩ := infer_eq_ok_iff.mp inferred
  obtain ⟨_, same, noted⟩ := Stmt.passes_walkAll program ends Scopes.sane_start
  refine ⟨noted.settled settled, ?_, fun table => ?_⟩
  · rw [← settled.allBare_eq, ← same.allBare_eq, loaded.allBare_eq]
  · refine Stmt.AllAlike.compare ?_ settled settled
    rintro note left right settles ⟨rfl, _⟩
    rw [← settles.1]
    exact settles.again table

/-- Inferring a program that was inferred and passes its check changes nothing exactly if its
notes are what follows from the rest of it. -/
theorem Program.infer_again_iff {tokens : List Token} {program typed : Program}
    {order : ForwardOrder} (parsed : Program.parse tokens = .ok program)
    (inferred : program.infer order = .ok typed) (passes : typed.check = .ok [])
    (again : ForwardOrder) : typed.infer again = .ok typed ↔ typed.WellTyped .exact := by
  obtain ⟨last, returned, plain⟩ := (check_eq_ok_nil_iff typed).mp passes
  have shape := allParsed_of_parse parsed
  obtain ⟨noted, bare, settles⟩ := noted_of_infer shape.allLoaded inferred
  have reads := Engine.reads_learn noted plain.announceable
  rw [← bare] at shape
  constructor
  · intro again
    obtain ⟨part, final, ends, _, settled⟩ := infer_eq_ok_iff.mp again
    exact ⟨last, returned, Stmt.exact_of_walkAll typed shape reads plain ends settled⟩
  · rintro ⟨last, returned, exact⟩
    obtain ⟨final, ends, reads', _⟩ := Stmt.repeatsAll typed shape reads exact
    exact infer_eq_ok_iff.mpr ⟨typed, final, ends, reads'.forward, settles _⟩

namespace ForwardSum

/-- A token somewhere. -/
def token (kind : Token.Kind) (text : String) : Token := ⟨kind, text, ⟨"sum", 0, 0⟩⟩

/-- The tokens of `let z := g + 1` and `let g: i8 = 2`. -/
def tokens : List Token :=
  [token .keyword "let", token .identifier "z", token .operator ":=", token .identifier "g",
   token .operator "+", token .number "1", token .endOfLine "\n", token .keyword "let",
   token .identifier "g", token .delimiter ":", token .identifier "i8", token .operator "=",
   token .number "2"]

/-- The program that they spell, with some notes in it. -/
def program (sum small : Option Ty) : Program :=
  [.declare ⟨"z", true, none,
      some (.binary .add (.identifier "g" ⟨"sum", 0⟩) (.number "1")), ⟨"sum", 0⟩,
      sum.map .concrete⟩,
   .declare ⟨"g", true, some ⟨"i8", ⟨"sum", 0⟩⟩, some (.number "2"), ⟨"sum", 0⟩,
      small.map .concrete⟩]

end ForwardSum

open ForwardSum in
/-- A variable that is used ahead of its declaration as an `i8`, in a sum with an `int`: the sum
is an `int` at first, and an `i8` when it is inferred again. -/
theorem Program.infer_again_iff_forward_sum :
    Program.parse tokens = .ok (program none none) ∧
      (program none none).infer .byUse = .ok (program (some .int) (some (.sized .w8))) ∧
      (program (some .int) (some (.sized .w8))).check = .ok [] ∧
      (program (some .int) (some (.sized .w8))).infer .byUse =
        .ok (program (some (.sized .w8)) (some (.sized .w8))) ∧
      ¬ (program (some .int) (some (.sized .w8))).WellTyped .exact := by
  have parsed : Program.parse tokens = .ok (program none none) := by rfl
  have inferred : (program none none).infer .byUse =
      .ok (program (some .int) (some (.sized .w8))) := by rfl
  have passes : (program (some .int) (some (.sized .w8))).check = .ok [] := by rfl
  have again : (program (some .int) (some (.sized .w8))).infer .byUse =
      .ok (program (some (.sized .w8)) (some (.sized .w8))) := by rfl
  refine ⟨parsed, inferred, passes, again, fun exact => ?_⟩
  have same := (Program.infer_again_iff parsed inferred passes .byUse).mpr exact
  rw [again] at same
  cases same

end SmallLang
