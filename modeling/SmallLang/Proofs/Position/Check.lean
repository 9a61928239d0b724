import SmallLang.Check.Stmt
import SmallLang.Proofs.Position.Inference

/-!
# Positions that a check blames

A check complains of something in the program, or of the declaration before it where it has no
position of its own. The error that ends it stands in the program too.
-/

set_option autoImplicit false

namespace SmallLang

variable {α β : Type} {place : Position → Prop} {good : α → Prop}

/-! ### Checks -/

/-- A check blames places only, and something holds of what it finds. -/
def Check.Places (place : Position → Prop) (check : Check α) (good : α → Prop) : Prop :=
  match check with
  | .ok found => good found.value ∧ ∀ report ∈ found.reports, place report.position
  | .error error => place error.position

namespace Check

theorem places_pure {value : α} (holds : good value) : Places place (pure value) good :=
  ⟨holds, List.forall_mem_nil _⟩

theorem Places.bind {first : Check α} {second : α → Check β} {last : β → Prop}
    (before : Places place first good) (after : ∀ value, good value →
      Places place (second value) last) : Places place (first >>= second) last := by
  change Places place (andThen first second) last
  unfold andThen
  cases first with
  | error error => exact before
  | ok found =>
      obtain ⟨holds, reports⟩ := before
      have next := after found.value holds
      dsimp only
      cases ends : second found.value with
      | error error =>
          rw [ends] at next
          exact next
      | ok other =>
          rw [ends] at next
          exact ⟨next.1, List.forall_mem_append.mpr ⟨reports, next.2⟩⟩

/-- The next check, whatever the first one finds. -/
theorem Places.andThen {first : Check α} {second : α → Check β} {last : β → Prop}
    (before : Places place first good) (after : ∀ value, Places place (second value) last) :
    Places place (first >>= second) last :=
  before.bind fun value _ => after value

theorem places_ofExcept {result : Except Error α} (blames : Blames place result) :
    Places place (ofExcept result) fun _ => True := by
  cases result with
  | ok value => exact places_pure trivial
  | error error => exact blames error rfl

theorem places_reportAll {errors : List Error} (stand : ∀ error ∈ errors, place error.position) :
    Places place (reportAll errors) fun _ => True :=
  ⟨trivial, stand⟩

theorem places_report (cause : Cause) {position : Position} (stands : place position) :
    Places place (report cause position) fun _ => True :=
  ⟨trivial, List.forall_mem_singleton.mpr stands⟩

theorem places_fail {error : Error} (stands : place error.position) :
    Places place (fail error : Check α) good :=
  stands

theorem places_requireSame (cause : String → String → Cause) (expected received : Option Ty)
    {position : Position} (stands : place position) :
    Places place (requireSame cause expected received position) fun _ => True := by
  unfold requireSame
  split
  · split
    · exact places_pure trivial
    · exact places_report _ stands
  · exact places_pure trivial

namespace Context

variable {context last : Context}

theorem place_of_positionOf (anchor : place context.anchor) {e : Expr} (placed : e.Placed place) :
    place (context.positionOf e) := by
  unfold positionOf
  cases found : e.position? with
  | none => exact anchor
  | some position => exact placed.position position found

theorem places_define (anchor : place context.anchor) (name : String) (symbol : Symbol)
    {position : Position} (stands : place position) :
    Places place (context.define name symbol position) fun after => place after.anchor := by
  unfold Context.define
  split
  · exact places_pure anchor
  · next fails =>
      have stand : ∀ error ∈ [_], place (Error.position error) :=
        List.forall_mem_singleton.mpr (context.scopes.blames_define name symbol stands _ fails)
      exact (places_reportAll stand).andThen fun _ => places_pure anchor

end Context

end Check

open Check

/-! ### Expressions -/

section Expressions

variable {context : Context}

namespace Check

theorem places_name (name : String) {position : Position} (stands : place position) :
    Places place (Check.name context name position) fun _ => True := by
  refine (places_ofExcept (context.scopes.blames_lookup name stands)).andThen ?_
  intro symbol
  split
  · exact places_pure trivial
  · exact places_pure trivial
  · exact (places_report _ stands).andThen fun _ => places_pure trivial

theorem places_argumentKinds (anchor : place context.anchor) : ∀ (parameters : List Ty)
    {arguments : List Expr} (types : List (Option Ty)), Expr.AllPlaced place arguments →
      Places place (argumentKinds context parameters arguments types) fun _ => True
  | _ :: parameters, _ :: _, _ :: types, placed =>
      (places_requireSame _ _ _ (Context.place_of_positionOf anchor placed.1)).andThen fun _ =>
        places_argumentKinds anchor parameters types placed.2
  | [], _, _, _ | _ :: _, [], _, _ | _ :: _, _ :: _, [], _ => places_pure trivial

theorem places_arguments (anchor : place context.anchor) (parameters : List Ty)
    {arguments : List Expr} (types : List (Option Ty)) (placed : Expr.AllPlaced place arguments)
    {position : Position} (stands : place position) :
    Places place (Check.arguments context parameters arguments types position)
      fun _ => True := by
  unfold Check.arguments
  split
  · exact places_report _ stands
  · split
    · exact places_report _ stands
    · exact places_argumentKinds anchor parameters types placed

theorem places_operation (operator : BinaryOperator) (left right : Option Ty) {position : Position}
    (stands : place position) :
    Places place (operation operator left right position) fun _ => True := by
  unfold operation
  split
  · split
    · exact places_pure trivial
    · exact (places_report _ stands).andThen fun _ => places_pure trivial
  · exact places_pure trivial

theorem places_requireMutable (name : String) {position : Position} (stands : place position) :
    Places place (requireMutable context name position) fun _ => True := by
  unfold requireMutable
  split
  · exact places_report _ stands
  · exact places_pure trivial

theorem places_requireOperand (accepted : Ty → Bool) (symbol : String) (operand : Option Ty)
    {position : Position} (stands : place position) :
    Places place (requireOperand accepted symbol operand position) fun _ => True := by
  unfold requireOperand
  split
  · exact places_pure trivial
  · split
    · exact places_pure trivial
    · exact (places_report _ stands).andThen fun _ => places_pure trivial

end Check

mutual

theorem Expr.places_check (anchor : place context.anchor) : ∀ {e : Expr}, e.Placed place →
    Places place (e.check context) fun _ => True
  | .identifier name _, placed => places_name name placed
  | .member object property, placed => by
      have stands := Context.place_of_positionOf anchor (e := object) placed
      cases object with
      | identifier space position => exact places_name _ placed
      | _ => exact (places_report _ stands).andThen fun _ => places_pure trivial
  | .call callee arguments, placed => by
      rw [Expr.check]
      have stands := Context.place_of_positionOf anchor placed.1
      refine (Expr.places_checkAll anchor placed.2).andThen ?_
      intro types
      cases callee.symbol? with
      | none =>
          refine (Expr.places_check anchor placed.1).andThen ?_
          intro _
          refine (places_report _ stands).andThen ?_
          intro _
          exact places_pure trivial
      | some name =>
          refine (places_ofExcept (context.scopes.blames_lookup name stands)).andThen ?_
          intro symbol
          cases symbol with
          | function parameters result =>
              refine (places_arguments anchor parameters types placed.2 stands).andThen ?_
              intro _
              exact places_pure trivial
          | _ => exact (places_report _ stands).andThen fun _ => places_pure trivial
  | .binary operator left right, placed => by
      rw [Expr.check]
      refine (Expr.places_check anchor placed.1).andThen ?_
      intro first
      refine (Expr.places_check anchor placed.2).andThen ?_
      intro second
      exact places_operation operator first second
        (Context.place_of_positionOf anchor (e := .binary operator left right) placed)
  | .prefixed operator operand, placed => by
      rw [Expr.check]
      refine (Expr.places_check anchor (e := operand) placed).andThen ?_
      intro type
      exact places_requireOperand _ _ type (Context.place_of_positionOf anchor (e := operand)
        placed)
  | .postfixed operator operand, placed => by
      have stands := Context.place_of_positionOf anchor (e := operand) placed
      have inner := Expr.places_check anchor (e := operand) placed
      cases operand with
      | identifier name position =>
          refine inner.andThen ?_
          intro type
          refine (places_requireMutable name placed).andThen ?_
          intro _
          exact places_requireOperand _ _ type placed
      | _ =>
          refine inner.andThen ?_
          intro _
          refine (places_report _ stands).andThen ?_
          intro _
          exact places_pure trivial
  | .number _, _ | .string _, _ | .boolean _, _ | .null, _ => places_pure trivial

theorem Expr.places_checkAll (anchor : place context.anchor) : ∀ {expressions : List Expr},
    Expr.AllPlaced place expressions →
      Places place (Expr.checkAll context expressions) fun _ => True
  | [], _ => places_pure trivial
  | _ :: _, placed => (Expr.places_check anchor placed.1).andThen fun _ =>
      (Expr.places_checkAll anchor placed.2).andThen fun _ => places_pure trivial

end

end Expressions

/-! ### Declarations -/

section Declarations

theorem FunctionHeader.blames_returnType {header : FunctionHeader} (placed : header.Placed place)
    (scopes : Scopes) : Blames place (header.returnType scopes) := by
  unfold FunctionHeader.returnType
  split
  · next typeName written => exact scopes.blames_typeOf (placed.returns typeName written)
  · exact blames_ok _
  · split
    · exact blames_ok _
    · exact blames_error placed.position

theorem FunctionHeader.blames_symbol {header : FunctionHeader} (placed : header.Placed place)
    (scopes : Scopes) : Blames place (header.symbol scopes) :=
  (scopes.blames_typesOf (List.forall_mem_map.mpr placed.parameters)).bind fun _ =>
    (FunctionHeader.blames_returnType placed scopes).bind fun _ => blames_ok _

theorem Variable.blames_declaredType {decl : Variable} (placed : decl.Placed place)
    (scopes : Scopes) : Blames place (decl.declaredType scopes) := by
  unfold Variable.declaredType
  split
  · next typeName written => exact scopes.blames_typeOf (placed.typeName typeName written)
  · exact blames_ok _
  · exact blames_error placed.position

namespace Check

/-- A check from one context to the next, which both keep in mind a place. -/
abbrev Moves (place : Position → Prop) (check : Check Context) : Prop :=
  Places place check fun after => place after.anchor

variable {context : Context}

theorem moves_parameter (anchor : place context.anchor) {param : Parameter}
    (placed : param.Placed place) : Moves place (parameter context param) :=
  (places_ofExcept (context.scopes.blames_typeOf placed)).andThen fun _ =>
    Context.places_define anchor _ _ placed

theorem moves_parameters : ∀ {params : List Parameter} {context : Context},
    place context.anchor → (∀ param ∈ params, param.Placed place) →
      Moves place (parameters context params)
  | [], _, anchor, _ => places_pure anchor
  | _ :: _, _, anchor, placed => by
      obtain ⟨first, rest⟩ := List.forall_mem_cons.mp placed
      exact (moves_parameter anchor first).bind fun _ anchor => moves_parameters anchor rest

theorem places_condition (anchor : place context.anchor) {e : Expr} (placed : e.Placed place) :
    Places place (condition context e) fun _ => True :=
  (Expr.places_check anchor placed).andThen fun _ =>
    places_requireSame _ _ _ (Context.place_of_positionOf anchor placed)

theorem places_pattern (anchor : place context.anchor) (subject : Option Ty) {e : Expr}
    (placed : e.Placed place) : Places place (pattern context subject e) fun _ => True :=
  (Expr.places_check anchor placed).andThen fun _ =>
    places_requireSame _ _ _ (Context.place_of_positionOf anchor placed)

theorem places_returns (anchor : place context.anchor) {value : Option Expr}
    (placed : ∀ e ∈ value, e.Placed place) :
    Places place (returns context value) fun _ => True := by
  cases value with
  | none => exact places_requireSame _ _ _ anchor
  | some e =>
      have placed := placed e rfl
      refine (Expr.places_check anchor placed).andThen ?_
      intro _
      exact places_requireSame _ _ _ (Context.place_of_positionOf anchor placed)

theorem places_check? (anchor : place context.anchor) {value : Option Expr}
    (placed : ∀ e ∈ value, e.Placed place) :
    Places place (Expr.check? context value) fun _ => True := by
  cases value with
  | none => exact places_pure trivial
  | some e => exact Expr.places_check anchor (placed e rfl)

theorem moves_declareVariable (anchor : place context.anchor) {decl : Variable}
    (placed : decl.Placed place) (expected value : Option Ty) :
    Moves place (declareVariable context decl expected value) := by
  have blames : Blames place (variableType context decl expected value) := by
    unfold variableType
    split
    · exact blames_ok _
    · exact Variable.blames_declaredType placed _
  unfold declareVariable
  split
  · exact places_pure anchor
  · refine (places_ofExcept blames).andThen ?_
    intro _
    exact Context.places_define anchor _ _ placed.position

theorem moves_declaration {decl : Variable} (placed : decl.Placed place) :
    Moves place (declaration context decl) := by
  have anchor : place { context with anchor := decl.position }.anchor := placed.position
  unfold declaration
  dsimp only
  split
  · exact places_fail placed.position
  · refine (places_ofExcept (context.scopes.blames_typeOf? placed.typeName)).andThen ?_
    intro _
    refine (places_check? anchor placed.value).andThen ?_
    intro value
    refine (places_requireSame _ _ _ placed.position).andThen ?_
    intro _
    exact moves_declareVariable anchor placed _ value

theorem moves_function {header : FunctionHeader} (placed : header.Placed place) :
    Moves place (function context header) := by
  have anchor : place { context with anchor := header.position }.anchor := placed.position
  unfold function
  dsimp only
  split
  · exact places_pure anchor
  · refine (places_ofExcept (FunctionHeader.blames_symbol placed _)).andThen ?_
    intro _
    exact Context.places_define anchor _ _ placed.position

theorem moves_functionBody (anchor : place context.anchor) {header : FunctionHeader}
    (placed : header.Placed place) : Moves place (functionBody context header) :=
  (places_ofExcept (FunctionHeader.blames_returnType placed _)).andThen fun result =>
    have entered : place { context.enter with returns := some result }.anchor := anchor
    moves_parameters entered placed.parameters

end Check

end Declarations

/-! ### Statements -/

section Statements

/-- A block is checked inside of its context, and what is behind it goes on from there. -/
theorem Check.moves_block {context : Context} {body : List Stmt} {next : Context → Check Context}
    (inside : ∀ context : Context, place context.anchor → Moves place (Stmt.checkAll context body))
    (anchor : place context.anchor)
    (behind : ∀ context : Context, place context.anchor → Moves place (next context)) :
    Moves place (do
      let last ← Stmt.checkAll context.enter body
      next (context.leave last)) :=
  (inside context.enter anchor).bind fun last reached => behind (context.leave last) reached

mutual

theorem Stmt.moves_check : ∀ {s : Stmt} {context : Context}, s.Placed place →
    place context.anchor → Moves place (s.check context)
  | .expr _, _, placed, anchor =>
      (Expr.places_check anchor placed).andThen fun _ => places_pure anchor
  | .comment _, _, _, anchor | .use _, _, _, anchor => places_pure anchor
  | .parameter _, _, placed, anchor => moves_parameter anchor placed
  | .returns _, _, placed, anchor =>
      (places_returns anchor placed).andThen fun _ => places_pure anchor
  | .declare _, _, placed, _ => moves_declaration placed
  | .function _ none, _, placed, _ => moves_function placed
  | .function _ (some _), _, placed, _ => by
      refine (moves_function placed.1).bind ?_
      intro _ anchor
      refine (moves_functionBody anchor placed.1).bind ?_
      intro _ inner
      refine (Stmt.moves_checkAll placed.2 inner).bind ?_
      intro _ last
      exact places_pure last
  | .branch .., _, placed, anchor => by
      refine (places_condition anchor placed.1).andThen ?_
      intro _
      exact moves_block (fun _ => Stmt.moves_checkAll placed.2.1) anchor
        fun _ => Alternate.moves_check placed.2.2
  | .loop .., _, placed, anchor =>
      (places_condition anchor placed.1).andThen fun _ =>
        moves_block (fun _ => Stmt.moves_checkAll placed.2) anchor fun _ => places_pure
  | .switch .., _, placed, anchor =>
      (Expr.places_check anchor placed.1).andThen fun type =>
        Arm.moves_checkAll placed.2 type anchor
  | .arm _, _, placed, anchor => Arm.moves_check placed none anchor
  | .merged _, _, placed, anchor => Stmt.moves_checkAll placed anchor

theorem Alternate.moves_check : ∀ {alternate : Alternate} {context : Context},
    alternate.Placed place → place context.anchor → Moves place (alternate.check context)
  | .none, _, _, anchor => places_pure anchor
  | .elseBranch .., _, placed, anchor => by
      refine (places_condition anchor placed.1).andThen ?_
      intro _
      exact moves_block (fun _ => Stmt.moves_checkAll placed.2.1) anchor
        fun _ => Alternate.moves_check placed.2.2
  | .otherwise _, _, placed, anchor =>
      moves_block (fun _ => Stmt.moves_checkAll placed) anchor fun _ => places_pure

theorem Arm.moves_check : ∀ {arm : Arm} {context : Context}, arm.Placed place →
    ∀ subject, place context.anchor → Moves place (arm.check context subject)
  | .value .., _, placed, subject, anchor =>
      (places_pattern anchor subject placed.1).andThen fun _ =>
        moves_block (fun _ => Stmt.moves_checkAll placed.2) anchor fun _ => places_pure
  | .otherwise _, _, placed, _, anchor =>
      moves_block (fun _ => Stmt.moves_checkAll placed) anchor fun _ => places_pure

/-- The check of statements blames what stands in them, or what stands before them. -/
theorem Stmt.moves_checkAll : ∀ {body : List Stmt} {context : Context},
    Stmt.AllPlaced place body → place context.anchor → Moves place (Stmt.checkAll context body)
  | [], _, _, anchor => places_pure anchor
  | _ :: _, _, placed, anchor => (Stmt.moves_check placed.1 anchor).bind fun _ anchor =>
      Stmt.moves_checkAll placed.2 anchor

theorem Arm.moves_checkAll : ∀ {arms : List Arm} {context : Context}, Arm.AllPlaced place arms →
    ∀ subject, place context.anchor → Moves place (Arm.checkAll context subject arms)
  | [], _, _, _, anchor => places_pure anchor
  | _ :: _, _, placed, subject, anchor =>
      (Arm.moves_check placed.1 subject anchor).bind fun _ anchor =>
        Arm.moves_checkAll placed.2 subject anchor

end

mutual

theorem Stmt.moves_hoist : ∀ {s : Stmt} {context : Context}, s.Placed place →
    place context.anchor → Moves place (s.hoist context)
  | .merged _, _, placed, anchor => Stmt.moves_hoistAll placed anchor
  | .function header body, _, placed, anchor => by
      have header : header.Placed place := by
        cases body with
        | none => exact placed
        | some body => exact placed.1
      refine (places_ofExcept (FunctionHeader.blames_symbol header _)).andThen ?_
      intro _
      exact Context.places_define anchor _ _ header.position
  | .declare decl, _, placed, anchor => by
      rw [Stmt.hoist]
      split
      · refine (places_ofExcept (Variable.blames_declaredType placed _)).andThen ?_
        intro _
        exact Context.places_define anchor _ _ placed.position
      · exact places_pure anchor
  | .expr _, _, _, anchor | .comment _, _, _, anchor | .use _, _, _, anchor
  | .parameter _, _, _, anchor | .returns _, _, _, anchor | .branch .., _, _, anchor
  | .loop .., _, _, anchor | .switch .., _, _, anchor | .arm _, _, _, anchor => places_pure anchor

/-- What is declared ahead of its turn is blamed where it stands. -/
theorem Stmt.moves_hoistAll : ∀ {body : List Stmt} {context : Context},
    Stmt.AllPlaced place body → place context.anchor → Moves place (Stmt.hoistAll context body)
  | [], _, _, anchor => places_pure anchor
  | _ :: _, _, placed, anchor => (Stmt.moves_hoist placed.1 anchor).bind fun _ anchor =>
      Stmt.moves_hoistAll placed.2 anchor

end

end Statements

namespace Program

variable {program : Program}

/-- Whether a check of a program ends it or not, it blames something in the program, or nothing. -/
theorem places_check (placed : Stmt.AllPlaced place program) (null : place .null) :
    match program.check with
    | .ok reports => ∀ report ∈ reports, place report.position
    | .error error => place error.position := by
  have moves : Moves place (do
      let context ← Stmt.hoistAll .start program
      Stmt.checkAll context program) :=
    (Stmt.moves_hoistAll placed null).bind fun _ anchor => Stmt.moves_checkAll placed anchor
  unfold Program.check
  dsimp only
  unfold Moves Places at moves
  split at moves
  · next ends =>
      rw [ends]
      exact moves.2
  · next ends =>
      rw [ends]
      exact moves

end Program

end SmallLang
