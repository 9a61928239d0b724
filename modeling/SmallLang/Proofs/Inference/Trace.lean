import Mathlib.Data.List.Infix
import SmallLang.Proofs.Inference.Discipline
import SmallLang.Proofs.Inference.Program

/-!
# What inference comes by

The engines that a step of inference comes by, one for each change, up to the one that it leaves
behind. A trace is composed as the step itself is, so that none is left out. A walk writes into the
tree as well, and so comes by trees and engines.
-/

set_option autoImplicit false

namespace SmallLang

variable {α β γ : Type}

/-- The engines that a step comes by, with the one that it leaves behind. -/
structure Infer.Trace (work : Infer α) where
  points : Engine → List Engine
  ends : ∀ engine, work.last engine ∈ points engine

namespace Infer.Trace

open Infer

/-- A step with engines on its way. -/
def through (work : Infer α) (middle : Engine → List Engine) : Trace work where
  points engine := middle engine ++ [work.last engine]
  ends _ := List.mem_append_right _ (List.mem_singleton_self _)

/-- A step that makes one change, or none. -/
def step (work : Infer α) : Trace work := through work fun _ => []

/-- One step after another, if the first does not fail. -/
def bind {first : Infer α} {second : α → Infer β} (before : Trace first)
    (after : ∀ value, Trace (second value)) : Trace (first >>= second) where
  points engine := before.points engine ++
    match first engine with
    | .ok value between => (after value).points between
    | .error _ _ => []
  ends engine := by
    have here := before.ends engine
    unfold last at here ⊢
    change (match EStateM.bind first second engine with
      | .ok _ engine' => engine' | .error _ engine' => engine') ∈ _
    unfold EStateM.bind
    cases ends : first engine with
    | ok value between => exact List.mem_append_right _ ((after value).ends between)
    | error error between =>
        rw [ends] at here
        exact List.mem_append_left _ here

def ite (condition : Prop) [Decidable condition] {yes no : Infer α} (first : Trace yes)
    (second : Trace no) : Trace (if condition then yes else no) where
  points engine := if condition then first.points engine else second.points engine
  ends engine := by
    split
    · exact first.ends engine
    · exact second.ends engine

/-- A variable is being declared during the step, and none afterwards. -/
def declaring {work : Infer α} (name : String) (trace : Trace work) :
    Trace (Infer.declaring name work) where
  points engine :=
    let inside := { engine with
      declaring := if engine.scopes.isRoot then some name else engine.declaring }
    inside :: (trace.points inside ++ [(Infer.declaring name work).last engine])
  ends _ := List.mem_cons_of_mem _ (List.mem_append_right _ (List.mem_singleton_self _))

/-- Constraints come up one by one. -/
def constrainAll (pairs : List (Term × Term)) : Trace (update (·.constrainAll pairs)) :=
  through _ fun engine => pairs.inits.map engine.constrainAll

/-- What waits for a name is forgotten before the constraint comes up. -/
def settleForward (name : String) (term : Term) : Trace (update (·.settleForward name term)) :=
  through _ fun engine => [{ engine with forward := (engine.settleForward name term).forward }]

/-- The placeholder is there before it is known what it stands for. -/
def forward (name : String) (position : Position) : Trace (Infer.forward name position) :=
  through _ fun engine =>
    match engine.forward.find? (·.name == name) with
    | some _ => []
    | none => [engine.grow]

def name (name : String) (position : Position) : Trace (Infer.name name position) :=
  (step get).bind fun engine =>
    match engine.lookup? name with
    | some (.variable _ _) => step _
    | some (.function _ _) => step _
    | some (.builtin _) => step _
    | none => .ite _ (step _) (forward name position)

def operation (operator : BinaryOperator) (left right : Term) (position : Position) :
    Trace (Infer.operation operator left right position) :=
  match left, right with
  | .concrete _, .concrete _ => step _
  | .pending _, _ | .concrete _, .pending _ =>
      (step _).bind fun _ => (step _).bind fun _ => (step _).bind fun _ => step _

def application (parameters : List Ty) (result : Term) (arguments : List Term) :
    Trace (Infer.application parameters result arguments) :=
  .ite _ ((constrainAll _).bind fun _ => step _) (step _)

end Infer.Trace

section Expressions

open Infer.Trace

mutual

/-- The engines that the inference of an expression comes by. -/
def Expr.trace : (e : Expr) → Infer.Trace e.infer
  | .identifier text position => name text position
  | .member (.identifier space position) property =>
      name (qualifiedName space property) position
  | .member _ _ => step _
  | .call callee arguments =>
      (Expr.traceAll arguments).bind fun terms => (step get).bind fun engine =>
        match callee.symbol?.bind engine.lookup? with
        | some (.function parameters result) => application parameters result terms
        | some (.variable _ _) | some (.builtin _) | none => callee.trace
  | .binary operator left right =>
      left.trace.bind fun first => right.trace.bind fun second => (step get).bind fun _ =>
        operation operator first second _
  | .prefixed .negate operand => operand.trace
  | .prefixed .not operand => operand.trace.bind fun _ => (step _).bind fun _ => step _
  | .postfixed _ operand => operand.trace
  | .number _ | .string _ | .boolean _ | .null => step _

/-- The engines that the inference of expressions comes by, from the left to the right. -/
def Expr.traceAll : (expressions : List Expr) → Infer.Trace (Expr.inferAll expressions)
  | [] => step _
  | first :: rest => first.trace.bind fun _ => (Expr.traceAll rest).bind fun _ => step _

end

end Expressions

namespace Infer.Trace

def condition (e : Expr) : Trace (Infer.condition e) := e.trace.bind fun _ => step _

def pattern (subject : Option Term) (e : Expr) : Trace (Infer.pattern subject e) :=
  e.trace.bind fun _ =>
    match subject with
    | none => step _
    | some _ => step _

def value? : (value : Option Expr) → Trace (Infer.value? value)
  | none => step _
  | some e => e.trace.bind fun _ => step _

def returns (value : Option Expr) : Trace (Infer.returns value) :=
  (value? value).bind fun _ => (step _).bind fun _ => step _

def parameter (param : Parameter) : Trace (Infer.parameter param) :=
  (step _).bind fun _ => (step _).bind fun _ => step _

def parameters : (params : List Parameter) → Trace (Infer.parameters params)
  | [] => step _
  | first :: rest => (parameter first).bind fun _ => parameters rest

def initial (decl : Variable) : Trace (Infer.initial decl) :=
  (step _).bind fun _ => (step _).bind fun _ =>
    (declaring _ (value? decl.value)).bind fun _ => step _

def declare (decl : Variable) (known : Option Term) : Trace (Infer.declare decl known) :=
  (step _).bind fun _ => (step _).bind fun _ => (settleForward _ _).bind fun _ => step _

def function (header : FunctionHeader) : Trace (Infer.function header) :=
  (step _).bind fun _ => (step _).bind fun _ => (step _).bind fun _ => (step _).bind fun _ =>
    (step _).bind fun _ => (settleForward _ _).bind fun _ => step _

def commonReturn (header : FunctionHeader) (terms : List Term) :
    Trace (Infer.commonReturn header terms) :=
  through _ fun engine =>
    match terms.find? Term.isPending with
    | some pending =>
        ((terms.filter (· != pending)).map fun term => (pending, term)).inits.map
          engine.constrainAll
    | none => []

def result (header : FunctionHeader) (declared : Option Ty) (terms : List Term) :
    Trace (Infer.result header declared terms) :=
  match declared with
  | some _ => step _
  | none => commonReturn header terms

def conclusion (header : FunctionHeader) (declared : Option Ty) (before : Term)
    (terms : List Term) : Trace (Infer.conclusion header declared before terms) :=
  (result header declared terms).bind fun _ =>
    .ite _ (step _) ((step _).bind fun _ => step _)

end Infer.Trace

/-- The trees and engines that a walk comes by, with those at its end. -/
structure Walk.Trace (walk : Walk α) where
  points : Engine → List (α × Engine)
  ends : ∀ engine, ((walk engine).part, (walk engine).engine) ∈ points engine

namespace Walk.Trace

/-- The tree stays as it is during some work. -/
def after {work : Infer γ} {walk : γ → Walk α} (before : Infer.Trace work) (part : α)
    (later : ∀ value, Trace (walk value)) : Trace (Walk.after work part walk) where
  points engine := (before.points engine).map (part, ·) ++
    match work engine with
    | .ok value between => (later value).points between
    | .error _ _ => []
  ends engine := by
    have here := before.ends engine
    unfold Infer.last at here
    unfold Walk.after
    cases ends : work engine with
    | ok value between => exact List.mem_append_right _ ((later value).ends between)
    | error error between =>
        rw [ends] at here
        exact List.mem_append_left _ (List.mem_map_of_mem here)

def still {work : Infer Term} (part : α) (trace : Infer.Trace work) :
    Trace (Walk.still part work) where
  points engine := (trace.points engine).map (part, ·)
  ends engine := by
    have here := trace.ends engine
    unfold Infer.last at here
    unfold Walk.still Walk.after
    cases ends : work engine with
    | ok _ between =>
        rw [ends] at here
        exact List.mem_map_of_mem here
    | error _ between =>
        rw [ends] at here
        exact List.mem_map_of_mem here

def map {walk : Walk α} (trace : Trace walk) (whole : α → β) : Trace (walk.map whole) where
  points engine := (trace.points engine).map fun found => (whole found.1, found.2)
  ends engine := List.mem_map_of_mem (trace.ends engine)

def within {walk : Walk α} (trace : Trace walk) (whole : α → β) : Trace (walk.within whole) where
  points engine := (trace.points engine).map fun found => (whole found.1, found.2)
  ends engine := List.mem_map_of_mem (trace.ends engine)

/-- The second part stays as it is until the first is done. -/
def both {first : Walk α} {second : Walk β} (before : Trace first) (part : β)
    (later : Trace second) : Trace (first.both part second) where
  points engine := ((before.points engine).map fun found => ((found.1, part), found.2)) ++
    match (first engine).outcome with
    | .ok _ => (later.points (first engine).engine).map fun found =>
        (((first engine).part, found.1), found.2)
    | .error _ => []
  ends engine := by
    unfold Walk.both
    cases ends : (first engine).outcome with
    | ok _ =>
        simp only [ends]
        exact List.mem_append_right _ (List.mem_map_of_mem (later.ends _))
    | error _ =>
        simp only [ends]
        exact List.mem_append_left _ (List.mem_map_of_mem (before.ends engine))

/-- A part in a scope of its own, which is opened before the part is walked. -/
def inScope {walk : Walk α} (part : α) (inside : Trace walk) : Trace walk.inScope where
  points engine := (part, engine.push) ::
    (inside.points engine.push ++ [((walk.inScope engine).part, (walk.inScope engine).engine)])
  ends _ := List.mem_cons_of_mem _ (List.mem_append_right _ (List.mem_singleton_self _))

end Walk.Trace

open Infer.Trace in
/-- What is known of a variable is written into it before it is declared. -/
def Variable.trace (decl : Variable) : Walk.Trace decl.walk :=
  .after (initial decl) decl fun known => .still _ (declare decl known)

open Infer.Trace in
def FunctionHeader.traceAlone (header : FunctionHeader) : Walk.Trace header.walkAlone :=
  .after (function header) header fun _ => .still _ (step _)

namespace FunctionHeader

/-- What is left to do for a function when its body is done and its scope closed. -/
def finish (header : FunctionHeader) (found : Option Ty × Term) (walked : Walked (List Stmt)) :
    Walk (FunctionHeader × List Stmt) :=
  match walked.outcome with
  | .error error => .still (header, walked.part) (Infer.fail error)
  | .ok _ =>
      .after (Infer.conclusion header found.1 found.2 walked.engine.returned)
        (header, walked.part) fun term =>
          .still ({ header with resolved := some term }, walked.part) (return .concrete .void)

open Infer.Trace in
def finishTrace (header : FunctionHeader) (found : Option Ty × Term) :
    (walked : Walked (List Stmt)) → Walk.Trace (header.finish found walked)
  | ⟨part, _, .error error⟩ => .still (header, part) (step (Infer.fail error))
  | ⟨part, engine, .ok _⟩ =>
      .after (conclusion header found.1 found.2 engine.returned) (header, part) fun _ =>
        .still _ (step _)

/-- The scope of a function is opened before its frame, and closed after it. -/
def inside (header : FunctionHeader) (body : List Stmt) {walk : Walk (List Stmt)}
    (trace : Walk.Trace walk) (found : Option Ty × Term) :
    let walked := Walk.after (Infer.parameters header.parameters) body fun _ => walk
    Walk.Trace fun engine =>
      header.finish found (walked engine.enter) (walked engine.enter).engine.leave where
  points engine :=
    let walked := Walk.after (Infer.parameters header.parameters) body (fun _ => walk) engine.enter
    let trace := Walk.Trace.after (Infer.Trace.parameters header.parameters) body fun _ => trace
    ((header, body), engine.push) :: ((header, body), engine.enter) ::
      (trace.points engine.enter).map (fun found => ((header, found.1), found.2)) ++
      ((header, walked.part), { walked.engine with frames := walked.engine.frames.tail }) ::
        ((header, walked.part), walked.engine.leave) ::
        (header.finishTrace found walked).points walked.engine.leave
  ends engine := by
    refine List.mem_append_right _ (List.mem_cons_of_mem _ (List.mem_cons_of_mem _ ?_))
    exact (header.finishTrace found _).ends _

/-- The trees and engines that the walk of a function comes by. -/
def trace (header : FunctionHeader) (body : List Stmt) {walk : Walk (List Stmt)}
    (trace : Walk.Trace walk) : Walk.Trace (header.walk body walk) :=
  .after (.function header) (header, body) (header.inside body trace)

end FunctionHeader

mutual

/-- The trees and engines that the walk of a statement comes by. -/
def Stmt.trace : (s : Stmt) → Walk.Trace s.walk
  | .expr e => .still _ e.trace
  | .comment _ | .use _ => .still _ (.step _)
  | .parameter param => .still _ (.parameter param)
  | .returns value => .still _ (.returns value)
  | .declare decl => decl.trace.map _
  | .function header none => header.traceAlone.within fun header => Stmt.function header none
  | .function header (some body) =>
      (header.trace body (Stmt.traceAll body)).within fun found =>
        Stmt.function found.1 (some found.2)
  | .branch condition body alternate =>
      .after (.condition condition) _ fun _ =>
        (Walk.Trace.both (.inScope body (Stmt.traceAll body)) alternate alternate.trace).within _
  | .loop condition body =>
      .after (.condition condition) _ fun _ =>
        (Walk.Trace.inScope body (Stmt.traceAll body)).within _
  | .switch subject arms =>
      .after subject.trace _ fun term => (Arm.traceAll (some term) arms).within _
  | .arm single => (single.trace none).within _
  | .merged body => (Stmt.traceAll body).within _

def Alternate.trace : (alternate : Alternate) → Walk.Trace alternate.walk
  | .none => .still _ (.step _)
  | .elseBranch condition body alternate =>
      .after (.condition condition) _ fun _ =>
        (Walk.Trace.both (.inScope body (Stmt.traceAll body)) alternate alternate.trace).within _
  | .otherwise body => (Walk.Trace.inScope body (Stmt.traceAll body)).within _

def Arm.trace (subject : Option Term) : (arm : Arm) → Walk.Trace (arm.walk subject)
  | .value pattern body =>
      .after (.pattern subject pattern) _ fun _ =>
        (Walk.Trace.inScope body (Stmt.traceAll body)).within _
  | .otherwise body => (Walk.Trace.inScope body (Stmt.traceAll body)).within _

def Stmt.traceAll : (body : List Stmt) → Walk.Trace (Stmt.walkAll body)
  | [] => .still _ (.step _)
  | first :: rest => (Walk.Trace.both first.trace rest (Stmt.traceAll rest)).within _

def Arm.traceAll (subject : Option Term) : (arms : List Arm) → Walk.Trace (Arm.walkAll subject arms)
  | [] => .still _ (.step _)
  | first :: rest =>
      (Walk.Trace.both (first.trace subject) rest (Arm.traceAll subject rest)).within _

end

/-! ### Runs -/

/-- The trees and engines that a run comes by, from its beginning to its end. The constraints are
taken over before they are swept one by one, and while the declarations are settled some of the
notes have given way to types. -/
inductive Program.ComesBy (program : Program) (engine : Engine) : Program → Engine → Prop where
  | starts : ComesBy program engine program engine
  | learns : ComesBy program engine program (engine.learn program)
  | walks {part : Program} {point : Engine} :
      (part, point) ∈ (Stmt.traceAll program).points (engine.learn program) →
      ComesBy program engine part point
  | sweeps {part : Program} {last : Engine} (count : Nat) :
      (Stmt.walkAll program).Ends (engine.learn program) part last → last.forward = [] →
      ComesBy program engine part
        { last with table := last.table.unify (last.constraints.take count), constraints := [] }
  | settles {part part' : Program} {last : Engine} :
      (Stmt.walkAll program).Ends (engine.learn program) part last → last.forward = [] →
      Stmt.AllAlike (fun note note' => note' = note ∨ last.sweep.table.Settles note note')
        part part' →
      ComesBy program engine part' last.sweep

/-- The end of a run is one of its points, whatever comes of it. -/
theorem Program.comesBy_run (order : ForwardOrder) (program : Program) (engine : Engine) :
    (Infer.run order program).Meets engine (fun typed last => program.ComesBy engine typed last)
      fun _ last => ∃ part, program.ComesBy engine part last := by
  refine Infer.Meets.bind (Infer.meets_update (Infer.Meets.bind ?_))
  have ended := (Stmt.traceAll program).ends (engine.learn program)
  unfold Infer.Meets Infer.walk
  dsimp only
  cases walked : Stmt.walkAll program (engine.learn program) with
  | mk part last outcome =>
      rw [walked] at ended
      cases outcome with
      | error error => exact ⟨part, .walks ended⟩
      | ok term =>
          have ends : (Stmt.walkAll program).Ends (engine.learn program) part last := ⟨term, walked⟩
          refine Infer.Meets.bind (Infer.meets_get_bind ?_)
          split
          · next none =>
              have declared := Engine.firstForward?_eq_none_iff.mp none
              have swept := ComesBy.sweeps last.constraints.length ends declared
              rw [List.take_length] at swept
              refine Infer.Meets.bind (Infer.meets_update (Infer.meets_ofExcept ?_ ?_))
              · intro typed settled
                refine .settles ends declared ?_
                exact ((Stmt.settleAll_eq_ok_iff part).mp settled).mono fun _ _ => .inr
              · exact fun _ _ => ⟨part, swept⟩
          · exact ⟨part, .walks ended⟩

end SmallLang
