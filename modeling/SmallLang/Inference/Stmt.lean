import SmallLang.Inference.Expr

/-!
# Walking statements

The walk writes the term of each declaration into it. What it has written stays when the
walk fails further on.
-/

set_option autoImplicit false

namespace SmallLang

/-- The end of a walk over a part of a program: the part with what was written into it, the
engine, and the term of the part or the error that stopped the walk. -/
structure Walked (α : Type) where
  part : α
  engine : Engine
  outcome : Except Error Term

abbrev Walk (α : Type) := Engine → Walked α

namespace Walk

variable {α β γ : Type}

def void : Except Error Term → Except Error Term := Except.map fun _ => .concrete .void

/-- Walks a part after some work. If the work fails, the part stays as it is. -/
def after (work : Infer γ) (part : α) (walk : γ → Walk α) : Walk α := fun engine =>
  match work engine with
  | .ok value engine => walk value engine
  | .error error engine => ⟨part, engine, .error error⟩

/-- A part into which nothing is written. -/
def still (part : α) (work : Infer Term) : Walk α :=
  after work part fun term engine => ⟨part, engine, .ok term⟩

/-- A part that is walked for another around it, which has the same value. -/
def map (walk : Walk α) (whole : α → β) : Walk β := fun engine =>
  let walked := walk engine
  ⟨whole walked.part, walked.engine, walked.outcome⟩

/-- A part that is walked for another around it, which has no value. -/
def within (walk : Walk α) (whole : α → β) : Walk β := fun engine =>
  let walked := walk engine
  ⟨whole walked.part, walked.engine, void walked.outcome⟩

/-- Two parts, one after the other. If the first fails, the second stays as it is. -/
def both (first : Walk α) (part : β) (second : Walk β) : Walk (α × β) := fun engine =>
  let walked := first engine
  match walked.outcome with
  | .error error => ⟨(walked.part, part), walked.engine, .error error⟩
  | .ok _ =>
      let walked' := second walked.engine
      ⟨(walked.part, walked'.part), walked'.engine, walked'.outcome⟩

/-- A part in a scope of its own. The scope is closed also after a failure. -/
def inScope (walk : Walk α) : Walk α := fun engine =>
  let walked := walk engine.push
  { walked with engine := walked.engine.pop }

end Walk

namespace Infer

variable {α : Type}

def condition (expression : Expr) : Infer Unit := do
  let term ← expression.infer
  constrain term (.concrete .bool)

/-- A pattern has to agree with the subject, if there is one. -/
def pattern (subject : Option Term) (expression : Expr) : Infer Unit := do
  let term ← expression.infer
  match subject with
  | none => return
  | some subject => constrain subject term

def value? : Option Expr → Infer (Option Term)
  | none => return none
  | some expression => do
      let term ← expression.infer
      return some term

/-- A return has the term of its value, and the function around it takes note of it. -/
def returns (value : Option Expr) : Infer Term := do
  let known ← value? value
  let term := known.getD (.concrete .void)
  update (·.addReturn term)
  return term

def parameter (param : Parameter) : Infer Term := do
  let type ← ofExcept (·.scopes.typeOf param.typeName)
  define param.name (.variable (.concrete type) true) param.typeName.position
  return .concrete type

def parameters : List Parameter → Infer Unit
  | [] => return
  | first :: rest => do
      let _ ← parameter first
      parameters rest

/-- Some work on the value of a variable. In the root scope, the name of the variable does
not reach the variable from there. -/
def declaring (name : String) (work : Infer α) : Infer α := fun engine =>
  let declaring := if engine.scopes.isRoot then some name else engine.declaring
  match work { engine with declaring } with
  | .ok value engine => .ok value { engine with declaring := none }
  | .error error engine => .error error { engine with declaring := none }

/-- What is known of a variable before its declaration: the type that it is written with,
or else the term of its value. -/
def initial (decl : Variable) : Infer (Option Term) := do
  update ({ · with anchor := decl.position })
  let annotated ← ofExcept (·.scopes.typeOf? decl.typeName)
  let value ← declaring decl.name (value? decl.value)
  return (annotated.map .concrete).or value

/-- A term, or a new placeholder where there is none. -/
def orFresh : Option Term → Infer Term
  | some term => return term
  | none => fresh

/-- Declares a variable. One of which nothing is known is a placeholder. -/
def declare (decl : Variable) (known : Option Term) : Infer Term := do
  let term ← orFresh known
  define decl.name (.variable term decl.mutable) decl.position
  update (·.settleForward decl.name term)
  return term

/-- What is known of a function's result before its body: the type that it is declared with,
or the one that an earlier run has found. A function that is defined elsewhere returns
nothing unless it says so. -/
def knownResult (header : FunctionHeader) (declared : Option Ty) : Option Term :=
  match declared with
  | some type => some (.concrete type)
  | none =>
      if header.isExternal then some (.concrete .void)
      else header.resolvedType?.map .concrete

/-- Declares a function, before its body is walked, so that the body can call it. The first
of the results is the type that it is written with, the second its term for now. -/
def function (header : FunctionHeader) : Infer (Option Ty × Term) := do
  update ({ · with anchor := header.position })
  let parameters ← ofExcept (·.scopes.typesOf (header.parameters.map (·.typeName)))
  let declared ← ofExcept (·.scopes.typeOf? header.returns)
  let term ← orFresh (knownResult header declared)
  define header.name (.function parameters term) header.position
  update (·.settleForward header.name term)
  return (declared, term)

/-- The term of the values that a function returns. The first that is open stands for all;
if all are types, they are of one kind. A function without a return returns nothing. -/
def commonReturn (header : FunctionHeader) (terms : List Term) : Infer Term :=
  match terms.find? Term.isPending with
  | some pending => do
      update (·.constrainAll ((terms.filter (· != pending)).map fun term => (pending, term)))
      return pending
  | none =>
      match terms.filterMap Term.type? with
      | [] => return .concrete .void
      | first :: rest =>
          match rest.find? fun type => !first.sameKind type with
          | none => return .concrete first
          | some other =>
              fail ⟨.conflictingReturns header.name first.name other.name, header.position⟩

/-- The term of a function's result after its body: the type that it is declared with, or what
it returns. -/
def result (header : FunctionHeader) (declared : Option Ty) (terms : List Term) : Infer Term :=
  match declared with
  | some type => return .concrete type
  | none => commonReturn header terms

/-- Makes the term of a function after its body agree with the one before, and gives the
better known of the two. -/
def conclusion (header : FunctionHeader) (declared : Option Ty) (before : Term)
    (terms : List Term) : Infer Term := do
  let after ← result header declared terms
  let better := if after.isPending then before else after
  if after = before then return better
  else
    constrain before after
    return better

end Infer

/-- Walks a variable. What is known of it is written into it before it is declared. -/
def Variable.walk (decl : Variable) : Walk Variable :=
  .after (Infer.initial decl) decl fun known =>
    .still { decl with resolved := known.or decl.resolved } (Infer.declare decl known)

/-- Walks a function, given a walk over its body. The scope and the frame of the body are
closed also after a failure. -/
def FunctionHeader.walk (header : FunctionHeader) (body : List Stmt) (walk : Walk (List Stmt)) :
    Walk (FunctionHeader × List Stmt) :=
  .after (Infer.function header) (header, body) fun (declared, before) engine =>
    let walked := Walk.after (Infer.parameters header.parameters) body (fun _ => walk) engine.enter
    let finish : Walk (FunctionHeader × List Stmt) :=
      match walked.outcome with
      | .error error => .still (header, walked.part) (Infer.fail error)
      | .ok _ =>
          .after (Infer.conclusion header declared before walked.engine.returned)
            (header, walked.part) fun term =>
              .still ({ header with resolved := some term }, walked.part) (return .concrete .void)
    finish walked.engine.leave

def FunctionHeader.walkAlone (header : FunctionHeader) : Walk FunctionHeader :=
  .after (Infer.function header) header fun (_, term) =>
    .still { header with resolved := some term } (return .concrete .void)

mutual

def Stmt.walk : Stmt → Walk Stmt
  | .expr e => .still (.expr e) e.infer
  | .comment text => .still (.comment text) (return .concrete .void)
  | .use used => .still (.use used) (return .concrete .void)
  | .parameter param => .still (.parameter param) (Infer.parameter param)
  | .returns value => .still (.returns value) (Infer.returns value)
  | .declare decl => decl.walk.map .declare
  | .function header none => header.walkAlone.within fun header => .function header none
  | .function header (some body) =>
      (header.walk body (Stmt.walkAll body)).within fun (header, body) =>
        .function header (some body)
  | .branch condition body alternate =>
      .after (Infer.condition condition) (.branch condition body alternate) fun _ =>
        (Walk.both (Walk.inScope (Stmt.walkAll body)) alternate alternate.walk).within
          fun (body, alternate) => .branch condition body alternate
  | .loop condition body =>
      .after (Infer.condition condition) (.loop condition body) fun _ =>
        (Walk.inScope (Stmt.walkAll body)).within fun body => .loop condition body
  | .switch subject arms =>
      .after subject.infer (.switch subject arms) fun term =>
        (Arm.walkAll (some term) arms).within fun arms => .switch subject arms
  | .arm single => (single.walk none).within .arm
  | .merged body => (Stmt.walkAll body).within .merged

def Alternate.walk : Alternate → Walk Alternate
  | .none => .still .none (return .concrete .void)
  | .elseBranch condition body alternate =>
      .after (Infer.condition condition) (.elseBranch condition body alternate) fun _ =>
        (Walk.both (Walk.inScope (Stmt.walkAll body)) alternate alternate.walk).within
          fun (body, alternate) => .elseBranch condition body alternate
  | .otherwise body => (Walk.inScope (Stmt.walkAll body)).within .otherwise

/-- Walks an arm of a switch whose subject has a given term, or a lone arm. -/
def Arm.walk (subject : Option Term) : Arm → Walk Arm
  | .value pattern body =>
      .after (Infer.pattern subject pattern) (.value pattern body) fun _ =>
        (Walk.inScope (Stmt.walkAll body)).within fun body => .value pattern body
  | .otherwise body => (Walk.inScope (Stmt.walkAll body)).within .otherwise

/-- Walks statements, up to the first that fails. -/
def Stmt.walkAll : List Stmt → Walk (List Stmt)
  | [] => .still [] (return .concrete .void)
  | first :: rest =>
      (Walk.both first.walk rest (Stmt.walkAll rest)).within fun (first, rest) => first :: rest

def Arm.walkAll (subject : Option Term) : List Arm → Walk (List Arm)
  | [] => .still [] (return .concrete .void)
  | first :: rest =>
      (Walk.both (first.walk subject) rest (Arm.walkAll subject rest)).within
        fun (first, rest) => first :: rest

end

end SmallLang
