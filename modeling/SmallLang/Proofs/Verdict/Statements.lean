import SmallLang.Check.Stmt
import SmallLang.Proofs.Verdict.Agree

/-!
# Checks of statements that agree

Where names mean the same, statements are complained of for the same causes, and leave contexts in
which names mean the same.
-/

set_option autoImplicit false

namespace SmallLang

namespace Check

namespace Context.Alike

variable {first second : Context}

theorem refl (context : Context) : context.Alike context := ⟨.refl _, rfl⟩

theorem symm (alike : first.Alike second) : second.Alike first :=
  ⟨alike.scopes.symm, alike.returns.symm⟩

theorem anchored (alike : first.Alike second) (anchor anchor' : Position) :
    { first with anchor }.Alike { second with anchor := anchor' } :=
  ⟨alike.scopes, alike.returns⟩

theorem enter (alike : first.Alike second) : first.enter.Alike second.enter :=
  ⟨alike.scopes.push, alike.returns⟩

theorem leave (alike : first.Alike second) (last last' : Context) :
    (first.leave last).Alike (second.leave last') :=
  alike.anchored _ _

end Context.Alike

variable {context context' : Context}

theorem agree_define (alike : context.Alike context') (name : String) (symbol : Symbol)
    (position position' : Position) :
    Agree Context.Alike (context.define name symbol position)
      (context'.define name symbol position') := by
  unfold Context.define Scopes.define Scopes.definesHere
  rw [alike.scopes.innermost_eq]
  cases Ty.isTypeName name with
  | true => exact ⟨alike, rfl⟩
  | false =>
      cases (context'.scopes.innermost.lookup name).isSome with
      | true => exact ⟨alike, rfl⟩
      | false => exact ⟨⟨alike.scopes.insert name symbol, alike.returns⟩, rfl⟩

theorem agree_parameter (alike : context.Alike context') (param : Parameter) :
    Agree Context.Alike (parameter context param) (parameter context' param) := by
  rw [parameter, alike.scopes.typeOf_eq, parameter]
  exact (agree_refl _).andThen fun _ => agree_define alike _ _ _ _

theorem agree_parameters : ∀ (params : List Parameter) {context context' : Context},
    context.Alike context' →
      Agree Context.Alike (parameters context params) (parameters context' params)
  | [], _, _, alike => agree_pure alike
  | param :: rest, _, _, alike =>
      (agree_parameter alike param).bind fun _ _ alike' => agree_parameters rest alike'

theorem agree_condition (alike : context.Alike context') (e : Expr) :
    Agree Eq (condition context e) (condition context' e) :=
  (e.agree_check alike).andThen fun _ => agree_requireSame _ _ _ _ _

theorem agree_pattern (alike : context.Alike context') (subject : Option Ty) (e : Expr) :
    Agree Eq (pattern context subject e) (pattern context' subject e) :=
  (e.agree_check alike).andThen fun _ => agree_requireSame _ _ _ _ _

theorem agree_check? (alike : context.Alike context') : ∀ value : Option Expr,
    Agree Eq (Expr.check? context value) (Expr.check? context' value)
  | none => agree_refl _
  | some e => e.agree_check alike

theorem agree_returns (alike : context.Alike context') : ∀ value : Option Expr,
    Agree Eq (Check.returns context value) (Check.returns context' value)
  | none => by
      rw [Check.returns, alike.returns, Check.returns]
      exact agree_requireSame _ _ _ _ _
  | some e => by
      rw [Check.returns, alike.returns, Check.returns]
      exact (e.agree_check alike).andThen fun _ => agree_requireSame _ _ _ _ _

theorem declaredType_eq (alike : context.Alike context') (decl : Variable) :
    decl.declaredType context.scopes = decl.declaredType context'.scopes := by
  unfold Variable.declaredType
  simp only [alike.scopes.typeOf_eq]

theorem returnType_eq (alike : context.Alike context') (header : FunctionHeader) :
    header.returnType context.scopes = header.returnType context'.scopes := by
  unfold FunctionHeader.returnType
  simp only [alike.scopes.typeOf_eq]

theorem symbol_eq (alike : context.Alike context') (header : FunctionHeader) :
    header.symbol context.scopes = header.symbol context'.scopes := by
  rw [FunctionHeader.symbol, alike.scopes.typesOf_eq, returnType_eq alike, FunctionHeader.symbol]

theorem agree_declareVariable (alike : context.Alike context') (decl : Variable)
    (expected value : Option Ty) :
    Agree Context.Alike (declareVariable context decl expected value)
      (declareVariable context' decl expected value) := by
  rw [declareVariable, declareVariable, alike.scopes.isRoot_eq, variableType,
    declaredType_eq alike, ← variableType]
  split
  · exact agree_pure alike
  · exact (agree_refl _).andThen fun _ => agree_define alike _ _ _ _

theorem agree_declaration (alike : context.Alike context') (decl : Variable) :
    Agree Context.Alike (declaration context decl) (declaration context' decl) := by
  have here := alike.anchored decl.position decl.position
  unfold declaration
  dsimp only
  rw [alike.scopes.typeOf?_eq]
  split
  · exact Eq.refl (Cause.untypedVariable decl.name)
  · refine (agree_refl _).andThen ?_
    intro annotated
    refine (agree_check? here decl.value).andThen ?_
    intro value
    refine (agree_requireSame _ _ _ _ _).andThen ?_
    intro _
    exact agree_declareVariable here decl _ value

theorem agree_function (alike : context.Alike context') (header : FunctionHeader) :
    Agree Context.Alike (Check.function context header) (Check.function context' header) := by
  have here := alike.anchored header.position header.position
  unfold Check.function
  dsimp only
  rw [alike.scopes.isRoot_eq, symbol_eq alike]
  split
  · exact agree_pure here
  · exact (agree_refl _).andThen fun _ => agree_define here _ _ _ _

theorem agree_functionBody (alike : context.Alike context') (header : FunctionHeader) :
    Agree Context.Alike (functionBody context header) (functionBody context' header) := by
  rw [functionBody, returnType_eq alike, functionBody]
  refine (agree_refl _).andThen fun result => agree_parameters header.parameters ?_
  exact ⟨alike.scopes.push, rfl⟩

end Check

open Check

mutual

/-- Statements agree wherever names mean the same. -/
theorem Stmt.agree_check : ∀ (s : Stmt) {context context' : Context}, context.Alike context' →
    Agree Context.Alike (s.check context) (s.check context')
  | .expr e, _, _, alike => (e.agree_check alike).andThen fun _ => agree_pure alike
  | .comment _, _, _, alike | .use _, _, _, alike => agree_pure alike
  | .parameter param, _, _, alike => agree_parameter alike param
  | .returns value, _, _, alike => (agree_returns alike value).andThen fun _ => agree_pure alike
  | .declare decl, _, _, alike => agree_declaration alike decl
  | .function header none, _, _, alike => agree_function alike header
  | .function header (some body), _, _, alike => by
      refine (agree_function alike header).bind ?_
      intro _ _ alike
      refine (agree_functionBody alike header).bind ?_
      intro _ _ inside
      refine (Stmt.agree_checkAll body inside).bind ?_
      intro _ _ _
      exact agree_pure (alike.leave _ _)
  | .branch condition body alternate, _, _, alike => by
      refine (agree_condition alike condition).andThen ?_
      intro _
      refine (Stmt.agree_checkAll body alike.enter).bind ?_
      intro _ _ _
      exact Alternate.agree_check alternate (alike.leave _ _)
  | .loop condition body, _, _, alike =>
      (agree_condition alike condition).andThen fun _ =>
        (Stmt.agree_checkAll body alike.enter).bind fun _ _ _ => agree_pure (alike.leave _ _)
  | .switch subject arms, _, _, alike =>
      (subject.agree_check alike).andThen fun type => Arm.agree_checkAll type arms alike
  | .arm single, _, _, alike => Arm.agree_check none single alike
  | .merged body, _, _, alike => Stmt.agree_checkAll body alike

theorem Alternate.agree_check : ∀ (alternate : Alternate) {context context' : Context},
    context.Alike context' →
      Agree Context.Alike (alternate.check context) (alternate.check context')
  | .none, _, _, alike => agree_pure alike
  | .elseBranch condition body alternate, _, _, alike => by
      refine (agree_condition alike condition).andThen ?_
      intro _
      refine (Stmt.agree_checkAll body alike.enter).bind ?_
      intro _ _ _
      exact Alternate.agree_check alternate (alike.leave _ _)
  | .otherwise body, _, _, alike =>
      (Stmt.agree_checkAll body alike.enter).bind fun _ _ _ => agree_pure (alike.leave _ _)

theorem Arm.agree_check (subject : Option Ty) : ∀ (arm : Arm) {context context' : Context},
    context.Alike context' →
      Agree Context.Alike (arm.check context subject) (arm.check context' subject)
  | .value pattern body, _, _, alike =>
      (agree_pattern alike subject pattern).andThen fun _ =>
        (Stmt.agree_checkAll body alike.enter).bind fun _ _ _ => agree_pure (alike.leave _ _)
  | .otherwise body, _, _, alike =>
      (Stmt.agree_checkAll body alike.enter).bind fun _ _ _ => agree_pure (alike.leave _ _)

theorem Stmt.agree_checkAll : ∀ (body : List Stmt) {context context' : Context},
    context.Alike context' →
      Agree Context.Alike (Stmt.checkAll context body) (Stmt.checkAll context' body)
  | [], _, _, alike => agree_pure alike
  | first :: rest, _, _, alike =>
      (Stmt.agree_check first alike).bind fun _ _ alike => Stmt.agree_checkAll rest alike

theorem Arm.agree_checkAll (subject : Option Ty) : ∀ (arms : List Arm)
    {context context' : Context}, context.Alike context' →
      Agree Context.Alike (Arm.checkAll context subject arms) (Arm.checkAll context' subject arms)
  | [], _, _, alike => agree_pure alike
  | first :: rest, _, _, alike =>
      (Arm.agree_check subject first alike).bind fun _ _ alike =>
        Arm.agree_checkAll subject rest alike

end

end SmallLang
