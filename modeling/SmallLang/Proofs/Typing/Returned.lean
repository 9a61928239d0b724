import SmallLang.Proofs.Typing.Rules

/-!
# What a typed function returns

All that a well-typed function returns is of the kind of its result.
-/

set_option autoImplicit false

namespace SmallLang

section Statements

variable {rules : Discipline}

private theorem kind_of_mem_append {result : Ty} {returned more : List Ty}
    (first : ∀ type ∈ returned, result.kind = type.kind)
    (second : ∀ type ∈ more, result.kind = type.kind) :
    ∀ type ∈ returned ++ more, result.kind = type.kind := by
  intro type present
  exact (List.mem_append.mp present).elim (first type) (second type)

mutual

/-- All that a function returns is of the kind of its result. -/
theorem Stmt.Typed.kind_of_mem {result : Ty} : ∀ {s : Stmt} {Γ Γ' : Env Binding}
    {returned : List Ty}, s.Typed rules (some result) Γ Γ' returned →
      ∀ type ∈ returned, result.kind = type.kind
  | _, _, _, _, .expr _ | _, _, _, _, .comment _ | _, _, _, _, .use _
  | _, _, _, _, .parameter .. | _, _, _, _, .declare .. | _, _, _, _, .prototype ..
  | _, _, _, _, .function .. => nofun
  | _, _, _, _, .returns _ fits => by
      intro type present
      rw [List.mem_singleton.mp present]
      exact fits result rfl
  | _, _, _, _, .branch _ _ typedBody typedRest =>
      kind_of_mem_append (Stmt.TypedAll.kind_of_mem typedBody)
        (Alternate.Typed.kind_of_mem typedRest)
  | _, _, _, _, .loop _ _ typedBody => Stmt.TypedAll.kind_of_mem typedBody
  | _, _, _, _, .switch _ typedArms => Arm.TypedAll.kind_of_mem typedArms
  | _, _, _, _, .arm typed => Arm.Typed.kind_of_mem typed
  | _, _, _, _, .merged typed => Stmt.TypedAll.kind_of_mem typed

theorem Alternate.Typed.kind_of_mem {result : Ty} : ∀ {alternate : Alternate}
    {Γ : Env Binding} {returned : List Ty}, alternate.Typed rules (some result) Γ returned →
      ∀ type ∈ returned, result.kind = type.kind
  | _, _, _, .none => nofun
  | _, _, _, .elseBranch _ _ typedBody typedRest =>
      kind_of_mem_append (Stmt.TypedAll.kind_of_mem typedBody)
        (Alternate.Typed.kind_of_mem typedRest)
  | _, _, _, .otherwise typedBody => Stmt.TypedAll.kind_of_mem typedBody

theorem Arm.Typed.kind_of_mem {result : Ty} : ∀ {arm : Arm} {subject : Option Ty}
    {Γ : Env Binding} {returned : List Ty}, arm.Typed rules (some result) subject Γ returned →
      ∀ type ∈ returned, result.kind = type.kind
  | _, _, _, _, .value _ _ typedBody | _, _, _, _, .otherwise typedBody =>
      Stmt.TypedAll.kind_of_mem typedBody

theorem Stmt.TypedAll.kind_of_mem {result : Ty} : ∀ {body : List Stmt} {Γ Γ' : Env Binding}
    {returned : List Ty}, Stmt.TypedAll rules (some result) Γ body Γ' returned →
      ∀ type ∈ returned, result.kind = type.kind
  | _, _, _, _, .nil => nofun
  | _, _, _, _, .cons typed typedRest =>
      kind_of_mem_append (Stmt.Typed.kind_of_mem typed) (Stmt.TypedAll.kind_of_mem typedRest)

theorem Arm.TypedAll.kind_of_mem {result : Ty} : ∀ {arms : List Arm} {subject : Option Ty}
    {Γ : Env Binding} {returned : List Ty},
    Arm.TypedAll rules (some result) subject Γ arms returned →
      ∀ type ∈ returned, result.kind = type.kind
  | _, _, _, _, .nil => nofun
  | _, _, _, _, .cons typed typedRest =>
      kind_of_mem_append (Arm.Typed.kind_of_mem typed) (Arm.TypedAll.kind_of_mem typedRest)

end

end Statements

end SmallLang
