import Mathlib.Data.List.Nodup
import SmallLang.Proofs.Typing.Rules

/-!
# Announced names

How the block of an environment grows while the root scope already knows what the statements
ahead announce. Typed statements add exactly the names that they declare, each once.
-/

set_option autoImplicit false

namespace SmallLang

namespace Env

/-- What is announced is known outside of the block and not declared in it yet. -/
structure Awaits (Γ : Env Binding) (announced : List (String × Option Binding)) : Prop where
  distinct : (announced.map Prod.fst).Nodup
  known : ∀ name binding?, (name, binding?) ∈ announced →
    ∃ binding, binding? = some binding ∧ Γ.outer name = some binding
  unseen : ∀ name binding?, (name, binding?) ∈ announced → Γ.block name = none

/-- Of the names known outside of the block, only the given ones were declared in it. -/
structure Extends (Γ Γ' : Env Binding) (names : List String) : Prop where
  outer : Γ'.outer = Γ.outer
  block : ∀ name, (Γ.outer name).isSome → name ∉ names → Γ'.block name = Γ.block name

theorem Extends.refl (Γ : Env Binding) (names : List String) : Γ.Extends Γ names :=
  ⟨rfl, fun _ _ _ => rfl⟩

theorem Extends.trans {Γ Γ' Γ'' : Env Binding} {names more : List String}
    (first : Γ.Extends Γ' names) (second : Γ'.Extends Γ'' more) :
    Γ.Extends Γ'' (names ++ more) where
  outer := second.outer.trans first.outer
  block := by
    intro name known new
    rw [List.mem_append, not_or] at new
    rw [second.block name (first.outer ▸ known) new.2, first.block name known new.1]

theorem extends_declare (Γ : Env Binding) (name : String) (binding : Binding) :
    Γ.Extends (Γ.declare name binding) [name] where
  outer := rfl
  block := by
    intro other _ new
    rw [block_declare, if_neg (fun same => new (List.mem_singleton.mpr same))]

theorem Awaits.left {Γ : Env Binding} {announced more : List (String × Option Binding)}
    (awaits : Γ.Awaits (announced ++ more)) : Γ.Awaits announced where
  distinct := by
    have distinct := awaits.distinct
    rw [List.map_append] at distinct
    exact (List.nodup_append.mp distinct).1
  known := fun name binding? present =>
    awaits.known name binding? (List.mem_append_left more present)
  unseen := fun name binding? present =>
    awaits.unseen name binding? (List.mem_append_left more present)

theorem Awaits.right {Γ Γ' : Env Binding} {announced more : List (String × Option Binding)}
    (awaits : Γ.Awaits (announced ++ more))
    (grown : Γ.Extends Γ' (announced.map Prod.fst)) : Γ'.Awaits more where
  distinct := by
    have distinct := awaits.distinct
    rw [List.map_append] at distinct
    exact (List.nodup_append.mp distinct).2.1
  known := by
    intro name binding? present
    rw [grown.outer]
    exact awaits.known name binding? (List.mem_append_right announced present)
  unseen := by
    intro name binding? present
    have present' := List.mem_append_right announced present
    obtain ⟨binding, _, outside⟩ := awaits.known name binding? present'
    have distinct := awaits.distinct
    rw [List.map_append] at distinct
    have new : name ∉ announced.map Prod.fst := fun earlier =>
      (List.nodup_append.mp distinct).2.2 name earlier name
        (List.mem_map.mpr ⟨_, present, rfl⟩) rfl
    rw [grown.block name (by simp [outside]) new]
    exact awaits.unseen name binding? present'

theorem Awaits.of_singleton {Γ : Env Binding} {name : String} {binding? : Option Binding}
    (awaits : Γ.Awaits [(name, binding?)]) :
    ∃ binding, binding? = some binding ∧ Γ.outer name = some binding ∧ Γ.block name = none := by
  have present : (name, binding?) ∈ [(name, binding?)] := List.mem_singleton.mpr rfl
  obtain ⟨binding, known, outside⟩ := awaits.known name binding? present
  exact ⟨binding, known, outside, awaits.unseen name binding? present⟩

end Env

mutual

/-- The names that a root statement declares without announcing them. -/
def Stmt.unannounced : Stmt → List String
  | .parameter param => [param.name]
  | .declare decl =>
      if decl.typeName.isSome || decl.resolvedType?.isSome then [] else [decl.name]
  | .merged body => Stmt.allUnannounced body
  | _ => []

/-- The names that root statements declare without announcing them. -/
def Stmt.allUnannounced : List Stmt → List String
  | [] => []
  | first :: rest => first.unannounced ++ Stmt.allUnannounced rest

end

namespace Env

/-- Outside of the block, exactly what is announced is known of some names. -/
structure Knows (Γ : Env Binding) (announced : List (String × Option Binding))
    (unannounced : List String) : Prop where
  known : ∀ name binding?, (name, binding?) ∈ announced →
    ∃ binding, binding? = some binding ∧ Γ.outer name = some binding
  unknown : ∀ name ∈ unannounced, Γ.outer name = none

theorem Knows.left {Γ : Env Binding} {announced more : List (String × Option Binding)}
    {unannounced others : List String}
    (knows : Γ.Knows (announced ++ more) (unannounced ++ others)) :
    Γ.Knows announced unannounced :=
  ⟨fun name binding? present => knows.known name binding? (List.mem_append_left more present),
    fun name present => knows.unknown name (List.mem_append_left others present)⟩

theorem Knows.right {Γ Γ' : Env Binding} {announced more : List (String × Option Binding)}
    {unannounced others : List String} (knows : Γ.Knows (announced ++ more) (unannounced ++ others))
    (same : Γ'.outer = Γ.outer) : Γ'.Knows more others := by
  constructor
  · intro name binding? present
    rw [same]
    exact knows.known name binding? (List.mem_append_right announced present)
  · intro name present
    rw [same]
    exact knows.unknown name (List.mem_append_right unannounced present)

/-- The block grew by some names, which were free and are different from each other. -/
structure Adds (Γ Γ' : Env Binding) (names : List String) : Prop where
  outer : Γ'.outer = Γ.outer
  distinct : names.Nodup
  free : ∀ name ∈ names, Γ.Free name
  block : ∀ name, (Γ'.block name).isSome ↔ (Γ.block name).isSome ∨ name ∈ names

theorem Adds.refl (Γ : Env Binding) : Γ.Adds Γ [] :=
  ⟨rfl, .nil, nofun, by simp⟩

theorem adds_declare {Γ : Env Binding} {name : String} (free : Γ.Free name) (binding : Binding) :
    Γ.Adds (Γ.declare name binding) [name] where
  outer := rfl
  distinct := List.nodup_singleton name
  free := by
    intro other same
    rw [List.mem_singleton.mp same]
    exact free
  block := by
    intro other
    rw [block_declare, List.mem_singleton]
    by_cases same : other = name <;> simp [same]

theorem Adds.trans {Γ Γ' Γ'' : Env Binding} {names more : List String}
    (first : Γ.Adds Γ' names) (second : Γ'.Adds Γ'' more) : Γ.Adds Γ'' (names ++ more) where
  outer := second.outer.trans first.outer
  distinct := by
    rw [List.nodup_append]
    refine ⟨first.distinct, second.distinct, ?_⟩
    rintro name earlier _ later rfl
    have taken := (first.block name).mpr (.inr earlier)
    rw [(second.free name later).2] at taken
    cases taken
  free := by
    intro name present
    rw [List.mem_append] at present
    cases present with
    | inl earlier => exact first.free name earlier
    | inr later =>
        have free := second.free name later
        refine ⟨free.1, Option.not_isSome_iff_eq_none.mp fun taken => ?_⟩
        have taken' := (first.block name).mpr (.inl taken)
        rw [free.2] at taken'
        cases taken'
  block := by
    intro name
    rw [second.block, first.block, List.mem_append, or_assoc]

theorem Adds.perm {Γ Γ' : Env Binding} {names names' : List String} (adds : Γ.Adds Γ' names)
    (same : names.Perm names') : Γ.Adds Γ' names' where
  outer := adds.outer
  distinct := same.nodup_iff.mp adds.distinct
  free := fun name present => adds.free name (same.mem_iff.mpr present)
  block := fun name => (adds.block name).trans (or_congr_right same.mem_iff)

end Env

mutual

/-- A typed statement adds what it announces, and what it declares besides. -/
theorem Stmt.Typed.adds {rules : Discipline} {ρ : Option Ty} :
    ∀ {s : Stmt} {Γ Γ' : Env Binding} {returned : List Ty}, s.Typed rules ρ Γ Γ' returned →
      Γ.Adds Γ' (s.announced.map Prod.fst ++ s.unannounced)
  | _, _, _, _, .expr _ | _, _, _, _, .comment _ | _, _, _, _, .use _ | _, _, _, _, .returns _ _
  | _, _, _, _, .branch .. | _, _, _, _, .loop .. | _, _, _, _, .switch .. | _, _, _, _, .arm _ =>
      .refl _
  | _, _, _, _, .parameter _ free => Env.adds_declare free _
  | .declare decl, _, _, _, .declare _ free => by
      unfold Stmt.announced Stmt.unannounced
      split
      · exact Env.adds_declare free _
      · exact Env.adds_declare free _
  | _, _, _, _, .prototype _ _ free _ => Env.adds_declare free _
  | _, _, _, _, .function _ _ free _ _ _ => Env.adds_declare free _
  | .merged _, _, _, _, .merged typed => Stmt.TypedAll.adds typed

theorem Stmt.TypedAll.adds {rules : Discipline} {ρ : Option Ty} :
    ∀ {body : List Stmt} {Γ Γ' : Env Binding} {returned : List Ty},
      Stmt.TypedAll rules ρ Γ body Γ' returned →
      Γ.Adds Γ' ((Stmt.allAnnounced body).map Prod.fst ++ Stmt.allUnannounced body)
  | [], _, _, _, .nil => .refl _
  | first :: rest, _, _, _, .cons typed typedRest => by
      apply ((Stmt.Typed.adds typed).trans (Stmt.TypedAll.adds typedRest)).perm
      rw [Stmt.allAnnounced, Stmt.allUnannounced, List.map_append, List.append_assoc,
        List.append_assoc]
      apply List.Perm.append_left
      rw [← List.append_assoc, ← List.append_assoc]
      exact List.perm_append_comm.append_right _

end

theorem Variable.Typed.statedType?_isSome {rules : Discipline} {Γ : Env Binding}
    {decl : Variable} {type : Ty} (typed : decl.Typed rules Γ type)
    (isTyped : (decl.typeName.isSome || decl.resolvedType?.isSome) = true) :
    decl.statedType?.isSome := by
  unfold Variable.statedType?
  cases written : decl.typeName with
  | some typeName => exact typed.known typeName written
  | none => simpa [written] using isTyped

theorem FunctionHeader.binding?_eq_some {header : FunctionHeader} {parameters : List Ty}
    {result : Ty} (known : header.parameterTypes? = some parameters)
    (known' : header.resultType? = some result) :
    header.binding? = some (.function parameters result) := by
  simp [FunctionHeader.binding?, known, known']

mutual

/-- What typed statements announce is known. -/
theorem Stmt.Typed.announced_isSome {rules : Discipline} {ρ : Option Ty} :
    ∀ {s : Stmt} {Γ Γ' : Env Binding} {returned : List Ty}, s.Typed rules ρ Γ Γ' returned →
      ∀ entry ∈ s.announced, entry.2.isSome
  | _, _, _, _, .expr _ | _, _, _, _, .comment _ | _, _, _, _, .use _ | _, _, _, _, .returns _ _
  | _, _, _, _, .branch .. | _, _, _, _, .loop .. | _, _, _, _, .switch .. | _, _, _, _, .arm _
  | _, _, _, _, .parameter .. => nofun
  | .declare decl, _, _, _, .declare typed _ => by
      intro entry present
      rw [Stmt.announced] at present
      split at present
      · next isTyped =>
          rw [List.mem_singleton.mp present, Option.isSome_map]
          exact typed.statedType?_isSome isTyped
      · cases present
  | .function header _, _, _, _, .prototype known known' _ _
  | .function header _, _, _, _, .function known known' _ _ _ _ => by
      intro entry present
      rw [List.mem_singleton.mp present, FunctionHeader.binding?_eq_some known known']
      rfl
  | .merged _, _, _, _, .merged typed => Stmt.TypedAll.announced_isSome typed

theorem Stmt.TypedAll.announced_isSome {rules : Discipline} {ρ : Option Ty} :
    ∀ {body : List Stmt} {Γ Γ' : Env Binding} {returned : List Ty},
      Stmt.TypedAll rules ρ Γ body Γ' returned →
      ∀ entry ∈ Stmt.allAnnounced body, entry.2.isSome
  | [], _, _, _, .nil => nofun
  | first :: rest, _, _, _, .cons typed typedRest => by
      intro entry present
      rw [Stmt.allAnnounced, List.mem_append] at present
      cases present with
      | inl earlier => exact Stmt.Typed.announced_isSome typed entry earlier
      | inr later => exact Stmt.TypedAll.announced_isSome typedRest entry later

end

end SmallLang
