import SmallLang.Proofs.Typing.Names

/-!
# Histories of scopes

Scopes are opened and closed, and names are declared in them, in any order and also where that
fails. Whatever has happened, the names of types mean these types and no other name does, the root
scope has what it had, and a scope that was opened and closed again has left no trace.
-/

set_option autoImplicit false

namespace SmallLang

namespace Scope

variable {scope : Scope} {name : String} {type : Ty}

theorem Proper.lookup_eq_none (proper : scope.Proper) (isType : Ty.isTypeName name = true) :
    scope.lookup name = none := by
  rw [lookup_eq_none_iff]
  intro present
  obtain ⟨entry, inside, rfl⟩ := List.mem_map.mp present
  rw [(proper entry inside).1] at isType
  cases isType

theorem Proper.lookup_ne_builtin (proper : scope.Proper) :
    scope.lookup name ≠ some (.builtin type) := by
  intro found
  obtain ⟨before, after, same, _⟩ := List.lookup_eq_some_iff.mp found
  have present : (name, Symbol.builtin type) ∈ scope := by simp [same]
  exact (proper _ present).2 type rfl

theorem Proper.cons (proper : scope.Proper) {symbol : Symbol} (notType : Ty.isTypeName name = false)
    (new : ∀ type, symbol ≠ .builtin type) : Proper ((name, symbol) :: scope) :=
  List.forall_mem_cons.mpr ⟨⟨notType, new⟩, proper⟩

end Scope

namespace Scopes

variable {scopes : Scopes} {name : String} {symbol : Symbol}

/-- Scopes as they come up: types stand at the bottom of the root scope, and nowhere else. -/
structure Layered (scopes : Scopes) : Prop where
  root : ∃ declared : Scope, declared.Proper ∧ scopes.root = declared ++ .builtins
  inner : ∀ scope ∈ scopes.inner, scope.Proper

namespace Layered

theorem start : Scopes.start.Layered where
  root := ⟨[], List.forall_mem_nil _, rfl⟩
  inner := List.forall_mem_nil _

theorem push (layered : scopes.Layered) : scopes.push.Layered where
  root := layered.root
  inner := List.forall_mem_cons.mpr ⟨List.forall_mem_nil _, layered.inner⟩

theorem pop (layered : scopes.Layered) : scopes.pop.Layered where
  root := layered.root
  inner := fun scope present => layered.inner scope (List.mem_of_mem_tail present)

theorem insert (layered : scopes.Layered) (notType : Ty.isTypeName name = false)
    (new : ∀ type, symbol ≠ .builtin type) : (scopes.insert name symbol).Layered := by
  obtain ⟨root, inside⟩ := scopes
  obtain ⟨⟨declared, proper, rfl⟩, inner⟩ := layered
  cases inside with
  | nil => exact ⟨⟨_, proper.cons notType new, rfl⟩, inner⟩
  | cons scope outer =>
      obtain ⟨innermost, outer⟩ := List.forall_mem_cons.mp inner
      exact ⟨⟨declared, proper, rfl⟩, List.forall_mem_cons.mpr ⟨innermost.cons notType new, outer⟩⟩

/-- So the names of types mean these types, and no other name means one. -/
theorem sane (layered : scopes.Layered) : scopes.Sane := by
  obtain ⟨declared, proper, root⟩ := layered.root
  intro name type
  rw [resolve?, root, List.lookup_append, Scope.lookup_builtins]
  cases known : Ty.ofName? name with
  | some named =>
      have isType : Ty.isTypeName name = true := by rw [Ty.isTypeName, known]; rfl
      have inside : scopes.inner.findSome? (fun scope => scope.lookup name) = none :=
        List.findSome?_eq_none_iff.mpr fun scope present =>
          (layered.inner scope present).lookup_eq_none isType
      simp [inside, proper.lookup_eq_none isType]
  | none =>
      simp only [Option.map_none, Option.or_none, reduceCtorEq, iff_false]
      intro found
      rcases Option.or_eq_some_iff.mp found with inside | ⟨_, outside⟩
      · obtain ⟨scope, present, found⟩ := List.exists_of_findSome?_eq_some inside
        exact (layered.inner scope present).lookup_ne_builtin found
      · exact proper.lookup_ne_builtin outside

end Layered

/-! ### Calls -/

/-- What can be declared: a variable or a function, and no type. -/
inductive Declarable where
  | variable (type : Term) (mutable : Bool)
  | function (parameters : List Ty) (result : Term)
  deriving DecidableEq, Repr

/-- What a name means that is declared so. -/
def Declarable.meaning : Declarable → Symbol
  | .variable type mutable => .variable type mutable
  | .function parameters result => .function parameters result

theorem Declarable.meaning_ne_builtin (declared : Declarable) (type : Ty) :
    declared.meaning ≠ .builtin type := by
  cases declared <;> exact Symbol.noConfusion

/-- A call on scopes. -/
inductive Call where
  | push
  | pop
  | declare (name : String) (declared : Declarable) (position : Position)
  deriving DecidableEq, Repr

/-- What a call makes of scopes. Only a declaration can fail. -/
def Call.outcome (scopes : Scopes) : Call → Except Error Scopes
  | .push => .ok scopes.push
  | .pop => .ok scopes.pop
  | .declare name declared position => scopes.define name declared.meaning position

/-- The scopes after a call. One that fails changes nothing. -/
def perform (scopes : Scopes) (call : Call) : Scopes :=
  match call.outcome scopes with
  | .ok after => after
  | .error _ => scopes

/-- The scopes after calls, one after the other. -/
def performAll (scopes : Scopes) (calls : List Call) : Scopes := calls.foldl perform scopes

theorem performAll_append (scopes : Scopes) (first second : List Call) :
    scopes.performAll (first ++ second) = (scopes.performAll first).performAll second :=
  List.foldl_append

/-- A declaration goes into the innermost scope, or nowhere. -/
theorem perform_declare (scopes : Scopes) (name : String) (declared : Declarable)
    (position : Position) :
    scopes.perform (.declare name declared position) = scopes ∨
      Ty.isTypeName name = false ∧ scopes.innermost.lookup name = none ∧
        scopes.perform (.declare name declared position) = scopes.insert name declared.meaning := by
  cases outcome : (Call.declare name declared position).outcome scopes with
  | error error => exact .inl (by rw [perform, outcome])
  | ok after =>
      obtain ⟨notType, free, rfl⟩ := define_eq_ok_iff.mp outcome
      exact .inr ⟨notType, free, by rw [perform, outcome]⟩

theorem Layered.perform (layered : scopes.Layered) (call : Call) :
    (scopes.perform call).Layered := by
  cases call with
  | push => exact layered.push
  | pop => exact layered.pop
  | declare name declared position =>
      rcases scopes.perform_declare name declared position with same | ⟨notType, _, inserted⟩
      · exact same.symm ▸ layered
      · exact inserted.symm ▸ layered.insert notType declared.meaning_ne_builtin

theorem Layered.performAll (layered : scopes.Layered) (calls : List Call) :
    (scopes.performAll calls).Layered := by
  induction calls generalizing scopes with
  | nil => exact layered
  | cons call rest ih => exact ih (layered.perform call)

/-- What the root scope has, a call leaves there. -/
theorem lookup_root_perform (call : Call) (found : scopes.root.lookup name = some symbol) :
    (scopes.perform call).root.lookup name = some symbol := by
  cases call with
  | push | pop => exact found
  | declare other declared position =>
      rcases scopes.perform_declare other declared position with same | ⟨_, free, inserted⟩
      · rw [same, found]
      · rw [inserted]
        cases isRoot : scopes.isRoot with
        | false => rw [root_insert_of_not_isRoot isRoot, found]
        | true =>
            have apart : name ≠ other := by
              rintro rfl
              rw [innermost_of_isRoot isRoot, ← lookup_root_of_isRoot isRoot, found] at free
              cases free
            rw [lookup_root_insert_of_isRoot isRoot, if_neg apart, found]

theorem lookup_root_performAll (calls : List Call)
    (found : scopes.root.lookup name = some symbol) :
    (scopes.performAll calls).root.lookup name = some symbol := by
  induction calls generalizing scopes with
  | nil => exact found
  | cons call rest ih => exact ih (lookup_root_perform call found)

/-- Calls that close each scope that they open, and no other. -/
inductive Balanced : List Call → Prop where
  | nil : Balanced []
  | declare {name : String} {declared : Declarable} {position : Position} {rest : List Call} :
      Balanced rest → Balanced (.declare name declared position :: rest)
  | block {inside rest : List Call} :
      Balanced inside → Balanced rest → Balanced (.push :: inside ++ .pop :: rest)

/-- Balanced calls change nothing but the innermost scope. -/
theorem Balanced.performAll {calls : List Call} (balanced : Balanced calls) (root scope : Scope)
    (outer : List Scope) :
    ∃ scope' : Scope, Scopes.performAll ⟨root, scope :: outer⟩ calls = ⟨root, scope' :: outer⟩ := by
  induction balanced generalizing scope outer with
  | nil => exact ⟨scope, rfl⟩
  | @declare name declared position rest _ ih =>
      change ∃ _, Scopes.performAll (Scopes.perform _ (.declare name declared position)) rest = _
      rcases perform_declare ⟨root, scope :: outer⟩ name declared position with
        same | ⟨_, _, inserted⟩
      · rw [same]
        exact ih scope outer
      · rw [inserted]
        exact ih _ outer
  | @block inside rest _ _ inner later =>
      obtain ⟨inner', opened⟩ := inner [] (scope :: outer)
      have closed : Scopes.performAll ⟨root, scope :: outer⟩ (.push :: inside) =
          ⟨root, inner' :: scope :: outer⟩ := opened
      rw [performAll_append, closed]
      exact later scope outer

/-- Balanced calls between an opening and its closing leave no trace. -/
theorem Balanced.performAll_enclosed {inside : List Call} (balanced : Balanced inside)
    (scopes : Scopes) : scopes.performAll (.push :: inside ++ [.pop]) = scopes := by
  obtain ⟨inner, opened⟩ := balanced.performAll scopes.root [] scopes.inner
  have opened : scopes.performAll (.push :: inside) = ⟨scopes.root, inner :: scopes.inner⟩ := opened
  rw [performAll_append, opened]
  rfl

/-! ### Laws -/

/-- What can be relied on in scopes, whatever is done to them next. -/
structure Lawful (scopes : Scopes) : Prop where
  /-- The root scope is not closed, and keeps what it has. -/
  root : (scopes.isRoot = true → scopes.perform .pop = scopes) ∧
    ∀ calls name symbol, scopes.root.lookup name = some symbol →
      (scopes.performAll calls).root.lookup name = some symbol
  /-- The name of each type means this type. -/
  types : ∀ type : Ty, scopes.resolve? type.name = some (.builtin type)
  /-- A program names a type exactly if it uses the name of one, and the same as at the start. -/
  named : ∀ typeName : TypeName, scopes.typeOf typeName = start.typeOf typeName ∧
    ((∃ type, scopes.typeOf typeName = .ok type) ↔ Ty.isTypeName typeName.name = true)
  /-- A declaration fails exactly if its name is that of a type, or is declared in the innermost
  scope. Then it changes nothing. -/
  declared : ∀ name (declared : Declarable) position,
    ((∃ error, (Call.declare name declared position).outcome scopes = .error error) ↔
      Ty.isTypeName name = true ∨ scopes.definesHere name = true) ∧
    ∀ error, (Call.declare name declared position).outcome scopes = .error error →
      scopes.perform (.declare name declared position) = scopes
  /-- A scope that is opened and closed again leaves all as it was, so also what names mean. -/
  enclosed : ∀ inside, Balanced inside → scopes.performAll (.push :: inside ++ [.pop]) = scopes

theorem exists_define_eq_error_iff (scopes : Scopes) (name : String) (symbol : Symbol)
    (position : Position) : (∃ error, scopes.define name symbol position = .error error) ↔
      Ty.isTypeName name = true ∨ scopes.definesHere name = true := by
  unfold definesHere
  simp only [define_eq_error_iff]
  constructor
  · rintro ⟨_, ⟨isType, _⟩ | ⟨_, found, _⟩⟩
    · exact .inl isType
    · exact .inr found
  · intro taken
    cases isType : Ty.isTypeName name with
    | true => exact ⟨_, .inl ⟨rfl, rfl⟩⟩
    | false =>
        rw [isType] at taken
        exact ⟨_, .inr ⟨rfl, taken.resolve_left Bool.false_ne_true, rfl⟩⟩

/-- Whatever was done to scopes, in any order and with any success, the laws hold. -/
theorem lawful (history : List Call) : (start.performAll history).Lawful := by
  have sane := (Layered.start.performAll history).sane
  generalize start.performAll history = scopes at sane
  refine ⟨⟨?_, fun calls _ _ found => lookup_root_performAll calls found⟩, ?_, ?_, ?_, ?_⟩
  · intro isRoot
    have closed : scopes.inner = [] := List.isEmpty_iff.mp isRoot
    change Scopes.mk scopes.root scopes.inner.tail = scopes
    rw [closed, List.tail_nil, ← closed]
  · intro type
    exact (sane type.name type).mpr (Ty.ofName?_name type)
  · intro typeName
    refine ⟨sane.typeOf_eq sane_start typeName, ?_⟩
    simp only [sane.typeOf_eq_ok_iff]
    exact Option.isSome_iff_exists.symm
  · intro name declared position
    refine ⟨scopes.exists_define_eq_error_iff name declared.meaning position, ?_⟩
    intro error fails
    rw [perform, fails]
  · exact fun inside balanced => balanced.performAll_enclosed scopes

/-- A name of the root is hidden in a block, where one name is declared twice and a type is declared
too, and means what it meant when the block has ended. -/
theorem lawful_hidden_name :
    let number : Declarable := .variable (.concrete .int) true
    let text : Declarable := .variable (.concrete .string) false
    let inside : List Call :=
      [.declare "x" text .null, .declare "x" number .null, .push, .declare "int" number .null, .pop]
    let scopes := start.performAll [.pop, .declare "x" number .null]
    Balanced inside ∧ (scopes.performAll (.push :: inside)).resolve? "x" = some text.meaning ∧
      (scopes.performAll (.push :: inside ++ [.pop])).resolve? "x" = some number.meaning ∧
      (scopes.performAll (.push :: inside)).typeOf ⟨"int", .null⟩ = .ok .int := by
  intro number text inside scopes
  have balanced : Balanced inside := .declare (.declare (.block (.declare .nil) .nil))
  refine ⟨balanced, by decide, ?_, ?_⟩
  · rw [(lawful [.pop, .declare "x" number .null]).enclosed inside balanced]
    decide
  · have inner := lawful ([.pop, .declare "x" number .null] ++ .push :: inside)
    rw [performAll_append] at inner
    exact (inner.named ⟨"int", .null⟩).1.trans (by decide)

end Scopes

end SmallLang
