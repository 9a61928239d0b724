import SmallLang.Analysis

/-!
# How uses are replaced

Resolution as a relation: each use at the top is dropped if its file is done, and else gives way
to the module of the file, whose own uses were replaced before. What succeeds is so related,
however deep files are nested in one another.
-/

set_option autoImplicit false

namespace SmallLang

section Steps

variable {α β : Type}

theorem Resolve.bind_eq_ok_iff {first : Resolve α} {second : α → Resolve β}
    {resolver resolver' : Resolver} {found : β} :
    (first >>= second) resolver = .ok found resolver' ↔
      ∃ value between, first resolver = .ok value between ∧
        second value between = .ok found resolver' := by
  change EStateM.bind first second resolver = _ ↔ _
  unfold EStateM.bind
  cases first resolver with
  | ok value between =>
      constructor
      · intro ends
        exact ⟨value, between, rfl, ends⟩
      · intro ends
        obtain ⟨_, _, same, ends⟩ := ends
        cases same
        exact ends
  | error error between =>
      constructor
      · intro ends
        cases ends
      · intro ends
        obtain ⟨_, _, same, _⟩ := ends
        cases same

theorem Resolve.pure_eq_ok_iff {resolver resolver' : Resolver} {value found : α} :
    (pure value : Resolve α) resolver = .ok found resolver' ↔
      found = value ∧ resolver' = resolver := by
  change EStateM.Result.ok value resolver = _ ↔ _
  constructor
  · intro ends
    cases ends
    exact ⟨rfl, rfl⟩
  · intro same
    rw [same.1, same.2]

end Steps

/-- What was read was scanned and parsed. -/
theorem Program.exists_tokens_of_read {source file : String} {program : Program}
    (reads : Program.read source file = .ok program) :
    ∃ tokens, Token.scan source file = .ok tokens ∧ Program.parse tokens = .ok program := by
  unfold Program.read at reads
  cases scanned : Token.scan source file with
  | error error =>
      rw [scanned] at reads
      cases reads
  | ok tokens =>
      rw [scanned] at reads
      exact ⟨tokens, rfl, reads⟩

theorem Program.read_of_toOption {source file : String} {program : Program}
    (same : (Program.read source file).toOption = some program) :
    Program.read source file = .ok program := by
  cases found : Program.read source file with
  | ok other =>
      rw [found] at same
      exact congrArg Except.ok (Option.some.inj same)
  | error error =>
      rw [found] at same
      cases same

theorem Workspace.resolve_of_run {workspace : Workspace} {entry merged : Program}
    {first last : Resolver}
    (same : (match workspace.resolve entry first with
      | .ok found last => some (found, last)
      | .error _ _ => none) = some (merged, last)) :
    workspace.resolve entry first = .ok merged last := by
  split at same
  · next ends =>
      cases same
      exact ends
  · cases same

namespace Workspace

variable (workspace : Workspace)

/-- How the uses among the statements of a file are replaced, with the names that the file gives
to modules, and the resolver before and after. -/
inductive Replaces : Resolver → List Stmt → Program → Aliases → Resolver → Prop where
  | nil {resolver : Resolver} : Replaces resolver [] [] [] resolver
  | dropped {resolver resolver' : Resolver} {used : Use} {rest : List Stmt} {body : Program}
      {aliases : Aliases} :
      resolver.isResolved (workspace.modulePath used.path) = true →
      Replaces resolver rest body aliases resolver' →
      Replaces resolver (.use used :: rest) body
        (aliases ++ [(used.namespaceName, workspace.target resolver used)]) resolver'
  | merged {resolver between resolver' : Resolver} {used : Use} {rest : List Stmt}
      {source : String} {module inner body : Program} {names aliases : Aliases} :
      resolver.isResolved (workspace.modulePath used.path) = false →
      workspace.files.read? (workspace.modulePath used.path) = some source →
      Program.read source (workspace.modulePath used.path).text = .ok module →
      Replaces (resolver.merge (workspace.modulePath used.path) used.namespaceName) module inner
        names between →
      Replaces between rest body aliases resolver' →
      Replaces resolver (.use used :: rest)
        (.merged (Program.qualified (Stmt.accessAll names inner) used.namespaceName) :: body)
        (aliases ++ [(used.namespaceName, used.namespaceName)]) resolver'
  | kept {resolver resolver' : Resolver} {stmt : Stmt} {rest : List Stmt} {body : Program}
      {aliases : Aliases} :
      (∀ used, stmt ≠ .use used) → Replaces resolver rest body aliases resolver' →
      Replaces resolver (stmt :: rest) (stmt :: body) aliases resolver'

/-- A way to load the module of a use does what the relation says. -/
def Loads (load : Use → Resolve (Option Program)) : Prop :=
  ∀ used resolver found resolver', load used resolver = .ok found resolver' →
    (resolver.isResolved (workspace.modulePath used.path) = true ∧ found = none ∧
      resolver' = resolver) ∨
    resolver.isResolved (workspace.modulePath used.path) = false ∧
      ∃ source module inner names,
        workspace.files.read? (workspace.modulePath used.path) = some source ∧
        Program.read source (workspace.modulePath used.path).text = .ok module ∧
        workspace.Replaces (resolver.merge (workspace.modulePath used.path) used.namespaceName)
          module inner names resolver' ∧
        found = some (Program.qualified (Stmt.accessAll names inner) used.namespaceName)

variable {workspace} {load : Use → Resolve (Option Program)}

theorem target_of_not_isResolved {resolver : Resolver} {used : Use}
    (new : resolver.isResolved (workspace.modulePath used.path) = false) :
    workspace.target resolver used = used.namespaceName := by
  rw [Resolver.isResolved, Option.isSome_eq_false_iff, Option.isNone_iff_eq_none] at new
  rw [target, Resolver.namespace?, new]
  rfl

theorem Loads.replaces (loads : workspace.Loads load) :
    ∀ (program : List Stmt) {resolver resolver' : Resolver} {body : Program} {aliases : Aliases},
      workspace.replaceUses load program resolver = .ok (body, aliases) resolver' →
        workspace.Replaces resolver program body aliases resolver'
  | [], _, _, _, _, ends => by
      obtain ⟨same, rfl⟩ := Resolve.pure_eq_ok_iff.mp ends
      cases same
      exact .nil
  | stmt :: rest, resolver, resolver', body, aliases, ends => by
      cases stmt with
      | use used =>
          unfold replaceUses at ends
          obtain ⟨_, _, same, ends⟩ := Resolve.bind_eq_ok_iff.mp ends
          cases same
          obtain ⟨found, between, loaded, ends⟩ := Resolve.bind_eq_ok_iff.mp ends
          obtain ⟨⟨later, names⟩, _, replaced, ends⟩ := Resolve.bind_eq_ok_iff.mp ends
          obtain ⟨same, rfl⟩ := Resolve.pure_eq_ok_iff.mp ends
          cases same
          have rest' := Loads.replaces loads rest replaced
          rcases loads used resolver found between loaded with
            ⟨done, rfl, rfl⟩ | ⟨new, source, module, inner, names, reads, parsed, inside, rfl⟩
          · exact .dropped done rest'
          · rw [target_of_not_isResolved new]
            exact .merged new reads parsed inside rest'
      | _ =>
          unfold replaceUses at ends
          obtain ⟨⟨later, names⟩, _, replaced, ends⟩ := Resolve.bind_eq_ok_iff.mp ends
          obtain ⟨same, rfl⟩ := Resolve.pure_eq_ok_iff.mp ends
          cases same
          exact .kept (fun _ same => Stmt.noConfusion same) (Loads.replaces loads rest replaced)

theorem Loads.resolveBy (loads : workspace.Loads load) {program resolved : Program}
    {resolver resolver' : Resolver}
    (ends : workspace.resolveBy load program resolver = .ok resolved resolver') :
    ∃ body aliases, workspace.Replaces resolver program body aliases resolver' ∧
      resolved = Stmt.accessAll aliases body := by
  obtain ⟨⟨body, aliases⟩, _, replaced, ends⟩ := Resolve.bind_eq_ok_iff.mp ends
  obtain ⟨rfl, rfl⟩ := Resolve.pure_eq_ok_iff.mp ends
  exact ⟨body, aliases, loads.replaces program replaced, rfl⟩

theorem loads_loadBy {read : Use → Path → Resolve Program}
    (reads : ∀ used resolver module resolver',
      read used (workspace.modulePath used.path) resolver = .ok module resolver' →
      ∃ source program inner names,
        workspace.files.read? (workspace.modulePath used.path) = some source ∧
        Program.read source (workspace.modulePath used.path).text = .ok program ∧
        workspace.Replaces resolver program inner names resolver' ∧
        module = Stmt.accessAll names inner) :
    workspace.Loads fun used => workspace.loadBy (read used) used := by
  intro used resolver found resolver' ends
  obtain ⟨_, _, same, ends'⟩ := Resolve.bind_eq_ok_iff.mp ends
  cases same
  cases done : resolver.isResolved (workspace.modulePath used.path) with
  | true =>
      rw [if_pos done] at ends'
      obtain ⟨rfl, rfl⟩ := Resolve.pure_eq_ok_iff.mp ends'
      exact .inl ⟨rfl, rfl, rfl⟩
  | false =>
      rw [if_neg (by rw [done]; exact Bool.noConfusion)] at ends'
      obtain ⟨_, _, same, ends'⟩ := Resolve.bind_eq_ok_iff.mp ends'
      cases same
      obtain ⟨module, _, loaded, ends'⟩ := Resolve.bind_eq_ok_iff.mp ends'
      obtain ⟨rfl, rfl⟩ := Resolve.pure_eq_ok_iff.mp ends'
      obtain ⟨source, program, inner, names, found, parsed, inside, rfl⟩ :=
        reads used _ module _ loaded
      exact .inr ⟨rfl, source, program, inner, names, found, parsed, inside, rfl⟩

/-- However deep files may be nested, reading them does what the relation says. -/
theorem loads_readWithin (depth : Nat) :
    workspace.Loads fun used => workspace.loadBy (workspace.readWithin depth used) used := by
  induction depth with
  | zero =>
      apply loads_loadBy
      intro used resolver module resolver' ends
      cases ends
  | succ depth ih =>
      apply loads_loadBy
      intro used resolver module resolver' ends
      rw [readWithin] at ends
      cases found : workspace.files.read? (workspace.modulePath used.path) with
      | none =>
          rw [found] at ends
          cases ends
      | some source =>
          rw [found] at ends
          cases parsed : Program.read source (workspace.modulePath used.path).text with
          | error error =>
              simp only [parsed] at ends
              cases ends
          | ok program =>
              simp only [parsed] at ends
              obtain ⟨inner, names, inside, same⟩ := ih.resolveBy ends
              exact ⟨source, program, inner, names, rfl, parsed, inside, same⟩

/-- What resolution does is what the relation says. -/
theorem replaces_of_resolve {program resolved : Program} {resolver resolver' : Resolver}
    (ends : workspace.resolve program resolver = .ok resolved resolver') :
    ∃ body aliases, workspace.Replaces resolver program body aliases resolver' ∧
      resolved = Stmt.accessAll aliases body :=
  (loads_readWithin workspace.files.length).resolveBy ends

end Workspace

namespace Analysis

variable {workspace : Workspace} {resolver later : Resolver} {source file : String}
  {program merged : Program} {error : Error} {order : ForwardOrder}

theorem ofModules_of_resolve (reads : Program.read source file = .ok program)
    (resolves : workspace.resolve program resolver = .ok merged later) :
    ofModules order workspace resolver source file = ofProgram order merged := by
  unfold ofModules
  rw [reads]
  simp only [bind, Except.bind, resolves]

theorem ofModules_eq_error_of_resolve (reads : Program.read source file = .ok program)
    (fails : workspace.resolve program resolver = .error error later) :
    ofModules order workspace resolver source file = .error error := by
  unfold ofModules
  rw [reads]
  simp only [bind, Except.bind, fails]

end Analysis

end SmallLang
