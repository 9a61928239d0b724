import SmallLang.Proofs.Import.Walks
import SmallLang.Proofs.Inference.Program
import SmallLang.Proofs.Module.Apart
import SmallLang.Proofs.Parse.Loaded

/-!
# Inference of a merged module

Inference finds the same types in a module that is merged as in the module alone.
-/

set_option autoImplicit false

namespace SmallLang

open Infer Walk

variable {qualifier : Qualifier}

/-! ### The top of a module -/

/-- What declares nothing is qualified as further in. -/
theorem Stmt.qualifyTop_of_undeclared {s : Stmt} (undeclared : s.declared? = none) :
    s.qualifyTop qualifier = s.qualify qualifier [] := by
  cases s with
  | declare | function => cases undeclared
  | _ => rfl

section Top

variable {engine engine' : Engine}

/-- At the top a declaration is made under its new name. -/
theorem Scopes.named_of_mem {scopes : Scopes} {name : String} (root : scopes.isRoot = true)
    (exported : name ∈ qualifier.exported) :
    scopes.named qualifier name = qualifier.declaration name := by
  rw [named_of_isRoot root, Qualifier.use_of_mem exported]

/-- A statement at the top of a module is walked as it was. -/
theorem Stmt.follows_walk_top (proper : qualifier.Proper) {s part : Stmt} (parsed : s.Parsed)
    (undotted : ∀ appearance ∈ s.topAppearances, SmallLang.Undotted appearance.name)
    (exported : ∀ name ∈ s.declared?, name ∈ qualifier.exported) (plain : engine.Plain)
    (hosts : engine.scopes.Hosts []) (root : engine.scopes.isRoot = true)
    (ends : s.walk.Ends engine part engine') :
    (s.qualifyTop qualifier).walk.Ends (engine.qualify qualifier) (part.qualifyTop qualifier)
      (engine'.qualify qualifier) ∧ engine'.Plain := by
  by_cases undeclared : s.declared? = none
  · have further : ∀ appearance ∈ s.appearances [], SmallLang.Undotted appearance.name := by
      cases s with
      | declare | function => cases undeclared
      | _ => exact undotted
    obtain ⟨follows, plain⟩ := Stmt.follows_walk proper s parsed further plain hosts
      (by simp [undeclared]) ends
    have undeclared' : part.declared? = none :=
      (Stmt.passes_walk s ends hosts.sane).alike.declared?_eq.trans undeclared
    rw [Stmt.qualifyTop_of_undeclared undeclared, Stmt.qualifyTop_of_undeclared undeclared']
    exact ⟨follows, plain⟩
  cases s with
  | declare decl =>
      obtain ⟨undotted, values⟩ := List.forall_mem_cons.mp undotted
      obtain ⟨decl', inner, rfl⟩ := Stmt.ends_declare.mp ends
      obtain ⟨follows, plain⟩ := Variable.follows_walk proper plain hosts undotted
        (Appearance.undotted_ofMentions values) inner
      obtain ⟨_, _, _, _, _, rfl⟩ := Variable.ends_walk.mp inner
      simp only [Scopes.named_of_mem root (exported decl.name rfl)] at follows
      exact ⟨Stmt.ends_declare.mpr ⟨_, follows, rfl⟩, plain⟩
  | function header body =>
      have named := Scopes.named_of_mem root (exported header.name rfl)
      cases body with
      | none =>
          obtain ⟨note, rfl, follows, plain⟩ := Stmt.follows_prototype proper plain hosts
            (undotted _ List.mem_cons_self) ends
          rw [named] at follows
          exact ⟨follows, plain⟩
      | some body =>
          obtain ⟨undotted, further⟩ := List.forall_mem_cons.mp undotted
          obtain ⟨params, bodies⟩ := List.forall_mem_append.mp further
          have opened : header.parameters.map (·.name) =
              header.parameters.map (·.name) ++ engine.scopes.within [header.name] [] := by
            rw [Scopes.within_of_isRoot root, List.append_nil]
          obtain ⟨note, part, rfl, follows, plain⟩ := Stmt.follows_function proper plain hosts
            undotted (fun param present => params _ (List.mem_map_of_mem present)) opened
            (Stmt.follows_walkAll proper body parsed.2.2 bodies) ends
          rw [named] at follows
          exact ⟨follows, plain⟩
  | _ => exact absurd rfl undeclared

/-- The statements of a module are walked as they were. -/
theorem Stmt.follows_walkAll_top (proper : qualifier.Proper) : ∀ (body : List Stmt)
    {engine engine' : Engine} {part : List Stmt}, Stmt.AllParsed body →
      (∀ appearance ∈ Program.appearances body, SmallLang.Undotted appearance.name) →
      (∀ s ∈ body, ∀ name ∈ s.declared?, name ∈ qualifier.exported) → engine.Plain →
      engine.scopes.Hosts [] → engine.scopes.isRoot = true →
      (Stmt.walkAll body).Ends engine part engine' →
      (Stmt.walkAll (body.map (·.qualifyTop qualifier))).Ends (engine.qualify qualifier)
        (part.map (·.qualifyTop qualifier)) (engine'.qualify qualifier)
  | [], _, _, _, _, _, _, _, _, _, ends => by
      obtain ⟨rfl, rfl⟩ := Stmt.ends_nil.mp ends
      exact Stmt.ends_nil.mpr ⟨rfl, rfl⟩
  | first :: rest, engine, _, _, ⟨parsed, parsed'⟩, undotted, exported, plain, hosts, root,
      whole => by
      rw [Program.appearances, List.flatMap_cons, List.forall_mem_append] at undotted
      obtain ⟨exported, exported'⟩ := List.forall_mem_cons.mp exported
      obtain ⟨first', between, rest', ends, ends', rfl⟩ := Stmt.ends_cons.mp whole
      obtain ⟨_, _, grows⟩ := (Stmt.passes_walk first ends hosts.sane).grows
      obtain ⟨follows, plain⟩ :=
        Stmt.follows_walk_top proper parsed undotted.1 exported plain hosts root ends
      have declared := Stmt.hosts_of_walk parsed
        (fun name declared => proper.undotted name (exported name declared)) hosts ends
      rw [Scopes.within_of_isRoot root] at declared
      have follows' := Stmt.follows_walkAll_top proper rest parsed' undotted.2 exported' plain
        declared (grows.isRoot.trans root) ends'
      exact Stmt.ends_cons.mpr ⟨_, _, _, follows, follows', rfl⟩

/-- What is declared is no type. -/
theorem Stmt.notType_of_walk {s part : Stmt} (ends : s.walk.Ends engine part engine') :
    ∀ name ∈ s.declared?, Ty.isTypeName name = false := by
  intro name declared
  cases s with
  | declare decl =>
      cases declared
      obtain ⟨_, ends, _⟩ := Stmt.ends_declare.mp ends
      obtain ⟨_, _, _, _, declares, _⟩ := Variable.ends_walk.mp ends
      obtain ⟨_, _, notType, _⟩ := yields_declare.mp declares
      exact notType
  | function header body =>
      cases declared
      cases body with
      | none =>
          obtain ⟨_, _, yields, _⟩ := Stmt.ends_prototype.mp ends
          obtain ⟨_, _, _, _, _, notType, _⟩ := yields_function.mp yields
          exact notType
      | some body =>
          obtain ⟨_, _, _, _, _, _, _, yields, _⟩ := Stmt.ends_function.mp ends
          obtain ⟨_, _, _, _, _, notType, _⟩ := yields_function.mp yields
          exact notType
  | _ => cases declared

theorem Stmt.notType_of_walkAll : ∀ {body part : List Stmt} {engine engine' : Engine},
    (Stmt.walkAll body).Ends engine part engine' →
    ∀ s ∈ body, ∀ name ∈ s.declared?, Ty.isTypeName name = false
  | [], _, _, _, _ => List.forall_mem_nil _
  | _ :: _, _, _, _, whole => by
      obtain ⟨_, _, _, ends, ends', _⟩ := Stmt.ends_cons.mp whole
      exact List.forall_mem_cons.mpr ⟨Stmt.notType_of_walk ends, Stmt.notType_of_walkAll ends'⟩

end Top

/-! ### Notes -/

section Notes

variable {related : Option Term → Option Term → Prop}

mutual

/-- New names change nothing in the notes. -/
theorem Stmt.Alike.qualify : ∀ {s s' : Stmt} (hidden : List String), s.Alike related s' →
    (s.qualify qualifier hidden).Alike related (s'.qualify qualifier hidden)
  | _, _, _, .expr _ => .expr _
  | _, _, _, .comment _ => .comment _
  | _, _, _, .use _ => .use _
  | _, _, _, .parameter _ => .parameter _
  | _, _, _, .returns _ => .returns _
  | _, _, hidden, @Stmt.Alike.declare _ decl _ noted =>
      @Stmt.Alike.declare related
        { decl with value := decl.value.map (·.qualify qualifier hidden) } _ noted
  | _, _, _, .prototype noted => .prototype noted
  | _, _, _, .function noted body => .function noted (Stmt.AllAlike.qualify _ body)
  | _, _, hidden, .branch body alternate =>
      .branch (Stmt.AllAlike.qualify hidden body) (Alternate.Alike.qualify hidden alternate)
  | _, _, hidden, .loop body => .loop (Stmt.AllAlike.qualify hidden body)
  | _, _, hidden, .switch arms => .switch (Arm.AllAlike.qualify hidden arms)
  | _, _, hidden, .arm single => .arm (Arm.Alike.qualify hidden single)
  | _, _, _, .merged body => .merged body

theorem Alternate.Alike.qualify : ∀ {alternate alternate' : Alternate} (hidden : List String),
    alternate.Alike related alternate' →
    (alternate.qualify qualifier hidden).Alike related (alternate'.qualify qualifier hidden)
  | _, _, _, .none => .none
  | _, _, hidden, .elseBranch body alternate =>
      .elseBranch (Stmt.AllAlike.qualify hidden body) (Alternate.Alike.qualify hidden alternate)
  | _, _, hidden, .otherwise body => .otherwise (Stmt.AllAlike.qualify hidden body)

theorem Arm.Alike.qualify : ∀ {arm arm' : Arm} (hidden : List String), arm.Alike related arm' →
    (arm.qualify qualifier hidden).Alike related (arm'.qualify qualifier hidden)
  | _, _, hidden, .value body => .value (Stmt.AllAlike.qualify hidden body)
  | _, _, hidden, .otherwise body => .otherwise (Stmt.AllAlike.qualify hidden body)

theorem Stmt.AllAlike.qualify : ∀ {body body' : List Stmt} (hidden : List String),
    Stmt.AllAlike related body body' →
    Stmt.AllAlike related (Stmt.qualifyAll qualifier hidden body)
      (Stmt.qualifyAll qualifier hidden body')
  | _, _, _, .nil => .nil
  | _, _, hidden, .cons first rest => by
      rw [Stmt.qualifyAll, Stmt.qualifyAll, first.declared?_eq]
      exact .cons (Stmt.Alike.qualify hidden first) (Stmt.AllAlike.qualify _ rest)

theorem Arm.AllAlike.qualify : ∀ {arms arms' : List Arm} (hidden : List String),
    Arm.AllAlike related arms arms' →
    Arm.AllAlike related (Arm.qualifyAll qualifier hidden arms)
      (Arm.qualifyAll qualifier hidden arms')
  | _, _, _, .nil => .nil
  | _, _, hidden, .cons first rest =>
      .cons (Arm.Alike.qualify hidden first) (Arm.AllAlike.qualify hidden rest)

end

theorem Stmt.Alike.qualifyTop {s s' : Stmt} (alike : s.Alike related s') :
    (s.qualifyTop qualifier).Alike related (s'.qualifyTop qualifier) := by
  by_cases undeclared : s.declared? = none
  · rw [Stmt.qualifyTop_of_undeclared undeclared,
      Stmt.qualifyTop_of_undeclared (alike.declared?_eq.trans undeclared)]
    exact alike.qualify []
  cases alike with
  | @declare decl _ noted =>
      exact @Stmt.Alike.declare related { decl with
        name := qualifier.declaration decl.name
        value := decl.value.map (·.qualify qualifier []) } _ noted
  | @prototype header _ noted =>
      exact @Stmt.Alike.prototype related
        { header with name := qualifier.declaration header.name } _ noted
  | @function header _ _ _ noted body =>
      exact @Stmt.Alike.function related
        { header with name := qualifier.declaration header.name } _ _ _ noted (body.qualify _)
  | _ => exact absurd rfl undeclared

theorem Stmt.AllAlike.qualifyTop {body body' : List Stmt}
    (alike : Stmt.AllAlike related body body') :
    Stmt.AllAlike related (body.map (·.qualifyTop qualifier))
      (body'.map (·.qualifyTop qualifier)) := by
  induction body generalizing body' with
  | nil =>
      cases alike
      exact .nil
  | cons _ _ ih =>
      cases alike with
      | cons first rest => exact .cons first.qualifyTop (ih rest)

theorem Stmt.AllAlike.declared_eq {body body' : List Stmt}
    (alike : Stmt.AllAlike related body body') :
    body'.filterMap Stmt.declared? = body.filterMap Stmt.declared? := by
  induction body generalizing body' with
  | nil =>
      cases alike
      rfl
  | cons _ _ ih =>
      cases alike with
      | cons first rest =>
          rw [List.filterMap_cons, List.filterMap_cons, first.declared?_eq, ih rest]

end Notes

/-- Nothing is noted at the top of a module that was only parsed. -/
theorem Engine.noteSettled_qualifyTop (scopes : Scopes) (known : Scope) {s : Stmt}
    (parsed : s.Parsed) : noteSettled scopes known (s.qualifyTop qualifier) = known := by
  cases s with
  | declare decl =>
      have bare : decl.resolved = none := parsed
      simp [Stmt.qualifyTop, noteSettled, settledVariable?, Variable.resolvedType?, bare, note]
  | function header body =>
      have bare : header.resolved = none := by
        cases body with
        | none => exact parsed.1
        | some body => exact parsed.1
      simp [Stmt.qualifyTop, noteSettled, settledFunction?, FunctionHeader.resolvedType?, bare,
        note]
  | _ => first | rfl | cases parsed

theorem Engine.noteAllSettled_qualifyTop (scopes : Scopes) (known : Scope) {body : List Stmt}
    (parsed : Stmt.AllParsed body) :
    noteAllSettled scopes known (body.map (·.qualifyTop qualifier)) = known := by
  induction body with
  | nil => rfl
  | cons first rest ih =>
      rw [List.map_cons, noteAllSettled, noteSettled_qualifyTop scopes known parsed.1, ih parsed.2]

namespace Program

variable {program typed : Program} {order : ForwardOrder}

/-- Types do not count among the names that a module declares. -/
theorem proper_of_infer {source file : String} (reads : Program.read source file = .ok program)
    (inferred : program.infer order = .ok typed) (space : String) :
    (Qualifier.ofModule space program).Proper := by
  obtain ⟨part, last, ends, _, _⟩ := infer_eq_ok_iff.mp inferred
  have undotted := undotted_of_read reads
  have notType := Stmt.notType_of_walkAll ends
  constructor <;> intro name exported <;>
    obtain ⟨s, present, declared⟩ := List.mem_filterMap.mp exported
  · exact (undotted s present).declared name declared
  · exact notType s present name declared

/-- Inference changes nothing in what a module declares. -/
theorem ofModule_of_infer (inferred : program.infer order = .ok typed) (space : String) :
    Qualifier.ofModule space typed = .ofModule space program := by
  obtain ⟨part, last, ends, _, settled⟩ := infer_eq_ok_iff.mp inferred
  have noted := (Stmt.passes_walkAll program ends Scopes.sane_start).alike
  unfold Qualifier.ofModule
  rw [settled.declared_eq, noted.declared_eq]

/-- The types in a module that is merged are those in the module alone. -/
theorem infer_qualified {source file : String} (reads : Program.read source file = .ok program)
    (inferred : program.infer order = .ok typed) (space : String) (order' : ForwardOrder) :
    Program.infer [.merged (program.qualified space)] order' =
      .ok [.merged (typed.qualified space)] := by
  obtain ⟨part, last, ends, settled, alike⟩ := infer_eq_ok_iff.mp inferred
  have parsed := Workspace.allParsed_of_read reads
  have proper := proper_of_infer reads inferred space
  rw [Engine.learn_of_loaded _ parsed.allLoaded] at ends
  have follows := Stmt.follows_walkAll_top proper program parsed (undotted_of_infer reads inferred)
    (fun s present name declared => List.mem_filterMap.mpr ⟨s, present, declared⟩)
    Engine.plain_start Scopes.Hosts.start rfl ends
  rw [Engine.qualify_start proper] at follows
  have learned : Engine.start.learn [.merged (program.qualified space)] = .start := by
    unfold Engine.learn
    rw [Engine.noteAllSettled, Engine.noteSettled, qualified,
      Engine.noteAllSettled_qualifyTop _ _ parsed]
    rfl
  refine infer_eq_ok_iff.mpr ⟨[.merged (part.map (·.qualifyTop (.ofModule space program)))],
    last.qualify (.ofModule space program), ?_, ?_, ?_⟩
  · rw [learned]
    exact Stmt.ends_cons.mpr ⟨_, _, [], Stmt.ends_merged.mpr ⟨_, follows, rfl⟩,
      Stmt.ends_nil.mpr ⟨rfl, rfl⟩, rfl⟩
  · change last.forward.map _ = []
    rw [settled]
    rfl
  · rw [qualified, ofModule_of_infer inferred]
    exact .cons (.merged alike.qualifyTop) .nil

end Program

end SmallLang
