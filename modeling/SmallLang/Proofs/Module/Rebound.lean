import SmallLang.Module.Access
import SmallLang.Module.Qualifier
import SmallLang.Proofs.Parse.Shape

/-!
# Names in merged files

How the names in a file change when it is merged. An access to a module that the file uses becomes
a name of that module. What the file declares at its top gets a new name, and so does every use
of it, unless a parameter or a declaration further in hides it. Everything else stays. Replacing
accesses and then qualifying names does just that.
-/

set_option autoImplicit false

namespace SmallLang

/-- The namespaces that the names of modules stand for in a file, and the new names of what the
file declares at its top. -/
structure Naming where
  space? : String → Option String
  own? : String → Option String

namespace Naming

/-- The new name of a declaration at the top. -/
def declaration (naming : Naming) (name : String) : String := (naming.own? name).getD name

/-- Declarations keep their names. -/
def ofAliases (aliases : Aliases) : Naming := ⟨fun name => aliases.lookup name, fun _ => none⟩

/-- Declarations are qualified. -/
def qualify (naming : Naming) (qualifier : Qualifier) : Naming :=
  { naming with own? := fun name =>
      if name ∈ qualifier.exported then some (qualifier.declaration name) else none }

end Naming

mutual

/-- The names in an expression change, where some names are hidden. -/
inductive Expr.Rebound (naming : Naming) (hidden : List String) : Expr → Expr → Prop where
  | access {name space property : String} {position : Position} :
      naming.space? name = some space →
      Rebound naming hidden (.member (.identifier name position) property)
        (.identifier (Expr.qualifiedName space property) position)
  | member {object object' : Expr} {property : String} :
      (∀ name position, object = .identifier name position → naming.space? name = none) →
      Rebound naming hidden object object' →
      Rebound naming hidden (.member object property) (.member object' property)
  | own {name new : String} {position : Position} :
      naming.own? name = some new → name ∉ hidden →
      Rebound naming hidden (.identifier name position) (.identifier new position)
  | other {name : String} {position : Position} :
      naming.own? name = none ∨ name ∈ hidden →
      Rebound naming hidden (.identifier name position) (.identifier name position)
  | call {callee callee' : Expr} {arguments arguments' : List Expr} :
      Rebound naming hidden callee callee' → AllRebound naming hidden arguments arguments' →
      Rebound naming hidden (.call callee arguments) (.call callee' arguments')
  | binary {operator : BinaryOperator} {left left' right right' : Expr} :
      Rebound naming hidden left left' → Rebound naming hidden right right' →
      Rebound naming hidden (.binary operator left right) (.binary operator left' right')
  | prefixed {operator : PrefixOperator} {operand operand' : Expr} :
      Rebound naming hidden operand operand' →
      Rebound naming hidden (.prefixed operator operand) (.prefixed operator operand')
  | postfixed {operator : PostfixOperator} {operand operand' : Expr} :
      Rebound naming hidden operand operand' →
      Rebound naming hidden (.postfixed operator operand) (.postfixed operator operand')
  | number (text : String) : Rebound naming hidden (.number text) (.number text)
  | string (value : String) : Rebound naming hidden (.string value) (.string value)
  | boolean (value : Bool) : Rebound naming hidden (.boolean value) (.boolean value)
  | null : Rebound naming hidden .null .null

inductive Expr.AllRebound (naming : Naming) (hidden : List String) :
    List Expr → List Expr → Prop where
  | nil : AllRebound naming hidden [] []
  | cons {first first' : Expr} {rest rest' : List Expr} :
      Rebound naming hidden first first' → AllRebound naming hidden rest rest' →
      AllRebound naming hidden (first :: rest) (first' :: rest')

end

/-- The names in a value change, if there is a value. -/
inductive Expr.Rebound? (naming : Naming) (hidden : List String) :
    Option Expr → Option Expr → Prop where
  | none : Rebound? naming hidden none none
  | some {e e' : Expr} : e.Rebound naming hidden e' → Rebound? naming hidden (some e) (some e')

mutual

/-- The names in a statement inside a file change. What it declares keeps its name, and hides a
name from the statements after it. -/
inductive Stmt.Rebound (naming : Naming) : List String → Stmt → Stmt → Prop where
  | expr {hidden : List String} {e e' : Expr} :
      e.Rebound naming hidden e' → Stmt.Rebound naming hidden (.expr e) (.expr e')
  | comment {hidden : List String} (text : String) :
      Stmt.Rebound naming hidden (.comment text) (.comment text)
  | use {hidden : List String} (used : Use) : Stmt.Rebound naming hidden (.use used) (.use used)
  | returns {hidden : List String} {value value' : Option Expr} :
      Expr.Rebound? naming hidden value value' →
      Stmt.Rebound naming hidden (.returns value) (.returns value')
  | declare {hidden : List String} {decl : Variable} {value' : Option Expr} :
      Expr.Rebound? naming hidden decl.value value' →
      Stmt.Rebound naming hidden (.declare decl) (.declare { decl with value := value' })
  | prototype {hidden : List String} (header : FunctionHeader) :
      Stmt.Rebound naming hidden (.function header none) (.function header none)
  | function {hidden : List String} {header : FunctionHeader} {body body' : List Stmt} :
      Stmt.AllRebound naming (header.parameters.map (·.name) ++ header.name :: hidden) body body' →
      Stmt.Rebound naming hidden (.function header (some body)) (.function header (some body'))
  | branch {hidden : List String} {condition condition' : Expr} {body body' : List Stmt}
      {alternate alternate' : Alternate} :
      condition.Rebound naming hidden condition' → Stmt.AllRebound naming hidden body body' →
      Alternate.Rebound naming hidden alternate alternate' →
      Stmt.Rebound naming hidden (.branch condition body alternate)
        (.branch condition' body' alternate')
  | loop {hidden : List String} {condition condition' : Expr} {body body' : List Stmt} :
      condition.Rebound naming hidden condition' → Stmt.AllRebound naming hidden body body' →
      Stmt.Rebound naming hidden (.loop condition body) (.loop condition' body')
  | switch {hidden : List String} {subject subject' : Expr} {arms arms' : List Arm} :
      subject.Rebound naming hidden subject' → Arm.AllRebound naming hidden arms arms' →
      Stmt.Rebound naming hidden (.switch subject arms) (.switch subject' arms')

inductive Alternate.Rebound (naming : Naming) : List String → Alternate → Alternate → Prop where
  | none {hidden : List String} : Alternate.Rebound naming hidden .none .none
  | elseBranch {hidden : List String} {condition condition' : Expr} {body body' : List Stmt}
      {alternate alternate' : Alternate} :
      condition.Rebound naming hidden condition' → Stmt.AllRebound naming hidden body body' →
      Alternate.Rebound naming hidden alternate alternate' →
      Alternate.Rebound naming hidden (.elseBranch condition body alternate)
        (.elseBranch condition' body' alternate')
  | otherwise {hidden : List String} {body body' : List Stmt} :
      Stmt.AllRebound naming hidden body body' →
      Alternate.Rebound naming hidden (.otherwise body) (.otherwise body')

inductive Arm.Rebound (naming : Naming) : List String → Arm → Arm → Prop where
  | value {hidden : List String} {pattern pattern' : Expr} {body body' : List Stmt} :
      pattern.Rebound naming hidden pattern' → Stmt.AllRebound naming hidden body body' →
      Arm.Rebound naming hidden (.value pattern body) (.value pattern' body')
  | otherwise {hidden : List String} {body body' : List Stmt} :
      Stmt.AllRebound naming hidden body body' →
      Arm.Rebound naming hidden (.otherwise body) (.otherwise body')

inductive Stmt.AllRebound (naming : Naming) : List String → List Stmt → List Stmt → Prop where
  | nil {hidden : List String} : Stmt.AllRebound naming hidden [] []
  | cons {hidden : List String} {first first' : Stmt} {rest rest' : List Stmt} :
      Stmt.Rebound naming hidden first first' →
      Stmt.AllRebound naming (first.declared?.toList ++ hidden) rest rest' →
      Stmt.AllRebound naming hidden (first :: rest) (first' :: rest')

inductive Arm.AllRebound (naming : Naming) : List String → List Arm → List Arm → Prop where
  | nil {hidden : List String} : Arm.AllRebound naming hidden [] []
  | cons {hidden : List String} {first first' : Arm} {rest rest' : List Arm} :
      Arm.Rebound naming hidden first first' → Arm.AllRebound naming hidden rest rest' →
      Arm.AllRebound naming hidden (first :: rest) (first' :: rest')

end

/-- The names in a statement at the top of a file change. What it declares gets its new name, and
hides nothing. -/
inductive Stmt.ReboundTop (naming : Naming) : Stmt → Stmt → Prop where
  | declare {decl : Variable} {value' : Option Expr} :
      Expr.Rebound? naming [] decl.value value' →
      ReboundTop naming (.declare decl)
        (.declare { decl with name := naming.declaration decl.name, value := value' })
  | prototype (header : FunctionHeader) :
      ReboundTop naming (.function header none)
        (.function { header with name := naming.declaration header.name } none)
  | function {header : FunctionHeader} {body body' : List Stmt} :
      Stmt.AllRebound naming (header.parameters.map (·.name)) body body' →
      ReboundTop naming (.function header (some body))
        (.function { header with name := naming.declaration header.name } (some body'))
  | inside {s s' : Stmt} :
      s.declared? = none → s.Rebound naming [] s' → ReboundTop naming s s'

section Accesses

variable (aliases : Aliases)

mutual

/-- Replacing accesses leaves all other names as they are. -/
theorem Expr.rebound_access (hidden : List String) : ∀ e : Expr,
    e.Rebound (.ofAliases aliases) hidden (e.access aliases)
  | .identifier _ _ => .other (.inl rfl)
  | .member (.identifier name position) property => by
      rw [Expr.access]
      split
      · next space found => exact .access found
      · next missing =>
          refine .member ?_ (.other (.inl rfl))
          rintro _ _ ⟨⟩
          exact missing
  | .member (.member object inner) property =>
      .member (fun _ _ same => nomatch same) (Expr.rebound_access hidden (.member object inner))
  | .member (.call callee arguments) property =>
      .member (fun _ _ same => nomatch same) (Expr.rebound_access hidden (.call callee arguments))
  | .member (.binary operator left right) property =>
      .member (fun _ _ same => nomatch same)
        (Expr.rebound_access hidden (.binary operator left right))
  | .member (.prefixed operator operand) property =>
      .member (fun _ _ same => nomatch same)
        (Expr.rebound_access hidden (.prefixed operator operand))
  | .member (.postfixed operator operand) property =>
      .member (fun _ _ same => nomatch same)
        (Expr.rebound_access hidden (.postfixed operator operand))
  | .member (.number text) property => .member (fun _ _ same => nomatch same) (.number text)
  | .member (.string value) property => .member (fun _ _ same => nomatch same) (.string value)
  | .member (.boolean value) property => .member (fun _ _ same => nomatch same) (.boolean value)
  | .member .null property => .member (fun _ _ same => nomatch same) .null
  | .call callee arguments =>
      .call (Expr.rebound_access hidden callee) (Expr.rebound_accessAll hidden arguments)
  | .binary _ left right =>
      .binary (Expr.rebound_access hidden left) (Expr.rebound_access hidden right)
  | .prefixed _ operand => .prefixed (Expr.rebound_access hidden operand)
  | .postfixed _ operand => .postfixed (Expr.rebound_access hidden operand)
  | .number text => .number text
  | .string value => .string value
  | .boolean value => .boolean value
  | .null => .null

theorem Expr.rebound_accessAll (hidden : List String) : ∀ expressions : List Expr,
    Expr.AllRebound (.ofAliases aliases) hidden expressions (Expr.accessAll aliases expressions)
  | [] => .nil
  | first :: rest =>
      .cons (Expr.rebound_access hidden first) (Expr.rebound_accessAll hidden rest)

end

theorem Expr.rebound?_access (hidden : List String) (value : Option Expr) :
    Expr.Rebound? (.ofAliases aliases) hidden value (value.map (·.access aliases)) := by
  cases value with
  | none => exact .none
  | some e => exact .some (e.rebound_access aliases hidden)

mutual

theorem Stmt.rebound_access : ∀ (s : Stmt) (hidden : List String), s.bare.Parsed →
    s.Rebound (.ofAliases aliases) hidden (s.access aliases)
  | .expr e, hidden, _ => .expr (e.rebound_access aliases hidden)
  | .comment text, _, _ => .comment text
  | .use used, _, _ => .use used
  | .returns value, hidden, _ => .returns (Expr.rebound?_access aliases hidden value)
  | .declare decl, hidden, _ => .declare (Expr.rebound?_access aliases hidden decl.value)
  | .function header none, _, _ => .prototype header
  | .function _ (some body), _, parsed => .function (Stmt.rebound_accessAll body _ parsed.2.2)
  | .branch condition body alternate, hidden, parsed =>
      .branch (condition.rebound_access aliases hidden)
        (Stmt.rebound_accessAll body hidden parsed.1)
        (Alternate.rebound_access alternate hidden parsed.2)
  | .loop condition body, hidden, parsed =>
      .loop (condition.rebound_access aliases hidden) (Stmt.rebound_accessAll body hidden parsed)
  | .switch subject arms, hidden, parsed =>
      .switch (subject.rebound_access aliases hidden) (Arm.rebound_accessAll arms hidden parsed)

theorem Alternate.rebound_access : ∀ (alternate : Alternate) (hidden : List String),
    alternate.bare.Parsed → alternate.Rebound (.ofAliases aliases) hidden (alternate.access aliases)
  | .none, _, _ => .none
  | .elseBranch condition body alternate, hidden, parsed =>
      .elseBranch (condition.rebound_access aliases hidden)
        (Stmt.rebound_accessAll body hidden parsed.1)
        (Alternate.rebound_access alternate hidden parsed.2)
  | .otherwise body, hidden, parsed => .otherwise (Stmt.rebound_accessAll body hidden parsed)

theorem Arm.rebound_access : ∀ (arm : Arm) (hidden : List String), arm.bare.Parsed →
    arm.Rebound (.ofAliases aliases) hidden (arm.access aliases)
  | .value pattern body, hidden, parsed =>
      .value (pattern.rebound_access aliases hidden) (Stmt.rebound_accessAll body hidden parsed)
  | .otherwise body, hidden, parsed => .otherwise (Stmt.rebound_accessAll body hidden parsed)

theorem Stmt.rebound_accessAll : ∀ (body : List Stmt) (hidden : List String),
    Stmt.AllParsed (Stmt.allBare body) → Stmt.AllRebound (.ofAliases aliases) hidden body
      (Stmt.accessAll aliases body)
  | [], _, _ => .nil
  | first :: rest, hidden, parsed =>
      .cons (Stmt.rebound_access first hidden parsed.1) (Stmt.rebound_accessAll rest _ parsed.2)

theorem Arm.rebound_accessAll : ∀ (arms : List Arm) (hidden : List String),
    Arm.AllParsed (Arm.allBare arms) → Arm.AllRebound (.ofAliases aliases) hidden arms
      (Arm.accessAll aliases arms)
  | [], _, _ => .nil
  | first :: rest, hidden, parsed =>
      .cons (Arm.rebound_access first hidden parsed.1) (Arm.rebound_accessAll rest hidden parsed.2)

end

theorem Stmt.reboundTop_access {s : Stmt} (parsed : s.bare.Parsed) :
    s.ReboundTop (.ofAliases aliases) (s.access aliases) := by
  cases s with
  | declare decl => exact .declare (Expr.rebound?_access aliases [] decl.value)
  | function header body =>
      cases body with
      | none => exact .prototype header
      | some body => exact .function (Stmt.rebound_accessAll aliases body _ parsed.2.2)
  | _ => exact .inside rfl (Stmt.rebound_access aliases _ [] parsed)

end Accesses

section Qualifying

variable {naming : Naming} {qualifier : Qualifier}

/-- Names that are qualified already are none of a qualifier's own. -/
def Qualifier.Plain (qualifier : Qualifier) : Prop :=
  ∀ space name, Expr.qualifiedName space name ∉ qualifier.exported

theorem Qualifier.Plain.use_eq (plain : qualifier.Plain) (hidden : List String)
    (space name : String) :
    qualifier.use hidden (Expr.qualifiedName space name) = Expr.qualifiedName space name := by
  unfold Qualifier.use
  rw [if_neg]
  simp [plain space name]

theorem Expr.rebound_identifier (hidden : List String) (name : String) (position : Position) :
    (Expr.identifier name position).Rebound (naming.qualify qualifier) hidden
      (.identifier (qualifier.use hidden name) position) := by
  unfold Qualifier.use
  by_cases exported : name ∈ qualifier.exported
  · by_cases inside : name ∈ hidden
    · rw [if_neg (by simp [inside])]
      exact .other (.inr inside)
    · rw [if_pos (by simp [exported, inside])]
      exact .own (if_pos exported) inside
  · rw [if_neg (by simp [exported])]
    exact .other (.inl (if_neg exported))

mutual

/-- Qualifying names after accesses were replaced changes the names that the file declares at its
top, and no others. -/
theorem Expr.Rebound.qualify (unnamed : ∀ name, naming.own? name = none) (plain : qualifier.Plain)
    {hidden : List String} : ∀ {e e' : Expr}, e.Rebound naming hidden e' →
      e.Rebound (naming.qualify qualifier) hidden (e'.qualify qualifier hidden)
  | _, _, .access found => by
      rw [Expr.qualify, plain.use_eq]
      exact .access found
  | _, _, .member missing rebound =>
      .member missing (Expr.Rebound.qualify unnamed plain rebound)
  | .identifier name _, _, .own renames _ => by
      rw [unnamed name] at renames
      cases renames
  | _, _, .other _ => Expr.rebound_identifier hidden _ _
  | _, _, .call rebound rebound' =>
      .call (Expr.Rebound.qualify unnamed plain rebound)
        (Expr.AllRebound.qualify unnamed plain rebound')
  | _, _, .binary rebound rebound' =>
      .binary (Expr.Rebound.qualify unnamed plain rebound)
        (Expr.Rebound.qualify unnamed plain rebound')
  | _, _, .prefixed rebound => .prefixed (Expr.Rebound.qualify unnamed plain rebound)
  | _, _, .postfixed rebound => .postfixed (Expr.Rebound.qualify unnamed plain rebound)
  | _, _, .number text => .number text
  | _, _, .string value => .string value
  | _, _, .boolean value => .boolean value
  | _, _, .null => .null

theorem Expr.AllRebound.qualify (unnamed : ∀ name, naming.own? name = none)
    (plain : qualifier.Plain) {hidden : List String} : ∀ {expressions expressions' : List Expr},
      Expr.AllRebound naming hidden expressions expressions' →
      Expr.AllRebound (naming.qualify qualifier) hidden expressions
        (Expr.qualifyAll qualifier hidden expressions')
  | _, _, .nil => .nil
  | _, _, .cons rebound rebound' =>
      .cons (Expr.Rebound.qualify unnamed plain rebound)
        (Expr.AllRebound.qualify unnamed plain rebound')

end

theorem Expr.Rebound?.qualify (unnamed : ∀ name, naming.own? name = Option.none)
    (plain : qualifier.Plain)
    {hidden : List String} {value value' : Option Expr}
    (rebound : Expr.Rebound? naming hidden value value') :
    Expr.Rebound? (naming.qualify qualifier) hidden value
      (value'.map (·.qualify qualifier hidden)) := by
  cases rebound with
  | none => exact .none
  | some rebound => exact .some (rebound.qualify unnamed plain)

theorem Stmt.Rebound.declared?_eq {hidden : List String} {s s' : Stmt}
    (rebound : s.Rebound naming hidden s') : s'.declared? = s.declared? := by
  cases rebound <;> rfl

mutual

theorem Stmt.Rebound.qualify (unnamed : ∀ name, naming.own? name = none)
    (plain : qualifier.Plain) : ∀ {s s' : Stmt} {hidden : List String},
      s.Rebound naming hidden s' →
      s.Rebound (naming.qualify qualifier) hidden (s'.qualify qualifier hidden)
  | _, _, _, .expr rebound => .expr (rebound.qualify unnamed plain)
  | _, _, _, .comment text => .comment text
  | _, _, _, .use used => .use used
  | _, _, _, .returns rebound => .returns (rebound.qualify unnamed plain)
  | _, _, _, .declare rebound => .declare (rebound.qualify unnamed plain)
  | _, _, _, .prototype header => .prototype header
  | _, _, _, .function rebound => .function (Stmt.AllRebound.qualify unnamed plain rebound)
  | _, _, _, .branch rebound inside rest =>
      .branch (rebound.qualify unnamed plain) (Stmt.AllRebound.qualify unnamed plain inside)
        (Alternate.Rebound.qualify unnamed plain rest)
  | _, _, _, .loop rebound inside =>
      .loop (rebound.qualify unnamed plain) (Stmt.AllRebound.qualify unnamed plain inside)
  | _, _, _, .switch rebound inside =>
      .switch (rebound.qualify unnamed plain) (Arm.AllRebound.qualify unnamed plain inside)

theorem Alternate.Rebound.qualify (unnamed : ∀ name, naming.own? name = none)
    (plain : qualifier.Plain) : ∀ {alternate alternate' : Alternate} {hidden : List String},
      alternate.Rebound naming hidden alternate' →
      alternate.Rebound (naming.qualify qualifier) hidden (alternate'.qualify qualifier hidden)
  | _, _, _, .none => .none
  | _, _, _, .elseBranch rebound inside rest =>
      .elseBranch (rebound.qualify unnamed plain) (Stmt.AllRebound.qualify unnamed plain inside)
        (Alternate.Rebound.qualify unnamed plain rest)
  | _, _, _, .otherwise inside => .otherwise (Stmt.AllRebound.qualify unnamed plain inside)

theorem Arm.Rebound.qualify (unnamed : ∀ name, naming.own? name = none)
    (plain : qualifier.Plain) : ∀ {arm arm' : Arm} {hidden : List String},
      arm.Rebound naming hidden arm' →
      arm.Rebound (naming.qualify qualifier) hidden (arm'.qualify qualifier hidden)
  | _, _, _, .value rebound inside =>
      .value (rebound.qualify unnamed plain) (Stmt.AllRebound.qualify unnamed plain inside)
  | _, _, _, .otherwise inside => .otherwise (Stmt.AllRebound.qualify unnamed plain inside)

theorem Stmt.AllRebound.qualify (unnamed : ∀ name, naming.own? name = none)
    (plain : qualifier.Plain) : ∀ {body body' : List Stmt} {hidden : List String},
      Stmt.AllRebound naming hidden body body' →
      Stmt.AllRebound (naming.qualify qualifier) hidden body
        (Stmt.qualifyAll qualifier hidden body')
  | _, _, _, .nil => .nil
  | _, _, _, .cons rebound rest => by
      rw [Stmt.qualifyAll, rebound.declared?_eq]
      exact .cons (Stmt.Rebound.qualify unnamed plain rebound)
        (Stmt.AllRebound.qualify unnamed plain rest)

theorem Arm.AllRebound.qualify (unnamed : ∀ name, naming.own? name = none)
    (plain : qualifier.Plain) : ∀ {arms arms' : List Arm} {hidden : List String},
      Arm.AllRebound naming hidden arms arms' →
      Arm.AllRebound (naming.qualify qualifier) hidden arms (Arm.qualifyAll qualifier hidden arms')
  | _, _, _, .nil => .nil
  | _, _, _, .cons rebound rest =>
      .cons (Arm.Rebound.qualify unnamed plain rebound)
        (Arm.AllRebound.qualify unnamed plain rest)

end

theorem Naming.declaration_of_unnamed (unnamed : ∀ name, naming.own? name = none) (name : String) :
    naming.declaration name = name := by
  rw [declaration, unnamed]
  rfl

/-- What is declared at the top gets its qualified name. -/
theorem Stmt.ReboundTop.qualifyTop (unnamed : ∀ name, naming.own? name = none)
    (plain : qualifier.Plain) {s s' : Stmt} (rebound : s.ReboundTop naming s')
    (exported : ∀ name ∈ s.declared?, name ∈ qualifier.exported) :
    s.ReboundTop (naming.qualify qualifier) (s'.qualifyTop qualifier) := by
  have renames : ∀ name ∈ s.declared?, qualifier.declaration (naming.declaration name) =
      (naming.qualify qualifier).declaration name := by
    intro name declared
    have owned : (naming.qualify qualifier).own? name = some (qualifier.declaration name) :=
      if_pos (exported name declared)
    rw [naming.declaration_of_unnamed unnamed, Naming.declaration, owned, Option.getD_some]
  cases rebound with
  | @declare decl value' values =>
      have renamed := renames decl.name rfl
      have values' := values.qualify unnamed plain
      simp only [Stmt.qualifyTop]
      rw [renamed]
      exact .declare values'
  | prototype header =>
      simp only [Stmt.qualifyTop, Option.map_none]
      rw [renames header.name rfl]
      exact .prototype header
  | @function header _ body' bodies =>
      simp only [Stmt.qualifyTop, Option.map_some]
      rw [renames header.name rfl]
      exact .function (bodies.qualify unnamed plain)
  | inside undeclared rebound =>
      have rebound' := rebound.qualify unnamed plain
      have same : s'.qualifyTop qualifier = s'.qualify qualifier [] := by
        have undeclared' := rebound.declared?_eq.trans undeclared
        cases s' with
        | declare decl => cases undeclared'
        | function header body => cases undeclared'
        | _ => rfl
      rw [same]
      exact .inside undeclared rebound'

end Qualifying

end SmallLang
