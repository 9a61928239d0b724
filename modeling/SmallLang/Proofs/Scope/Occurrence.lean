import SmallLang.Proofs.Scope.Scoping

/-!
# Where names are used

Every use of a name in a program, with the names that were declared before it in the scopes that
are open there. A use is bound to one of these, or else to a declaration anywhere in the root
scope. The value of a root variable does not reach the variable itself.
-/

set_option autoImplicit false

namespace SmallLang

/-- A site in a program, as far as names are concerned. -/
structure Site where
  /-- The names declared before this site, in the scopes that are open here. -/
  visible : List String
  /-- Whether no scope but the root is open. -/
  isRoot : Bool
  /-- The root variable in whose value this site is. -/
  declaring : Option String

/-- The use of a name at some site. -/
structure Occurrence where
  name : String
  position : Position
  site : Site

namespace Site

/-- The site at which a program begins. -/
def start : Site := ⟨[], true, none⟩

/-- The site after a declaration of some names. -/
def declare (site : Site) (names : List String) : Site :=
  { site with visible := site.visible ++ names }

/-- The site at which a block begins that declares some names first. -/
def enter (site : Site) (names : List String) : Site := ⟨site.visible ++ names, false, none⟩

/-- The value of a variable that is declared at a site. -/
def value (site : Site) (name : String) : Site :=
  { site with declaring := if site.isRoot then some name else site.declaring }

/-- Names that are used at a site. -/
def uses (site : Site) (mentions : List (String × Position)) : List Occurrence :=
  mentions.map fun mention => ⟨mention.1, mention.2, site⟩

@[simp] theorem declare_nil (site : Site) : site.declare [] = site := by
  rw [declare, List.append_nil]

theorem declare_declare (site : Site) (first second : List String) :
    (site.declare first).declare second = site.declare (first ++ second) := by
  rw [declare, declare, declare, List.append_assoc]

theorem declare_enter (site : Site) (names : List String) :
    (site.enter []).declare names = site.enter names := by
  rw [declare, enter, enter, List.append_nil]

theorem uses_append (site : Site) (first second : List (String × Position)) :
    site.uses (first ++ second) = site.uses first ++ site.uses second :=
  List.map_append

end Site

mutual

/-- The names that an expression uses, and where they stand. -/
def Expr.mentions : Expr → List (String × Position)
  | .identifier name position => [(name, position)]
  | .member (.identifier space position) property => [(qualifiedName space property, position)]
  | .member object _ => object.mentions
  | .call callee arguments => Expr.allMentions arguments ++ callee.mentions
  | .binary _ left right => left.mentions ++ right.mentions
  | .prefixed _ operand => operand.mentions
  | .postfixed _ operand => operand.mentions
  | .number _ | .string _ | .boolean _ | .null => []

def Expr.allMentions : List Expr → List (String × Position)
  | [] => []
  | first :: rest => first.mentions ++ Expr.allMentions rest

end

/-- The names that a value uses, if there is a value. -/
def Expr.mentions? : Option Expr → List (String × Position)
  | none => []
  | some e => e.mentions

mutual

/-- The uses of names in a statement at a site. -/
def Stmt.occurrences (site : Site) : Stmt → List Occurrence
  | .expr e => site.uses e.mentions
  | .comment _ | .use _ | .parameter _ | .function _ none => []
  | .returns value => site.uses (Expr.mentions? value)
  | .declare decl => (site.value decl.name).uses (Expr.mentions? decl.value)
  | .function header (some body) =>
      Stmt.allOccurrences
        ((site.declare [header.name]).enter (header.parameters.map (·.name))) body
  | .branch condition body alternate =>
      site.uses condition.mentions ++
        (Stmt.allOccurrences (site.enter []) body ++ alternate.occurrences site)
  | .loop condition body =>
      site.uses condition.mentions ++ Stmt.allOccurrences (site.enter []) body
  | .switch subject arms => site.uses subject.mentions ++ Arm.allOccurrences site arms
  | .arm single => single.occurrences site
  | .merged body => Stmt.allOccurrences site body

def Alternate.occurrences (site : Site) : Alternate → List Occurrence
  | .none => []
  | .elseBranch condition body alternate =>
      site.uses condition.mentions ++
        (Stmt.allOccurrences (site.enter []) body ++ alternate.occurrences site)
  | .otherwise body => Stmt.allOccurrences (site.enter []) body

def Arm.occurrences (site : Site) : Arm → List Occurrence
  | .value pattern body =>
      site.uses pattern.mentions ++ Stmt.allOccurrences (site.enter []) body
  | .otherwise body => Stmt.allOccurrences (site.enter []) body

/-- The uses of names in statements, each of which sees what those before it declare. -/
def Stmt.allOccurrences (site : Site) : List Stmt → List Occurrence
  | [] => []
  | first :: rest =>
      first.occurrences site ++ Stmt.allOccurrences (site.declare first.declares) rest

def Arm.allOccurrences (site : Site) : List Arm → List Occurrence
  | [] => []
  | first :: rest => first.occurrences site ++ Arm.allOccurrences site rest

end

/-- The uses of names in a program. -/
def Program.occurrences (program : Program) : List Occurrence :=
  Stmt.allOccurrences .start program

/-- A use of a name is bound if the name is declared before it in an open scope, or anywhere in the
root scope, unless it is in the value of a root variable of that name. -/
def Occurrence.Bound (occurrence : Occurrence) (program : Program) : Prop :=
  occurrence.name ∈ occurrence.site.visible ∨
    occurrence.name ∈ Stmt.allDeclares program ∧ occurrence.site.declaring ≠ some occurrence.name

end SmallLang
