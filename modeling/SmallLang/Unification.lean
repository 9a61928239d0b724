import SmallLang.Types

/-!
# Unification

Placeholders fall into classes. A class is open, or bound to a type for good. A placeholder
is linked to another one of its class, or represents the class; links are followed and never
shortened. Constraints are read once, in order, each in the light of those before it.
-/

set_option autoImplicit false

namespace SmallLang

/-- What the table knows of a placeholder. -/
inductive Slot where
  | unbound
  | bound (type : Ty)
  /-- The placeholder was merged into the class of another one. -/
  | linked (next : Placeholder)
  deriving DecidableEq, Repr

/-- Two terms that have to agree. -/
structure Constraint where
  left : Term
  right : Term
  deriving DecidableEq, Repr

/-- The slots of all placeholders so far, by number. -/
structure Table where
  slots : Array Slot
  deriving DecidableEq, Repr

namespace Table

def empty : Table := ⟨#[]⟩

def size (table : Table) : Nat := table.slots.size

def slot? (table : Table) (placeholder : Placeholder) : Option Slot :=
  table.slots[placeholder.index]?

/-- Writes the slot of a placeholder, if it is one of the table's. -/
def set (table : Table) (placeholder : Placeholder) (slot : Slot) : Table :=
  ⟨table.slots.setIfInBounds placeholder.index slot⟩

def next (table : Table) : Placeholder := ⟨table.size⟩

def grow (table : Table) : Table := ⟨table.slots.push .unbound⟩

/-- Where the links from a placeholder lead, after some number of them at most. -/
def follow (table : Table) : Nat → Placeholder → Placeholder
  | 0, placeholder => placeholder
  | steps + 1, placeholder =>
      match table.slot? placeholder with
      | some (.linked next) => table.follow steps next
      | _ => placeholder

/-- The placeholder that represents the class of another. No chain of links is longer than
the table. One without a slot is its own. -/
def find (table : Table) (placeholder : Placeholder) : Placeholder :=
  table.follow table.size placeholder

/-- What is known of a term: the type of its class, or who represents the class. -/
def resolve (table : Table) : Term → Term
  | .concrete type => .concrete type
  | .pending placeholder =>
      match table.slot? (table.find placeholder) with
      | some (.bound type) => .concrete type
      | _ => .pending (table.find placeholder)

/-- Binds the class of a placeholder to a type. Bound classes stay as they are. -/
def bind (table : Table) (placeholder : Placeholder) (type : Ty) : Table :=
  match table.slot? (table.find placeholder) with
  | some .unbound => table.set (table.find placeholder) (.bound type)
  | _ => table

/-- Merges the class of one placeholder into that of another. A placeholder without a slot
cannot be merged, but others can be merged into its class. -/
def link (table : Table) (source target : Placeholder) : Table :=
  if table.find source = table.find target then table
  else table.set (table.find source) (.linked (table.find target))

/-- Takes one constraint into account. Types that disagree are left as they are. -/
def require (table : Table) (constraint : Constraint) : Table :=
  match table.resolve constraint.left, table.resolve constraint.right with
  | .concrete _, .concrete _ => table
  | .pending placeholder, .concrete type => table.bind placeholder type
  | .concrete type, .pending placeholder => table.bind placeholder type
  | .pending left, .pending right => table.link left right

/-- Takes constraints into account, one after the other. -/
def unify (table : Table) (constraints : List Constraint) : Table :=
  constraints.foldl require table

end Table

end SmallLang
