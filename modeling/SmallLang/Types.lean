import SmallLang.Source.Position

/-!
# Types

The primitive types of the language, and the terms that stand for them while some are
still unknown.
-/

set_option autoImplicit false

namespace SmallLang

/-- What a type is, up to the width of integers. -/
inductive Kind where
  | int
  | float
  | bool
  | string
  | void
  | null
  deriving DecidableEq, Repr

def Kind.name : Kind → String
  | .int => "int"
  | .float => "float"
  | .bool => "bool"
  | .string => "string"
  | .void => "void"
  | .null => "null"

inductive Width where
  | w8
  | w16
  | w32
  | w64
  deriving DecidableEq, Repr

def Width.bits : Width → Nat
  | .w8 => 8
  | .w16 => 16
  | .w32 => 32
  | .w64 => 64

/-- A primitive type. Only integers may have a width. -/
inductive Ty where
  | int
  | float
  | bool
  | string
  | void
  | null
  | sized (width : Width)
  deriving DecidableEq, Repr

namespace Ty

/-- Every type, in the order in which the root scope declares them. -/
def all : List Ty :=
  [.int, .float, .bool, .string, .void, .null,
   .sized .w8, .sized .w16, .sized .w32, .sized .w64]

/-- A sized integer is an integer. -/
def kind : Ty → Kind
  | .int => .int
  | .float => .float
  | .bool => .bool
  | .string => .string
  | .void => .void
  | .null => .null
  | .sized _ => .int

def width? : Ty → Option Width
  | .sized width => some width
  | _ => none

def name : Ty → String
  | .sized .w8 => "i8"
  | .sized .w16 => "i16"
  | .sized .w32 => "i32"
  | .sized .w64 => "i64"
  | type => type.kind.name

def ofName? (name : String) : Option Ty := all.find? fun type => type.name == name

/-- Whether a name is reserved for a type. -/
def isTypeName (name : String) : Bool := (ofName? name).isSome

/-- Integers of any width and floats are numbers. -/
def isNumeric (type : Ty) : Bool :=
  match type.kind with
  | .int | .float => true
  | _ => false

/-- Agreement up to the width of integers. -/
def sameKind (first second : Ty) : Bool := first.kind == second.kind

theorem mem_all (type : Ty) : type ∈ all := by
  cases type with
  | sized width => cases width <;> decide
  | _ => decide

@[simp] theorem ofName?_name (type : Ty) : ofName? type.name = some type := by
  cases type with
  | sized width => cases width <;> decide
  | _ => decide

end Ty

/-- A type that is not known yet, by its number in the table of placeholders. -/
structure Placeholder where
  index : Nat
  deriving DecidableEq, Repr

def Placeholder.name (placeholder : Placeholder) : String :=
  "?" ++ toString placeholder.index

/-- A type, or a placeholder for one. -/
inductive Term where
  | concrete (type : Ty)
  | pending (placeholder : Placeholder)
  deriving DecidableEq, Repr

namespace Term

def name : Term → String
  | .concrete type => type.name
  | .pending placeholder => placeholder.name

def type? : Term → Option Ty
  | .concrete type => some type
  | .pending _ => none

def isPending : Term → Bool
  | .concrete _ => false
  | .pending _ => true

end Term

/-- A type name as a program writes it. It need not name a type. -/
structure TypeName where
  name : String
  position : Position
  deriving DecidableEq, Repr

end SmallLang
