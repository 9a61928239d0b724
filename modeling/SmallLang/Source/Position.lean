/-!
# Positions

A position is a byte offset into a named file. Spans mark the bytes that a token
covers; both ends lie in one file.
-/

set_option autoImplicit false

namespace SmallLang

/-- A byte offset into the UTF-8 text of a named file. It stands for one of 32 bits, and so agrees
with it only in a text of less than 4 GiB. -/
structure Position where
  file : String
  offset : Nat
  deriving DecidableEq, Repr

def Position.nullFile : String := "<null>"

/-- The position of what has no place in any source. -/
def Position.null : Position := ⟨nullFile, 0⟩

/-- Whether a position points nowhere. Only the file name decides. -/
def Position.isNull (position : Position) : Bool := position.file == nullFile

/-- The bytes from `start` up to, but not including, `stop`. -/
structure Span where
  file : String
  start : Nat
  stop : Nat
  deriving DecidableEq, Repr

namespace Span

def startPosition (span : Span) : Position := ⟨span.file, span.start⟩

def stopPosition (span : Span) : Position := ⟨span.file, span.stop⟩

def emptyAt (position : Position) : Span := ⟨position.file, position.offset, position.offset⟩

end Span

end SmallLang
