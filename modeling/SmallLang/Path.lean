import SmallLang.Text.Split

/-!
# Paths

A path is kept as it was written. Two paths are the same if they have the same parts:
empty parts and single dots count only where a path begins with them.
-/

set_option autoImplicit false

namespace SmallLang

structure Path where
  text : String
  deriving DecidableEq, Repr

namespace Path

/-- What stands between the slashes. -/
def segments (path : Path) : List String := Text.parts '/' path.text

def isAbsolute (path : Path) : Bool := path.text.toList.head? == some '/'

/-- Whether a segment leads nowhere. -/
def isIdle (segment : String) : Bool := segment == "" || segment == "."

def steps (path : Path) : List String := path.segments.filter fun segment => !isIdle segment

/-- The parts that a path is known by. The root is a part of its own. -/
def parts (path : Path) : List String :=
  if path.isAbsolute then "/" :: path.steps
  else if path.segments.head? == some "." then "." :: path.steps
  else path.steps

def same (first second : Path) : Bool := first.parts == second.parts

/-- A path below another. An absolute path, and one below the empty path, is itself. -/
def join (base inner : Path) : Path :=
  if inner.isAbsolute || base.text == "" then inner
  else if base.text.toList.getLast? == some '/' then ⟨base.text ++ inner.text⟩
  else ⟨base.text ++ "/" ++ inner.text⟩

/-- Segments, the last first, without idle ones at the end. The first always stays. -/
def trimmed : List String → List String
  | [] => []
  | [first] => [first]
  | last :: earlier => if isIdle last then trimmed earlier else last :: earlier

/-- The directory that a path leads to before its last part. Where nothing is left, it is the
empty path, and below the root it is the root. -/
def parent (path : Path) : Path :=
  match trimmed path.segments.reverse with
  | [] | [_] => ⟨""⟩
  | _ :: earlier =>
      match trimmed earlier with
      | [""] => ⟨"/"⟩
      | kept => ⟨String.intercalate "/" kept.reverse⟩

end Path

end SmallLang
