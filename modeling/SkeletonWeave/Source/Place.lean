import SkeletonWeave.Text.Lines

/-!
# Places in source files

A span is a range of bytes of one file, a body the two braces of a
definition. Files carry the number by which spans name them.
-/

set_option autoImplicit false

namespace SkeletonWeave.Source

/-- The bytes of one file from `start` up to, but not including, `stop`. -/
structure Span where
  file : Nat
  start : Nat
  stop : Nat
  deriving DecidableEq, Repr, Inhabited

namespace Span

def length (s : Span) : Nat :=
  s.stop - s.start

end Span

structure Body where
  opening : Span
  closing : Span
  deriving DecidableEq, Repr, Inhabited

namespace Body

/-- What lies strictly between the two braces, in the file of the opening one. -/
def inner (b : Body) : Span :=
  ⟨b.opening.file, b.opening.stop, b.closing.start⟩

end Body

structure File where
  id : Nat
  path : String
  text : String
  deriving DecidableEq, Repr, Inhabited

namespace File

def lineStart (f : File) (line : Nat) : Nat :=
  Text.lineStart f.text.toList line

def lineStartOf? (f : File) (position : Nat) : Option Nat :=
  Text.lineStartOf? f.text.toList position

end File

end SkeletonWeave.Source
