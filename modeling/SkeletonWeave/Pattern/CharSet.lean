import SkeletonWeave.Text.Blank
import SkeletonWeave.Text.Case
import SkeletonWeave.Text.Unicode.DigitRanges
import SkeletonWeave.Text.Unicode.WordRanges

/-!
# Sets of characters

The classes of a pattern: ranges, the classes of digits, white space and word
characters, and what the operations on sets make of them.
-/

set_option autoImplicit false

namespace SkeletonWeave

inductive CharSet where
  | empty
  | range (first last : Char)
  | digit
  | blank
  | word
  | complement (s : CharSet)
  | union (s t : CharSet)
  | intersection (s t : CharSet)
  | difference (s t : CharSet)
  | symmetricDifference (s t : CharSet)
  | caseVariants (s : CharSet)
  deriving Repr, DecidableEq

namespace CharSet

def isDigit (c : Char) : Bool :=
  Text.Unicode.inRanges Text.Unicode.digitRanges c.toNat

def isWord (c : Char) : Bool :=
  c.isAlphanum || c == '_' || Text.Unicode.inRanges Text.Unicode.wordRanges c.toNat

def contains : CharSet → Char → Bool
  | empty, _ => false
  | range first last, c => first ≤ c && c ≤ last
  | digit, c => isDigit c
  | blank, c => Text.isBlank c
  | word, c => isWord c
  | complement s, c => !s.contains c
  | union s t, c => s.contains c || t.contains c
  | intersection s t, c => s.contains c && t.contains c
  | difference s t, c => s.contains c && !t.contains c
  | symmetricDifference s t, c => s.contains c != t.contains c
  | caseVariants s, c => s.contains c || (Text.caseVariants c).any s.contains

def single (c : Char) : CharSet := range c c

def ignoringCase (ignore : Bool) (s : CharSet) : CharSet :=
  if ignore then caseVariants s else s

end CharSet

end SkeletonWeave
