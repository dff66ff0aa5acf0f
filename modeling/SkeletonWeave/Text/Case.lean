import SkeletonWeave.Text.Unicode.CasedRanges
import SkeletonWeave.Text.Unicode.FoldRuns
import SkeletonWeave.Text.Unicode.IgnorableRanges
import SkeletonWeave.Text.Unicode.LowerRuns

/-!
# Letter case

Lower case of text, where a sigma at the end of a word takes its final form, and
the characters that differ from a character in case alone.
-/

set_option autoImplicit false

namespace SkeletonWeave.Text

open Unicode

def isCased (c : Char) : Bool :=
  inRanges casedRanges c.toNat

/-- Whether rules about neighbouring letters pass over the character. -/
def isCaseIgnorable (c : Char) : Bool :=
  inRanges ignorableRanges c.toNat

def lowerChar (c : Char) : List Char :=
  if c.toNat < 128 then [c.toLower]
  else if c.toNat = 0x130 then ['i', Char.ofNat 0x307]
  else
    match lowerRuns.findSome? (·.image? c.toNat) with
    | some n => [Char.ofNat n]
    | none => [c]

/-- Whether the nearest character that case rules do not pass over is cased. -/
def startsCased (cs : List Char) : Bool :=
  (cs.dropWhile isCaseIgnorable).head?.any isCased

def lowerAfter (before : List Char) : List Char → List Char
  | [] => []
  | c :: cs =>
    if c.toNat = 0x3A3 then
      let isFinal := startsCased before && !startsCased cs
      Char.ofNat (if isFinal then 0x3C2 else 0x3C3) :: lowerAfter (c :: before) cs
    else lowerChar c ++ lowerAfter (c :: before) cs

def lower (cs : List Char) : List Char :=
  lowerAfter [] cs

/-- The character that stands for all that differ from a character in case alone. -/
def foldChar (c : Char) : Char :=
  match foldRuns.findSome? (·.image? c.toNat) with
  | some n => Char.ofNat n
  | none => c

def caseVariants (c : Char) : List Char :=
  let folded := foldChar c
  folded :: (foldRuns.filterMap (·.source? folded.toNat)).map Char.ofNat

end SkeletonWeave.Text
