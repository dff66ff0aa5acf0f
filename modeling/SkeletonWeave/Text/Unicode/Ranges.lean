/-!
# Ranges of code points

A property of characters is given by the ranges of code points that have it,
in increasing order. Characters below 128 are told by their own rule first.
-/

set_option autoImplicit false

namespace SkeletonWeave.Text.Unicode

def inRanges (ranges : List (Nat × Nat)) (n : Nat) : Bool :=
  ranges.any fun (first, last) => first ≤ n && n ≤ last

/-- Code points from `first` to `last` in steps of `stride`, which a mapping moves by `shift`. -/
structure Run where
  first : Nat
  last : Nat
  stride : Nat
  shift : Int
  deriving DecidableEq, Repr

def Run.image? (r : Run) (n : Nat) : Option Nat :=
  if r.first ≤ n ∧ n ≤ r.last ∧ (n - r.first) % r.stride = 0 then some (n + r.shift).toNat
  else none

/-- The code point that a run moves to the given one, if there is one. -/
def Run.source? (r : Run) (n : Nat) : Option Nat :=
  let m := (n - r.shift : Int)
  if 0 ≤ m ∧ r.image? m.toNat = some n then some m.toNat else none

end SkeletonWeave.Text.Unicode
