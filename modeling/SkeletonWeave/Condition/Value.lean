import SkeletonWeave.Condition.Reader

/-!
# The value of a condition under a macro table

A defined name is worth the value of its replacement text, read as a condition
of its own. Replacements nest eight deep; below that every name is worth zero,
so tables that refer to themselves have a value too.
-/

set_option autoImplicit false

namespace SkeletonWeave.Condition

def replacementLimit : Nat := 8

/-- The value of a condition text, with at most `levels` nested replacements. -/
def evaluateWithin (levels : Nat) (text : String) (macros : Macros) : Int :=
  (read text).value macros.contains
    (match levels with
    | 0 => fun _ => 0
    | n + 1 => fun name => ((macros.get? name).map fun t => evaluateWithin n t macros).getD 0)

def evaluate (text : String) (macros : Macros) : Int :=
  evaluateWithin replacementLimit text macros

end SkeletonWeave.Condition
