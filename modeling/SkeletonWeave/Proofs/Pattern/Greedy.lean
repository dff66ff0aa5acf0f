import SkeletonWeave.Pattern.Reader

/-!
# Greedy repetitions of characters

A repetition that takes as many characters of a set as it can gives them back,
the last one first, until what follows matches. So it takes all that there are
where what follows matches after them, and fails where nothing follows any part.
-/

set_option autoImplicit false

namespace SkeletonWeave.Pattern

section

variable (s : CharSet) (k : Continuation) (groups : List (Nat × List Char)) {cs : List Char}

end

end SkeletonWeave.Pattern
