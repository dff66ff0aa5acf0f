/-!
# Libraries of patterns

What is needed of patterns: which texts write one, how many groups it has, and
what its groups hold after its first match in a text. Groups are numbered from
one, in the order of their opening parentheses.
-/

set_option autoImplicit false

namespace SkeletonWeave

class PatternLibrary where
  Compiled : Type
  compile? : String → Option Compiled
  groupCount : Compiled → Nat
  /-- What each group holds after the first match in a text, if there is a match. -/
  groups? : Compiled → String → Option (Nat → Option String)

end SkeletonWeave
