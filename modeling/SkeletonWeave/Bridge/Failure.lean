/-!
# Failures of bridging

Why a handler method cannot be bridged to a method of the manager.
-/

set_option autoImplicit false

namespace SkeletonWeave.Bridge

/-- A failure names the handler method, except where a whole class is missing. -/
inductive Failure where
  | classNotFound (name : String)
  | missingHint (method target : String) (count : Nat)
  | unmatchedHint (method target hint : String)
  | unboundArgument (method target argument : String)
  | callbackNotFunction (method target argument type : String)
  deriving DecidableEq, Repr

namespace Failure

def quoted (s : String) : String :=
  "'" ++ s ++ "'"

def message : Failure → String
  | classNotFound name => "class " ++ quoted name ++ " not found in the parsed sources"
  | missingHint method target count =>
    "method " ++ quoted method ++ ": " ++ quoted target ++ " is overloaded " ++ Nat.repr count ++
      " times; add a disambiguation hint to the handler method name"
  | unmatchedHint method target hint =>
    "method " ++ quoted method ++ ": no overload of " ++ quoted target ++
      " has a last argument matching hint " ++ quoted hint
  | unboundArgument method target argument =>
    "method " ++ quoted method ++ ": cannot bind argument " ++ quoted argument ++ " of " ++
      quoted target
  | callbackNotFunction method target argument type =>
    "method " ++ quoted method ++ ": callback argument " ++ quoted argument ++ " of " ++
      quoted target ++ " has type " ++ quoted type ++ ", which is not a function pointer"

end Failure

end SkeletonWeave.Bridge
