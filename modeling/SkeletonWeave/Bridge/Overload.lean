import SkeletonWeave.Bridge.Failure
import SkeletonWeave.Declaration.Basic
import SkeletonWeave.Pattern.Library
import SkeletonWeave.Text.Case

/-!
# Choosing overloads

The name of a handler method tells its target and may add a hint. Where the
target is overloaded, the hint is looked for in the type of the last parameter,
without regard to case, and the last overload that has it is chosen.
-/

set_option autoImplicit false

namespace SkeletonWeave.Bridge

structure SplitName where
  target : String
  hint? : Option String
  deriving DecidableEq, Repr

namespace SplitName

/-- The first group of the pattern is the target and the second, unless it is empty, the hint. A
name that does not match is a target as a whole. -/
def ofName [PatternLibrary] (pattern : PatternLibrary.Compiled) (name : String) : SplitName :=
  match PatternLibrary.groups? pattern name with
  | none => ⟨name, none⟩
  | some group? => ⟨(group? 1).getD name, (group? 2).filter (· ≠ "")⟩

end SplitName

/-- A chosen method, and how many overloads had the hint. -/
structure Selection where
  method : Method
  matchCount : Nat
  deriving Repr, BEq

namespace Selection

def isAmbiguous (s : Selection) : Bool :=
  1 < s.matchCount

end Selection

/-- Whether the type of the last parameter has the hint in its spelling, whatever the case. -/
def hasHint (hint : String) (m : Method) : Bool :=
  m.params.getLast?.any fun p =>
    Text.hasInfix (Text.lower hint.toList) (Text.lower p.type.spelling.toList)

/-- Chooses among the methods that a target can mean. Without any, nothing is chosen; the only one
needs no hint. -/
def selectOverload (handler : String) (split : SplitName) (candidates : List Method) :
    Except Failure (Option Selection) :=
  match candidates with
  | [] => .ok none
  | [only] => .ok (some ⟨only, 1⟩)
  | _ =>
    match split.hint? with
    | none => .error (.missingHint handler split.target candidates.length)
    | some hint =>
      let matching := candidates.filter (hasHint hint)
      match matching.getLast? with
      | none => .error (.unmatchedHint handler split.target hint)
      | some method => .ok (some ⟨method, matching.length⟩)

end SkeletonWeave.Bridge
