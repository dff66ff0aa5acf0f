import SkeletonWeave.Text.Blank
import SkeletonWeave.Text.Search

/-!
# C++ types

A type as it stands in a declaration: how it is spelled, and what the spelling
says about its base, qualifiers, pointers, template arguments and, for a pointer
to a function, that function's return and parameter types.
-/

set_option autoImplicit false

namespace SkeletonWeave

structure TypeExpr where
  spelling : String
  base : String
  isConst : Bool
  pointerDepth : Nat
  isReference : Bool
  arguments : List TypeExpr
  signature : Option (TypeExpr × List TypeExpr)
  deriving Repr, Inhabited, BEq

namespace TypeExpr

def named (name : String) : TypeExpr :=
  ⟨name, name, false, 0, false, [], none⟩

def void : TypeExpr := named "void"

def maxPointerDepth : Nat := 255

def addDepths (a b : Nat) : Nat :=
  (a + b) % (maxPointerDepth + 1)

def isVoid (t : TypeExpr) : Bool :=
  t.base == "void" && t.pointerDepth == 0 && t.signature.isNone

/-- Whether the type is a pointer or spells one anywhere, also in a template argument. -/
def isPointer (t : TypeExpr) : Bool :=
  0 < t.pointerDepth || t.spelling.toList.contains '*'

def isFunctionPointer (t : TypeExpr) : Bool :=
  t.signature.isSome

def basePath (t : TypeExpr) : String :=
  String.ofList (Text.trim (t.base.toList.takeWhile (· ≠ '<')))

/-- The last segment of the base without its template arguments. -/
def baseName (t : TypeExpr) : String :=
  String.ofList (Text.trim (Text.afterLast "::".toList (t.base.toList.takeWhile (· ≠ '<'))))

def functionPointer (result : TypeExpr) (parameters : List TypeExpr) : TypeExpr :=
  let spelling :=
    result.spelling ++ " (*)(" ++ ", ".intercalate (parameters.map (·.spelling)) ++ ")"
  ⟨spelling, spelling, false, 1, false, [], some (result, parameters)⟩

end TypeExpr

end SkeletonWeave
