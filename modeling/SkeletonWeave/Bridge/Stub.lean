import SkeletonWeave.Code.Fragment
import SkeletonWeave.Declaration.TypeExpr

/-!
# Callback stubs

A target that takes a pointer to a function is given an empty function to be
filled in by hand. Its name is made from the name of the target; of two stubs of
one name the first is kept.
-/

set_option autoImplicit false

namespace SkeletonWeave.Bridge

structure Stub where
  name : String
  returnType : String
  params : List String
  deriving DecidableEq, Repr

namespace Stub

def nameFor (target : String) : String :=
  target ++ "_callback"

def body : String := "// FIXME: fill in the blanks (sorry!)"

def forTarget (target : String) (signature : TypeExpr × List TypeExpr) : Stub :=
  ⟨nameFor target, signature.1.spelling, signature.2.map (·.spelling)⟩

def address (s : Stub) : String :=
  "&" ++ s.name

/-- The parameters with their types, named by their numbers. -/
def parameterList (s : Stub) : String :=
  ", ".intercalate (s.params.mapIdx fun i type => type ++ " arg" ++ Nat.repr (i + 1))

def render (s : Stub) (indent : Code.Indent) : String :=
  let head := s.returnType ++ " " ++ s.name ++ "(" ++ s.parameterList ++ ") \x7b"
  ((((Code.Fragment.atLevel indent 0).line head).deeper.line body).shallower.line "\x7d").text

end Stub

structure StubTable where
  stubs : List Stub
  deriving DecidableEq, Repr

namespace StubTable

def empty : StubTable := ⟨[]⟩

def get? (t : StubTable) (name : String) : Option Stub :=
  t.stubs.find? (·.name == name)

/-- The stub for a target, and the table that has it: a stub that is there already is kept. -/
def register (t : StubTable) (target : String) (signature : TypeExpr × List TypeExpr) :
    Stub × StubTable :=
  match t.get? (Stub.nameFor target) with
  | some s => (s, t)
  | none =>
    let s := Stub.forTarget target signature
    (s, ⟨t.stubs ++ [s]⟩)

def render (t : StubTable) (indent : Code.Indent) : String :=
  String.join (t.stubs.map fun s => s.render indent ++ "\n")

end StubTable

end SkeletonWeave.Bridge
