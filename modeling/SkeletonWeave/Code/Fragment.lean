import SkeletonWeave.Configuration.Basic

/-!
# Fragments of code

Generated code is written line by line, each line under the indent of its level.
-/

set_option autoImplicit false

namespace SkeletonWeave.Code

inductive Indent where
  | tab
  | spaces (width : Nat)
  deriving DecidableEq, Repr, Inhabited

namespace Indent

def maxWidth : Nat := 255

def ofWidth (width : Nat) : Indent :=
  spaces (min width maxWidth)

def ofEmit (e : EmitSection) : Indent :=
  match e.indent with
  | .tab => tab
  | .spaces => ofWidth e.indentWidth

def unit : Indent → String
  | tab => "\t"
  | spaces width => "".pushn ' ' width

end Indent

structure Fragment where
  indent : Indent
  level : Nat
  text : String
  deriving DecidableEq, Repr, Inhabited

namespace Fragment

def atLevel (indent : Indent) (level : Nat) : Fragment :=
  ⟨indent, level, ""⟩

def raw (f : Fragment) (s : String) : Fragment :=
  { f with text := f.text ++ s }

def line (f : Fragment) (s : String) : Fragment :=
  f.raw (String.join (List.replicate f.level f.indent.unit) ++ s ++ "\n")

def blank (f : Fragment) : Fragment :=
  f.raw "\n"

def deeper (f : Fragment) : Fragment :=
  { f with level := f.level + 1 }

def shallower (f : Fragment) : Fragment :=
  { f with level := f.level - 1 }

def lines (f : Fragment) (texts : List String) : Fragment :=
  texts.foldl line f

end Fragment

end SkeletonWeave.Code
