import SkeletonWeave.Text.Blank

/-!
# Directive lines

The logical line of a directive is a name and the rest after it. The rest of a
definition is a name and a replacement text, that of an include a file name in
quotes or in angle brackets.
-/

set_option autoImplicit false

namespace SkeletonWeave.Directive

def isNamePart (c : Char) : Bool :=
  c.isAlphanum || c == '_'

def splitName (text : List Char) : List Char × List Char :=
  let start := Text.trimLeft text
  (start.takeWhile isNamePart, start.dropWhile isNamePart)

/-- The name and the replacement text of a definition. A parameter list directly after the name
leaves no usable text. -/
def definition (rest : List Char) : String × String :=
  let (name, after) := splitName rest
  let value := if after.head? == some '(' then [] else Text.trim after
  (String.ofList name, String.ofList value)

inductive Target where
  | quoted (name : String)
  | angled (name : String)
  deriving DecidableEq, Repr

def Target.name : Target → String
  | .quoted name => name
  | .angled name => name

/-- The file that an include names; none when it names one only through a macro. -/
def target? (rest : List Char) : Option Target :=
  match Text.trim rest with
  | '"' :: name => some (.quoted (String.ofList (Text.dropEndWhile (· == '"') name)))
  | '<' :: name => some (.angled (String.ofList (Text.dropEndWhile (· == '>') name)))
  | _ => none

end SkeletonWeave.Directive
