/-!
# Searching in text

Texts are lists of characters here. Separators hold at least one character.
-/

set_option autoImplicit false

namespace SkeletonWeave.Text

def hasInfix (part : List Char) : List Char → Bool
  | [] => part.isEmpty
  | c :: cs => part.isPrefixOf (c :: cs) || hasInfix part cs

/-- The text after the last occurrence of the separator; `found` if there is none. -/
def afterLastFrom (separator found : List Char) : List Char → List Char
  | [] => found
  | c :: cs =>
    afterLastFrom separator
      (if separator.isPrefixOf (c :: cs) then cs.drop (separator.length - 1) else found) cs

/-- The text after the last occurrence of the separator; all of it if there is none. -/
def afterLast (separator cs : List Char) : List Char :=
  afterLastFrom separator cs cs

def dropPrefixes (part cs : List Char) : List Char :=
  if part.isPrefixOf cs ∧ 0 < part.length then dropPrefixes part (cs.drop part.length) else cs
termination_by cs.length
decreasing_by
  have := (List.isPrefixOf_iff_prefix.mp (by assumption : _ ∧ _).1).length_le
  simp only [List.length_drop]
  omega

def splitOnFrom (separator part : List Char) : List Char → List (List Char)
  | [] => [part.reverse]
  | c :: cs =>
    if separator.isPrefixOf (c :: cs) then
      part.reverse :: splitOnFrom separator [] (cs.drop (separator.length - 1))
    else splitOnFrom separator (c :: part) cs
termination_by cs => cs.length
decreasing_by
  · simp only [List.length_drop, List.length_cons]; omega
  · simp

def splitOn (separator cs : List Char) : List (List Char) :=
  splitOnFrom separator [] cs

def replaceAll (part new cs : List Char) : List Char :=
  new.intercalate (splitOn part cs)

end SkeletonWeave.Text
