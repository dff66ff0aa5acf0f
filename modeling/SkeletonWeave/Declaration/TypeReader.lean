import SkeletonWeave.Declaration.TypeExpr
import SkeletonWeave.Declaration.Words

/-!
# Reading types

A type is read from the tokens of its spelling, without the declared name.
Qualifiers, pointers and references count where they stand outside template
arguments; what is left is the base.
-/

set_option autoImplicit false

namespace SkeletonWeave

namespace Token

def closer (opener : String) : String :=
  if opener = "(" then ")" else if opener = "[" then "]" else if opener = "<" then ">" else "\x7d"

/-- Splits tokens that follow an opening delimiter at the one that closes it, counting only
delimiters of that kind. `inside` holds the tokens passed so far in reverse. -/
def closeGroupFrom? (opener : String) (depth : Nat) (inside : List Token) :
    List Token → Option (List Token × Token × List Token)
  | [] => none
  | t :: ts =>
    if t.isPunctuation opener then closeGroupFrom? opener (depth + 1) (t :: inside) ts
    else if t.isPunctuation (closer opener) then
      match depth with
      | 0 => some (inside.reverse, t, ts)
      | depth + 1 => closeGroupFrom? opener depth (t :: inside) ts
    else closeGroupFrom? opener depth (t :: inside) ts

def closeGroup? (opener : String) (ts : List Token) : Option (List Token × Token × List Token) :=
  closeGroupFrom? opener 0 [] ts

def isOpening (t : Token) : Bool :=
  ["(", "[", "\x7b", "<"].any t.isPunctuation

def isClosing (t : Token) : Bool :=
  [")", "]", "\x7d", ">"].any t.isPunctuation

/-- The parts between the separators that stand outside all delimiters. Delimiters of all kinds
count alike, and a closing one without an opening one counts too. -/
def splitTopFrom (separator : String) (depth : Int) (part : List Token) :
    List Token → List (List Token)
  | [] => [part.reverse]
  | t :: ts =>
    if depth = 0 ∧ t.isPunctuation separator then
      part.reverse :: splitTopFrom separator depth [] ts
    else if t.isOpening then splitTopFrom separator (depth + 1) (t :: part) ts
    else if t.isClosing then splitTopFrom separator (depth - 1) (t :: part) ts
    else splitTopFrom separator depth (t :: part) ts

def splitAtCommas (ts : List Token) : List (List Token) :=
  splitTopFrom "," 0 [] ts

def needsSpace (a b : Token) : Bool :=
  a.isPunctuation "," ||
    (b.isWord && (a.isWord || ["*", "&", "&&", ">"].any a.isPunctuation))

def spell : List Token → String
  | [] => ""
  | [a] => a.text
  | a :: b :: rest => a.text ++ (if needsSpace a b then " " else "") ++ spell (b :: rest)

end Token

namespace TypeExpr

structure Marks where
  isConst : Bool
  pointerDepth : Nat
  isReference : Bool
  deriving DecidableEq, Repr

/-- Separates the tokens of the base, kept in reverse in `base`, from the marks. `depth` counts
the open template argument lists. -/
def separate (depth : Nat) (marks : Marks) (base : List Token) : List Token → Marks × List Token
  | [] => (marks, base.reverse)
  | t :: ts =>
    if t.isPunctuation "<" then separate (depth + 1) marks (t :: base) ts
    else if t.isPunctuation ">" then separate (depth - 1) marks (t :: base) ts
    else if depth ≠ 0 then separate depth marks (t :: base) ts
    else if t.isIdentifier "const" then separate depth { marks with isConst := true } base ts
    else if t.isIdentifier "volatile" then separate depth marks base ts
    else if t.isPunctuation "*" then
      separate depth
        { marks with pointerDepth := min (marks.pointerDepth + 1) maxPointerDepth } base ts
    else if t.isPunctuation "&" || t.isPunctuation "&&" then
      separate depth { marks with isReference := true } base ts
    else if t.isOneOf Words.elaborating then separate depth marks base ts
    else separate depth marks (t :: base) ts

/-- The parts of the first template argument list among the tokens of a base. -/
def argumentParts (base : List Token) : List (List Token) :=
  match base.dropWhile fun t => !t.isPunctuation "<" with
  | [] => []
  | _ :: rest =>
    match Token.closeGroup? "<" rest with
    | some (inside, _, _) => (Token.splitAtCommas inside).filter fun part => !part.isEmpty
    | none => []

/-- The type with the given spelling, whose template arguments nest at most `levels` deep. -/
def ofTokensWithin : Nat → List Token → TypeExpr
  | levels, ts =>
    let (marks, base) := separate 0 ⟨false, 0, false⟩ [] ts
    let arguments :=
      match levels with
      | 0 => []
      | levels + 1 => (argumentParts base).map (ofTokensWithin levels)
    ⟨Token.spell ts, Token.spell base, marks.isConst, marks.pointerDepth, marks.isReference,
      arguments, none⟩

/-- The type that tokens spell. Arguments are shorter than the type, so they nest less deep than
it has tokens. -/
def ofTokens (ts : List Token) : TypeExpr :=
  ofTokensWithin ts.length ts

end TypeExpr

end SkeletonWeave
