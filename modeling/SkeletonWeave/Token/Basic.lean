import SkeletonWeave.Source.Place

/-!
# Tokens

A token has a kind, a text, the span it covers and the line of its first
character. The text of a directive is its logical line without the `#`;
every other token has the text of its span.
-/

set_option autoImplicit false

namespace SkeletonWeave

inductive TokenKind where
  | identifier
  | number
  | string
  | character
  | punctuation
  | directive
  deriving DecidableEq, Repr, Inhabited

structure Token where
  kind : TokenKind
  text : String
  span : Source.Span
  line : Nat
  deriving DecidableEq, Repr, Inhabited

namespace Token

def isPunctuation (t : Token) (text : String) : Bool :=
  t.kind == .punctuation && t.text == text

def isIdentifier (t : Token) (text : String) : Bool :=
  t.kind == .identifier && t.text == text

/-- Whether a space separates the token from a neighbour of the same sort. -/
def isWord (t : Token) : Bool :=
  t.kind == .identifier || t.kind == .number

end Token

end SkeletonWeave
