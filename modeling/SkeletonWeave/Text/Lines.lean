import SkeletonWeave.Text.Position

/-!
# Lines

Lines are counted from one and end with a line feed. Three indexes answer
with byte positions: where the line of a given number starts, where the
line around a position starts, and where all lines start that hold at
least one character. No line is around a position inside of a character.
-/

set_option autoImplicit false

namespace SkeletonWeave.Text

/-- The position after the given number of line feeds, or the end of the text if there are fewer,
for a text that starts at `offset`. -/
def afterBreaks (offset : Nat) : Nat → List Char → Nat
  | 0, _ => offset
  | _ + 1, [] => offset
  | n + 1, c :: cs =>
    if c = '\n' then afterBreaks (offset + c.utf8Size) n cs
    else afterBreaks (offset + c.utf8Size) (n + 1) cs

/-- Where a line starts; the first line also answers for zero, and the end of the text for
every line after the last. -/
def lineStart (cs : List Char) (line : Nat) : Nat :=
  afterBreaks 0 (line - 1) cs

def lastLineStart (cs : List Char) : Nat :=
  byteLength (cs.reverse.dropWhile (· ≠ '\n'))

/-- Where the line around a position starts; positions after the end count as the end. -/
def lineStartOf? (cs : List Char) (position : Nat) : Option Nat :=
  (splitAtByte? (min position (byteLength cs)) cs).map fun (before, _) => lastLineStart before

/-- The positions that follow a line feed, the last one first, for a text that starts at `offset`. -/
def breaksOnto (found : List Nat) (offset : Nat) : List Char → List Nat
  | [] => found
  | c :: cs =>
    let next := offset + c.utf8Size
    if c = '\n' then breaksOnto (next :: found) next cs else breaksOnto found next cs

/-- Where each line that holds at least one character starts. -/
def lineStarts (cs : List Char) : List Nat :=
  if cs.isEmpty then []
  else 0 :: ((breaksOnto [] 0 cs).reverse.filter (· < byteLength cs))

def linesWithBreaks : List Char → List (List Char)
  | [] => []
  | c :: cs =>
    if c = '\n' then [c] :: linesWithBreaks cs
    else
      match linesWithBreaks cs with
      | [] => [[c]]
      | line :: rest => (c :: line) :: rest

end SkeletonWeave.Text
