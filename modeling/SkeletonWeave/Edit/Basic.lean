import SkeletonWeave.Text.Position

/-!
# Edits

An edit puts a replacement in the place of a range of bytes of a text. All edits
of a list refer to the unedited text, whatever their order. Edits must not
overlap, and their ranges must lie in the text on boundaries of characters.
-/

set_option autoImplicit false

namespace SkeletonWeave

structure EditRange where
  label : String
  start : Nat
  stop : Nat
  deriving DecidableEq, Repr

/-- A text for the bytes from `start` up to, but not including, `stop`. -/
structure Edit where
  start : Nat
  stop : Nat
  replacement : String
  label : String
  deriving DecidableEq, Repr

/-- Two edits that cannot both be made. An edit that reaches out of the text collides with its
end. -/
structure EditCollision where
  first : EditRange
  second : EditRange
  deriving DecidableEq, Repr

namespace EditRange

def describe (r : EditRange) : String :=
  "'" ++ r.label ++ "' (" ++ Nat.repr r.start ++ ".." ++ Nat.repr r.stop ++ ")"

end EditRange

namespace EditCollision

def message (c : EditCollision) : String :=
  "overlapping edits: " ++ c.first.describe ++ " and " ++ c.second.describe

end EditCollision

namespace Edit

def insertion (position : Nat) (text label : String) : Edit :=
  ⟨position, position, text, label⟩

def isInsertion (e : Edit) : Bool :=
  e.start == e.stop

def range (e : Edit) : EditRange :=
  ⟨e.label, e.start, e.stop⟩

/-- Whether an edit may be made before another: at an earlier start, or at the same start unless it
is a replacement and the other an insertion. -/
def le (a b : Edit) : Bool :=
  a.start < b.start || (a.start == b.start && (a.isInsertion || !b.isInsertion))

def ordered (edits : List Edit) : List Edit :=
  edits.mergeSort le

/-- The first edit that reaches over the start of the next one, with that one. -/
def collision? : List Edit → Option EditCollision
  | a :: b :: rest =>
    if b.start < a.stop then some ⟨a.range, b.range⟩ else collision? (b :: rest)
  | _ => none

def outOfText (e : Edit) : EditCollision :=
  ⟨e.range, ⟨"end of file", e.stop, e.stop⟩⟩

def applyFrom (text : List Char) (cursor : Nat) : List Edit → Except EditCollision (List Char)
  | [] => .ok ((Text.splitAtByte? cursor text).elim [] (·.2))
  | e :: rest =>
    if Text.byteLength text < e.stop then .error e.outOfText
    else
      match Text.slice? text cursor e.start with
      | none => .error e.outOfText
      | some kept => do
        let edited ← applyFrom text e.stop rest
        return kept ++ e.replacement.toList ++ edited

def applyAll (edits : List Edit) (text : String) : Except EditCollision String :=
  let sequence := ordered edits
  match collision? sequence with
  | some c => .error c
  | none => (applyFrom text.toList 0 sequence).map String.ofList

end Edit

end SkeletonWeave
