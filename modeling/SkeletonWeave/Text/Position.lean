/-!
# Byte positions in text

Positions count the bytes of the UTF-8 form of a text. A text is cut only
at the boundary of a character; asking for any other cut has no answer.
Main statements: a cut loses nothing, and its first part has the asked length.
-/

set_option autoImplicit false

namespace SkeletonWeave.Text

def byteLength (cs : List Char) : Nat :=
  cs.foldr (fun c n => c.utf8Size + n) 0

@[simp] theorem byteLength_nil : byteLength [] = 0 := rfl

@[simp] theorem byteLength_cons (c : Char) (cs : List Char) :
    byteLength (c :: cs) = c.utf8Size + byteLength cs := rfl

@[simp] theorem byteLength_append (as bs : List Char) :
    byteLength (as ++ bs) = byteLength as + byteLength bs := by
  induction as with
  | nil => simp
  | cons c as ih => simp only [List.cons_append, byteLength_cons, ih, Nat.add_assoc]

/-- `splitAtByte?` with the characters already passed, last one first. -/
def splitAtByteFrom? (passed : List Char) : Nat → List Char → Option (List Char × List Char)
  | 0, cs => some (passed.reverse, cs)
  | _ + 1, [] => none
  | n + 1, c :: cs =>
    if c.utf8Size ≤ n + 1 then splitAtByteFrom? (c :: passed) (n + 1 - c.utf8Size) cs else none
termination_by _ cs => cs.length

/-- The text before and after its first `n` bytes, when a character starts or the text ends there. -/
def splitAtByte? (n : Nat) (cs : List Char) : Option (List Char × List Char) :=
  splitAtByteFrom? [] n cs

theorem splitAtByteFrom?_eq_some_iff (passed : List Char) (n : Nat) (cs before after : List Char) :
    splitAtByteFrom? passed n cs = some (before, after) ↔
      ∃ part, before = passed.reverse ++ part ∧ cs = part ++ after ∧ byteLength part = n := by
  fun_induction splitAtByteFrom? passed n cs with
  | case1 passed cs =>
    constructor
    · intro h
      cases h
      exact ⟨[], by simp⟩
    · rintro ⟨part, rfl, rfl, hLength⟩
      cases part with
      | nil => simp
      | cons c _ =>
        have := c.utf8Size_pos
        simp only [byteLength_cons] at hLength
        omega
  | case2 passed n =>
    constructor
    · intro h
      cases h
    · rintro ⟨part, rfl, hCut, hLength⟩
      obtain ⟨rfl, rfl⟩ := List.append_eq_nil_iff.mp hCut.symm
      cases hLength
  | case3 passed n c cs hFits ih =>
    rw [ih]
    constructor
    · rintro ⟨part, rfl, rfl, hLength⟩
      refine ⟨c :: part, by simp, rfl, ?_⟩
      clear ih
      simp only [byteLength_cons]
      omega
    · rintro ⟨part, rfl, hCut, hLength⟩
      cases part with
      | nil => cases hLength
      | cons d part =>
        obtain ⟨rfl, rfl⟩ := List.cons.inj hCut
        simp only [byteLength_cons] at hLength
        exact ⟨part, by simp, rfl, by omega⟩
  | case4 passed n c cs hLarge =>
    constructor
    · intro h
      cases h
    · rintro ⟨part, rfl, hCut, hLength⟩
      cases part with
      | nil => cases hLength
      | cons d part =>
        obtain ⟨rfl, rfl⟩ := List.cons.inj hCut
        simp only [byteLength_cons] at hLength
        omega

theorem splitAtByte?_eq_some_iff (n : Nat) (cs before after : List Char) :
    splitAtByte? n cs = some (before, after) ↔ cs = before ++ after ∧ byteLength before = n := by
  rw [splitAtByte?, splitAtByteFrom?_eq_some_iff]
  constructor
  · rintro ⟨part, rfl, h⟩
    simpa using h
  · intro h
    exact ⟨before, by simp, h⟩

/-- Whether a position is the start or the end of a character of the text. -/
def IsBoundary (cs : List Char) (n : Nat) : Prop :=
  ∃ before after, cs = before ++ after ∧ byteLength before = n

/-- The part of a text from one byte position to another, when both are boundaries in order. -/
def slice? (cs : List Char) (start stop : Nat) : Option (List Char) :=
  if start ≤ stop then do
    let (_, rest) ← splitAtByte? start cs
    let (part, _) ← splitAtByte? (stop - start) rest
    return part
  else none

/-- `takeBytes` in reverse, put before the characters already taken. -/
def takeBytesOnto (taken : List Char) (n : Nat) : List Char → List Char
  | [] => taken
  | c :: cs => if c.utf8Size ≤ n then takeBytesOnto (c :: taken) (n - c.utf8Size) cs else taken

/-- The longest start of a text that takes at most `n` bytes. -/
def takeBytes (n : Nat) (cs : List Char) : List Char :=
  (takeBytesOnto [] n cs).reverse

end SkeletonWeave.Text
