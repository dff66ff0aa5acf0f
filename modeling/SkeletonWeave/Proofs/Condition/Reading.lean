import SkeletonWeave.Condition.Value

/-!
# Steps of reading a condition

What each reader makes of the words before it, with the condition and the words
left over as a pair. A reader that goes on after an operand stops at the first
word that is not one of its signs.
-/

set_option autoImplicit false

namespace SkeletonWeave.Condition

theorem readOr_eq (ws : List String) :
    (readOr ws).1 = (readOrRest (readAnd ws).1.1 (readAnd ws).1.2).1 := by
  rw [readOr]
  rfl

theorem readAnd_eq (ws : List String) :
    (readAnd ws).1 = (readAndRest (readComparison ws).1.1 (readComparison ws).1.2).1 := by
  rw [readAnd]
  rfl

theorem readComparison_eq (ws : List String) :
    (readComparison ws).1 = (readComparisonRest (readSigned ws).1.1 (readSigned ws).1.2).1 := by
  rw [readComparison]
  rfl

theorem readOrRest_sign (a : Condition) (ws : List String) :
    (readOrRest a ("||" :: ws)).1 =
      (readOrRest (.or a (readAnd ws).1.1) (readAnd ws).1.2).1 := by
  rw [readOrRest]
  rfl

theorem readAndRest_sign (a : Condition) (ws : List String) :
    (readAndRest a ("&&" :: ws)).1 =
      (readAndRest (.and a (readComparison ws).1.1) (readComparison ws).1.2).1 := by
  rw [readAndRest]
  rfl

theorem readComparisonRest_sign (a : Condition) {w : String} {c : Comparison}
    (h : Comparison.ofSign? w = some c) (ws : List String) :
    (readComparisonRest a (w :: ws)).1 =
      (readComparisonRest (.compare c a (readSigned ws).1.1) (readSigned ws).1.2).1 := by
  rw [readComparisonRest.eq_def]
  simp only
  split
  · next hNone => rw [h] at hNone; cases hNone
  · next c' hSome =>
    rw [h] at hSome
    cases hSome
    rfl

theorem readOrRest_stop (a : Condition) {ws : List String} (h : ws.head? ≠ some "||") :
    (readOrRest a ws).1 = (a, ws) := by
  rw [readOrRest.eq_def]
  split
  · exact absurd rfl h
  · rfl

theorem readAndRest_stop (a : Condition) {ws : List String} (h : ws.head? ≠ some "&&") :
    (readAndRest a ws).1 = (a, ws) := by
  rw [readAndRest.eq_def]
  split
  · exact absurd rfl h
  · rfl

theorem readComparisonRest_stop (a : Condition) {ws : List String}
    (h : ∀ w ∈ ws.head?, Comparison.ofSign? w = none) :
    (readComparisonRest a ws).1 = (a, ws) := by
  rw [readComparisonRest.eq_def]
  split
  · rfl
  · next w rest =>
    simp only
    split
    · rfl
    · next c hSome =>
      rw [h w rfl] at hSome
      cases hSome

theorem readSigned_not (ws : List String) :
    (readSigned ("!" :: ws)).1 = (.not (readSigned ws).1.1, (readSigned ws).1.2) := by
  rw [readSigned]

theorem readSigned_negative (ws : List String) :
    (readSigned ("-" :: ws)).1 = (.negative (readSigned ws).1.1, (readSigned ws).1.2) := by
  rw [readSigned]

theorem readSigned_operand {ws : List String} (hNot : ws.head? ≠ some "!")
    (hNegative : ws.head? ≠ some "-") : (readSigned ws).1 = (readOperand ws).1 := by
  rw [readSigned.eq_def]
  split
  · exact absurd rfl hNot
  · exact absurd rfl hNegative
  · rfl

theorem readOperand_group (ws : List String) :
    (readOperand ("(" :: ws)).1 = ((readOr ws).1.1, dropClosing (readOr ws).1.2) := by
  rw [readOperand]

theorem readOperand_defined (ws : List String) :
    (readOperand ("defined" :: ws)).1 = (readDefined ws).1 := by
  rw [readOperand]
  rfl

theorem readOperand_word {w : String} (hGroup : w ≠ "(") (hDefined : w ≠ "defined")
    (ws : List String) : (readOperand (w :: ws)).1 = (ofWord w, ws) := by
  rw [readOperand]
  · exact hGroup
  · exact hDefined

/-- What a name is worth with at most so many nested replacements: the value of its replacement
text, and zero for a name without one. -/
def worthWithin : Nat → Macros → String → Int
  | 0, _, _ => 0
  | levels + 1, macros, w =>
    match macros.get? w with
    | some text => evaluateWithin levels text macros
    | none => 0

theorem evaluateWithin_eq (levels : Nat) (text : String) (macros : Macros) :
    evaluateWithin levels text macros =
      (read text).value macros.contains (worthWithin levels macros) := by
  cases levels with
  | zero => rfl
  | succ levels =>
    rw [evaluateWithin]
    congr 1
    funext w
    rw [worthWithin]
    cases macros.get? w <;> rfl

end SkeletonWeave.Condition
