import SkeletonWeave.Condition.Expression
import SkeletonWeave.Text.Blank

/-!
# Reading conditions

A condition is read from any text whatever: an operand that is missing counts
as zero, a parenthesis that is never closed closes at the end, and what follows
the condition is passed over. `||` binds loosest, then `&&`, then all
comparisons from left to right, then the signs before an operand.
-/

set_option autoImplicit false

namespace SkeletonWeave.Condition

def isWordPart (c : Char) : Bool :=
  c.isAlphanum || c == '_'

def longSigns : List String :=
  ["&&", "||", "==", "!=", "<=", ">="]

def split : List Char → List String
  | [] => []
  | c :: cs =>
    if Text.isBlank c then split cs
    else if isWordPart c then
      String.ofList (c :: cs.takeWhile isWordPart) :: split (cs.dropWhile isWordPart)
    else
      match cs with
      | [] => [String.singleton c]
      | d :: ds =>
        if longSigns.contains (String.ofList [c, d]) then String.ofList [c, d] :: split ds
        else String.singleton c :: split (d :: ds)
termination_by cs => cs.length
decreasing_by
  · simp
  · have := (List.dropWhile_suffix isWordPart (l := cs)).length_le
    simp only [List.length_cons]
    omega
  · simp only [List.length_cons]; omega
  · simp

def digitValue? (base : Nat) (c : Char) : Option Nat :=
  let value :=
    if c.isDigit then some (c.toNat - '0'.toNat)
    else if 'a' ≤ c ∧ c ≤ 'f' then some (c.toNat - 'a'.toNat + 10)
    else if 'A' ≤ c ∧ c ≤ 'F' then some (c.toNat - 'A'.toNat + 10)
    else none
  value.filter (· < base)

/-- The number that the digits write, if there is at least one and it is below `2 ^ 63`. -/
def number? (base : Nat) (digits : List Char) : Option Nat :=
  if digits.isEmpty then none
  else
    (digits.foldlM (fun n c => (digitValue? base c).map (n * base + ·)) 0).filter (· < UInt64.size / 2)

/-- The integer that a word writes: decimal, or hexadecimal after `0x`, with any size letters at
its end. -/
def integer? (word : List Char) : Option Nat :=
  if word.head?.any Char.isDigit then
    match Text.dropEndWhile (['u', 'U', 'l', 'L'].contains ·) word with
    | '0' :: 'x' :: digits => number? 16 digits
    | '0' :: 'X' :: digits => number? 16 digits
    | digits => number? 10 digits
  else none

/-- A condition read from the start of some words, with the words left over. -/
abbrev Reading (ws : List String) :=
  { r : Condition × List String // r.2.length ≤ ws.length }

def Reading.widen {ws vs : List String} (r : Reading ws) (h : ws.length ≤ vs.length) : Reading vs :=
  ⟨r.1, Nat.le_trans r.2 h⟩

def dropClosing : List String → List String
  | [] => []
  | w :: ws => if w = ")" then ws else w :: ws

theorem length_dropClosing_le (ws : List String) : (dropClosing ws).length ≤ ws.length := by
  cases ws with
  | nil => simp [dropClosing]
  | cons w ws => by_cases h : w = ")" <;> simp [dropClosing, h]

def readDefined (ws : List String) : Reading ws :=
  match ws with
  | "(" :: rest =>
    ⟨(.isDefined (rest.head?.getD ""), dropClosing rest.tail), by
      have := length_dropClosing_le rest.tail
      simp only [List.length_tail, List.length_cons] at *
      omega⟩
  | rest => ⟨(.isDefined (rest.head?.getD ""), rest.tail), by simp⟩

def ofWord (w : String) : Condition :=
  match integer? w.toList with
  | some n => .literal n
  | none => .name w

theorem measure_lt_of_le {m n k l : Nat} (hLength : m ≤ n) (hLevel : k < l) :
    Prod.Lex (· < ·) (· < ·) (m, k) (n, l) := by
  rcases Nat.lt_or_eq_of_le hLength with h | rfl
  · exact Prod.Lex.left _ _ h
  · exact Prod.Lex.right _ hLevel

mutual

def readOr (ws : List String) : Reading ws :=
  match readAnd ws with
  | ⟨(a, rest), h⟩ => (readOrRest a rest).widen h
termination_by (ws.length, 8)
decreasing_by
  · exact measure_lt_of_le (Nat.le_refl _) (by decide)
  · exact measure_lt_of_le h (by decide)

def readOrRest (a : Condition) (ws : List String) : Reading ws :=
  match ws with
  | "||" :: rest =>
    match readAnd rest with
    | ⟨(b, rest'), h⟩ =>
      (readOrRest (.or a b) rest').widen (Nat.le_succ_of_le h)
  | rest => ⟨(a, rest), Nat.le_refl _⟩
termination_by (ws.length, 7)
decreasing_by
  · exact Prod.Lex.left _ _ (by simp)
  · exact Prod.Lex.left _ _ (Nat.lt_succ_of_le h)

def readAnd (ws : List String) : Reading ws :=
  match readComparison ws with
  | ⟨(a, rest), h⟩ => (readAndRest a rest).widen h
termination_by (ws.length, 6)
decreasing_by
  · exact measure_lt_of_le (Nat.le_refl _) (by decide)
  · exact measure_lt_of_le h (by decide)

def readAndRest (a : Condition) (ws : List String) : Reading ws :=
  match ws with
  | "&&" :: rest =>
    match readComparison rest with
    | ⟨(b, rest'), h⟩ =>
      (readAndRest (.and a b) rest').widen (Nat.le_succ_of_le h)
  | rest => ⟨(a, rest), Nat.le_refl _⟩
termination_by (ws.length, 5)
decreasing_by
  · exact Prod.Lex.left _ _ (by simp)
  · exact Prod.Lex.left _ _ (Nat.lt_succ_of_le h)

def readComparison (ws : List String) : Reading ws :=
  match readSigned ws with
  | ⟨(a, rest), h⟩ => (readComparisonRest a rest).widen h
termination_by (ws.length, 4)
decreasing_by
  · exact measure_lt_of_le (Nat.le_refl _) (by decide)
  · exact measure_lt_of_le h (by decide)

def readComparisonRest (a : Condition) (ws : List String) : Reading ws :=
  match ws with
  | [] => ⟨(a, []), Nat.le_refl _⟩
  | w :: rest =>
    match Comparison.ofSign? w with
    | none => ⟨(a, w :: rest), Nat.le_refl _⟩
    | some c =>
      match readSigned rest with
      | ⟨(b, rest'), h⟩ =>
        (readComparisonRest (.compare c a b) rest').widen (Nat.le_succ_of_le h)
termination_by (ws.length, 3)
decreasing_by
  · exact Prod.Lex.left _ _ (by simp)
  · exact Prod.Lex.left _ _ (Nat.lt_succ_of_le h)

def readSigned (ws : List String) : Reading ws :=
  match ws with
  | "!" :: rest =>
    match readSigned rest with
    | ⟨(a, rest'), h⟩ => ⟨(.not a, rest'), Nat.le_succ_of_le h⟩
  | "-" :: rest =>
    match readSigned rest with
    | ⟨(a, rest'), h⟩ => ⟨(.negative a, rest'), Nat.le_succ_of_le h⟩
  | rest => readOperand rest
termination_by (ws.length, 2)
decreasing_by
  · exact Prod.Lex.left _ _ (by simp)
  · exact Prod.Lex.left _ _ (by simp)
  · exact Prod.Lex.right _ (by decide)

def readOperand (ws : List String) : Reading ws :=
  match ws with
  | [] => ⟨(.literal 0, []), Nat.le_refl _⟩
  | "(" :: rest =>
    match readOr rest with
    | ⟨(a, rest'), h⟩ =>
      ⟨(a, dropClosing rest'),
        Nat.le_succ_of_le (Nat.le_trans (length_dropClosing_le rest') h)⟩
  | "defined" :: rest => (readDefined rest).widen (Nat.le_succ _)
  | w :: rest => ⟨(ofWord w, rest), Nat.le_succ _⟩
termination_by (ws.length, 1)

end

def read (text : String) : Condition :=
  (readOr (split text.toList)).1.1

end SkeletonWeave.Condition
