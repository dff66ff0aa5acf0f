import Mathlib
import SkeletonWeave.Proofs.Condition.Reading

/-!
# Evaluating while reading

A condition can be evaluated while its words are read, and a name by evaluating
its replacement text in its place. Main statement: this evaluation comes to an
end on each text and under each macro table, also one that refers to itself, and
no value on the way leaves the range in which each value has a negative one.
-/

set_option autoImplicit false

namespace SkeletonWeave.Condition

/-- The parts of an evaluation. Those that go on after an operand have its value. -/
inductive Part where
  | or
  | orRest (left : Int)
  | and
  | andRest (left : Int)
  | comparison
  | comparisonRest (left : Int)
  | signed
  | operand
  deriving DecidableEq, Repr

/-- `Evaluates macros levels part ws v rest values`: a part of an evaluation with at most `levels`
nested replacements ends on the words `ws` with the value `v` and the words `rest` left over, and
has computed the `values`, the latest first. -/
inductive Evaluates (macros : Macros) : Nat → Part → List String → Int → List String → List Int → Prop
  | or {n a v ws rest rest' as vs} (hFirst : Evaluates macros n .and ws a rest as)
      (hRest : Evaluates macros n (.orRest a) rest v rest' vs) :
      Evaluates macros n .or ws v rest' (vs ++ as)
  | orRest_sign {n a b v ws rest rest' bs vs} (hNext : Evaluates macros n .and ws b rest bs)
      (hRest : Evaluates macros n (.orRest (ofBool (a != 0 || b != 0))) rest v rest' vs) :
      Evaluates macros n (.orRest a) ("||" :: ws) v rest' (vs ++ ofBool (a != 0 || b != 0) :: bs)
  | orRest_stop {n a ws} (hStop : ws.head? ≠ some "||") : Evaluates macros n (.orRest a) ws a ws []
  | and {n a v ws rest rest' as vs} (hFirst : Evaluates macros n .comparison ws a rest as)
      (hRest : Evaluates macros n (.andRest a) rest v rest' vs) :
      Evaluates macros n .and ws v rest' (vs ++ as)
  | andRest_sign {n a b v ws rest rest' bs vs} (hNext : Evaluates macros n .comparison ws b rest bs)
      (hRest : Evaluates macros n (.andRest (ofBool (a != 0 && b != 0))) rest v rest' vs) :
      Evaluates macros n (.andRest a) ("&&" :: ws) v rest' (vs ++ ofBool (a != 0 && b != 0) :: bs)
  | andRest_stop {n a ws} (hStop : ws.head? ≠ some "&&") : Evaluates macros n (.andRest a) ws a ws []
  | comparison {n a v ws rest rest' as vs} (hFirst : Evaluates macros n .signed ws a rest as)
      (hRest : Evaluates macros n (.comparisonRest a) rest v rest' vs) :
      Evaluates macros n .comparison ws v rest' (vs ++ as)
  | comparisonRest_sign {n a b v w ws rest rest' bs vs} {c : Comparison}
      (hSign : Comparison.ofSign? w = some c) (hNext : Evaluates macros n .signed ws b rest bs)
      (hRest : Evaluates macros n (.comparisonRest (ofBool (c.holds a b))) rest v rest' vs) :
      Evaluates macros n (.comparisonRest a) (w :: ws) v rest' (vs ++ ofBool (c.holds a b) :: bs)
  | comparisonRest_stop {n a ws} (hStop : ∀ w ∈ ws.head?, Comparison.ofSign? w = none) :
      Evaluates macros n (.comparisonRest a) ws a ws []
  | not {n a ws rest as} (hOperand : Evaluates macros n .signed ws a rest as) :
      Evaluates macros n .signed ("!" :: ws) (ofBool (a == 0)) rest (ofBool (a == 0) :: as)
  | negative {n a ws rest as} (hOperand : Evaluates macros n .signed ws a rest as) :
      Evaluates macros n .signed ("-" :: ws) (-a) rest (-a :: as)
  | unsigned {n v ws rest vs} (hNot : ws.head? ≠ some "!") (hNegative : ws.head? ≠ some "-")
      (hOperand : Evaluates macros n .operand ws v rest vs) : Evaluates macros n .signed ws v rest vs
  | missing {n} : Evaluates macros n .operand [] 0 [] [0]
  | group {n v ws rest vs} (hInside : Evaluates macros n .or ws v rest vs) :
      Evaluates macros n .operand ("(" :: ws) v (dropClosing rest) vs
  | definedGroup {n ws} :
      Evaluates macros n .operand ("defined" :: "(" :: ws)
        (ofBool (macros.contains (ws.head?.getD ""))) (dropClosing ws.tail)
        [ofBool (macros.contains (ws.head?.getD ""))]
  | defined {n ws} (hWord : ws.head? ≠ some "(") :
      Evaluates macros n .operand ("defined" :: ws)
        (ofBool (macros.contains (ws.head?.getD ""))) ws.tail
        [ofBool (macros.contains (ws.head?.getD ""))]
  | number {n w ws} {k : Nat} (hGroup : w ≠ "(") (hDefined : w ≠ "defined")
      (hNumber : integer? w.toList = some k) : Evaluates macros n .operand (w :: ws) k ws [(k : Int)]
  | replaced {n w ws text v rest vs} (hGroup : w ≠ "(") (hDefined : w ≠ "defined")
      (hNumber : integer? w.toList = none) (hText : macros.get? w = some text)
      (hReplaced : Evaluates macros n .or (split text.toList) v rest vs) :
      Evaluates macros (n + 1) .operand (w :: ws) v ws vs
  | unknown {n w ws} (hGroup : w ≠ "(") (hDefined : w ≠ "defined")
      (hNumber : integer? w.toList = none) (hText : macros.get? w = none ∨ n = 0) :
      Evaluates macros n .operand (w :: ws) 0 ws [0]

def Part.left? : Part → Option Int
  | or | and | comparison | signed | operand => none
  | orRest a | andRest a | comparisonRest a => some a

variable {macros : Macros}

def valueWithin (levels : Nat) (macros : Macros) (c : Condition) : Int :=
  c.value macros.contains (worthWithin levels macros)

def Ends (macros : Macros) (levels : Nat) (part : Part) (ws : List String)
    (r : Condition × List String) : Prop :=
  ∃ values, Evaluates macros levels part ws (valueWithin levels macros r.1) r.2 values

theorem head?_ne_of_not_cons {ws : List String} {w : String} (h : ∀ rest, ws = w :: rest → False) :
    ws.head? ≠ some w := by
  rintro hHead
  cases ws with
  | nil => cases hHead
  | cons v rest => exact h rest (by rw [Option.some.inj hHead])

theorem ends_defined (n : Nat) (ws : List String) :
    Ends macros n .operand ("defined" :: ws) (readOperand ("defined" :: ws)).1 := by
  rw [readOperand_defined]
  unfold readDefined
  split
  · exact ⟨_, .definedGroup⟩
  · next hGroup => exact ⟨_, .defined (head?_ne_of_not_cons hGroup)⟩

theorem ends_word {n : Nat} (hBelow : ∀ m, n = m + 1 → ∀ ws, Ends macros m .or ws (readOr ws).1)
    {w : String} (hGroup : w ≠ "(") (hDefined : w ≠ "defined") (ws : List String) :
    Ends macros n .operand (w :: ws) (readOperand (w :: ws)).1 := by
  rw [readOperand_word hGroup hDefined, ofWord]
  cases hNumber : integer? w.toList with
  | some k => exact ⟨_, .number hGroup hDefined hNumber⟩
  | none =>
    cases n with
    | zero => exact ⟨_, .unknown hGroup hDefined hNumber (.inr rfl)⟩
    | succ m =>
      cases hText : macros.get? w with
      | none =>
        have hWorth : valueWithin (m + 1) macros (.name w) = 0 := by
          simp only [valueWithin, value, worthWithin, hText]
        refine ⟨[0], ?_⟩
        rw [hWorth]
        exact .unknown hGroup hDefined hNumber (.inl hText)
      | some text =>
        have hWorth : valueWithin (m + 1) macros (.name w) = valueWithin m macros (read text) := by
          simp only [valueWithin, value, worthWithin, hText]
          exact evaluateWithin_eq m text macros
        obtain ⟨values, hReplaced⟩ := hBelow m rfl (split text.toList)
        refine ⟨values, ?_⟩
        rw [hWorth]
        exact .replaced hGroup hDefined hNumber hText hReplaced

theorem ends_level {n : Nat}
    (hBelow : ∀ m, n = m + 1 → ∀ ws, Ends macros m .or ws (readOr ws).1) (ws : List String) :
    Ends macros n .or ws (readOr ws).1 := by
  -- by induction along the reading, whose calls are the parts of the evaluation
  revert ws
  refine readOr.induct (fun ws => Ends macros n .or ws (readOr ws).1)
    (fun c ws => Ends macros n (.orRest (valueWithin n macros c)) ws (readOrRest c ws).1)
    (fun ws => Ends macros n .and ws (readAnd ws).1)
    (fun c ws => Ends macros n (.andRest (valueWithin n macros c)) ws (readAndRest c ws).1)
    (fun ws => Ends macros n .comparison ws (readComparison ws).1)
    (fun c ws =>
      Ends macros n (.comparisonRest (valueWithin n macros c)) ws (readComparisonRest c ws).1)
    (fun ws => Ends macros n .signed ws (readSigned ws).1)
    (fun ws => Ends macros n .operand ws (readOperand ws).1)
    ?or ?orSign ?orStop ?and ?andSign ?andStop ?comparison ?comparisonEnd ?comparisonStop
    ?comparisonSign ?not ?negative ?unsigned ?missing ?group ?defined ?word
  case or =>
    rintro ws a rest h hRead ⟨as, hFirst⟩ ⟨vs, hRest⟩
    rw [readOr_eq, hRead]
    rw [hRead] at hFirst
    exact ⟨_, hFirst.or hRest⟩
  case orSign =>
    rintro c ws b rest h hRead ⟨bs, hNext⟩ ⟨vs, hRest⟩
    rw [readOrRest_sign, hRead]
    rw [hRead] at hNext
    exact ⟨_, hNext.orRest_sign hRest⟩
  case orStop =>
    intro c ws hStop
    have hHead := head?_ne_of_not_cons hStop
    rw [readOrRest_stop c hHead]
    exact ⟨_, .orRest_stop hHead⟩
  case and =>
    rintro ws a rest h hRead ⟨as, hFirst⟩ ⟨vs, hRest⟩
    rw [readAnd_eq, hRead]
    rw [hRead] at hFirst
    exact ⟨_, hFirst.and hRest⟩
  case andSign =>
    rintro c ws b rest h hRead ⟨bs, hNext⟩ ⟨vs, hRest⟩
    rw [readAndRest_sign, hRead]
    rw [hRead] at hNext
    exact ⟨_, hNext.andRest_sign hRest⟩
  case andStop =>
    intro c ws hStop
    have hHead := head?_ne_of_not_cons hStop
    rw [readAndRest_stop c hHead]
    exact ⟨_, .andRest_stop hHead⟩
  case comparison =>
    rintro ws a rest h hRead ⟨as, hFirst⟩ ⟨vs, hRest⟩
    rw [readComparison_eq, hRead]
    rw [hRead] at hFirst
    exact ⟨_, hFirst.comparison hRest⟩
  case comparisonEnd =>
    intro c
    have hStop : ∀ w ∈ ([] : List String).head?, Comparison.ofSign? w = none := by simp
    rw [readComparisonRest_stop c hStop]
    exact ⟨_, .comparisonRest_stop hStop⟩
  case comparisonStop =>
    intro c w ws hSign
    have hStop : ∀ v ∈ (w :: ws).head?, Comparison.ofSign? v = none := by simpa using hSign
    rw [readComparisonRest_stop c hStop]
    exact ⟨_, .comparisonRest_stop hStop⟩
  case comparisonSign =>
    rintro a w ws c hSign b rest h hRead ⟨bs, hNext⟩ ⟨vs, hRest⟩
    rw [readComparisonRest_sign a hSign, hRead]
    rw [hRead] at hNext
    exact ⟨_, hNext.comparisonRest_sign hSign hRest⟩
  case not =>
    rintro ws a rest h hRead ⟨as, hOperand⟩
    rw [readSigned_not]
    exact ⟨_, hOperand.not⟩
  case negative =>
    rintro ws a rest h hRead ⟨as, hOperand⟩
    rw [readSigned_negative]
    exact ⟨_, hOperand.negative⟩
  case unsigned =>
    rintro ws hNot hNegative ⟨values, hOperand⟩
    have hNot := head?_ne_of_not_cons hNot
    have hNegative := head?_ne_of_not_cons hNegative
    rw [readSigned_operand hNot hNegative]
    exact ⟨values, .unsigned hNot hNegative hOperand⟩
  case missing =>
    rw [readOperand]
    exact ⟨_, .missing⟩
  case group =>
    rintro ws a rest h hRead ⟨values, hInside⟩
    rw [readOperand_group]
    exact ⟨_, hInside.group⟩
  case defined => exact ends_defined n
  case word =>
    intro w ws hGroup hDefined
    exact ends_word hBelow hGroup hDefined ws

theorem ends (n : Nat) (ws : List String) : Ends macros n .or ws (readOr ws).1 := by
  induction n generalizing ws with
  | zero => exact ends_level (by simp) ws
  | succ n ih =>
    refine ends_level ?_ ws
    intro m hm ws
    rw [← Nat.succ.inj hm]
    exact ih ws

/-- What a part reads where the condition `c` stands to its left. -/
def Part.read (c : Condition) : Part → List String → Condition × List String
  | or, ws => (readOr ws).1
  | orRest _, ws => (readOrRest c ws).1
  | and, ws => (readAnd ws).1
  | andRest _, ws => (readAndRest c ws).1
  | comparison, ws => (readComparison ws).1
  | comparisonRest _, ws => (readComparisonRest c ws).1
  | signed, ws => (readSigned ws).1
  | operand, ws => (readOperand ws).1

theorem Evaluates.exists_read {n : Nat} {part : Part} {ws rest : List String} {v : Int}
    {values : List Int} (h : Evaluates macros n part ws v rest values) (c : Condition)
    (hLeft : ∀ a ∈ part.left?, valueWithin n macros c = a) :
    ∃ c', valueWithin n macros c' = v ∧ part.read c ws = (c', rest) := by
  induction h generalizing c with
  | or _ _ ihFirst ihRest =>
    obtain ⟨a, hA, hFirst⟩ := ihFirst c (by simp [Part.left?])
    obtain ⟨b, hB, hRest⟩ := ihRest a (by simpa [Part.left?] using hA)
    simp only [Part.read] at hFirst hRest ⊢
    rw [readOr_eq, hFirst, hRest]
    exact ⟨b, hB, rfl⟩
  | orRest_sign _ _ ihNext ihRest =>
    obtain ⟨b, rfl, hNext⟩ := ihNext c (by simp [Part.left?])
    obtain rfl := hLeft _ rfl
    obtain ⟨r, hR, hRest⟩ := ihRest (.or c b) (by simp [Part.left?, valueWithin, value])
    simp only [Part.read] at hNext hRest ⊢
    rw [readOrRest_sign, hNext, hRest]
    exact ⟨r, hR, rfl⟩
  | orRest_stop hStop => exact ⟨c, hLeft _ rfl, readOrRest_stop c hStop⟩
  | and _ _ ihFirst ihRest =>
    obtain ⟨a, hA, hFirst⟩ := ihFirst c (by simp [Part.left?])
    obtain ⟨b, hB, hRest⟩ := ihRest a (by simpa [Part.left?] using hA)
    simp only [Part.read] at hFirst hRest ⊢
    rw [readAnd_eq, hFirst, hRest]
    exact ⟨b, hB, rfl⟩
  | andRest_sign _ _ ihNext ihRest =>
    obtain ⟨b, rfl, hNext⟩ := ihNext c (by simp [Part.left?])
    obtain rfl := hLeft _ rfl
    obtain ⟨r, hR, hRest⟩ := ihRest (.and c b) (by simp [Part.left?, valueWithin, value])
    simp only [Part.read] at hNext hRest ⊢
    rw [readAndRest_sign, hNext, hRest]
    exact ⟨r, hR, rfl⟩
  | andRest_stop hStop => exact ⟨c, hLeft _ rfl, readAndRest_stop c hStop⟩
  | comparison _ _ ihFirst ihRest =>
    obtain ⟨a, hA, hFirst⟩ := ihFirst c (by simp [Part.left?])
    obtain ⟨b, hB, hRest⟩ := ihRest a (by simpa [Part.left?] using hA)
    simp only [Part.read] at hFirst hRest ⊢
    rw [readComparison_eq, hFirst, hRest]
    exact ⟨b, hB, rfl⟩
  | @comparisonRest_sign _ _ _ _ _ _ _ _ _ _ sign hSign _ _ ihNext ihRest =>
    obtain ⟨b, rfl, hNext⟩ := ihNext c (by simp [Part.left?])
    obtain rfl := hLeft _ rfl
    obtain ⟨r, hR, hRest⟩ := ihRest (.compare sign c b) (by simp [Part.left?, valueWithin, value])
    simp only [Part.read] at hNext hRest ⊢
    rw [readComparisonRest_sign c hSign, hNext, hRest]
    exact ⟨r, hR, rfl⟩
  | comparisonRest_stop hStop => exact ⟨c, hLeft _ rfl, readComparisonRest_stop c hStop⟩
  | not _ ih =>
    obtain ⟨a, rfl, hOperand⟩ := ih c (by simp [Part.left?])
    simp only [Part.read] at hOperand ⊢
    rw [readSigned_not, hOperand]
    exact ⟨.not a, rfl, rfl⟩
  | negative _ ih =>
    obtain ⟨a, rfl, hOperand⟩ := ih c (by simp [Part.left?])
    simp only [Part.read] at hOperand ⊢
    rw [readSigned_negative, hOperand]
    exact ⟨.negative a, rfl, rfl⟩
  | unsigned hNot hNegative _ ih =>
    obtain ⟨a, hA, hOperand⟩ := ih c (by simp [Part.left?])
    exact ⟨a, hA, (readSigned_operand hNot hNegative).trans hOperand⟩
  | missing =>
    simp only [Part.read]
    rw [readOperand]
    exact ⟨.literal 0, rfl, rfl⟩
  | group _ ih =>
    obtain ⟨a, hA, hInside⟩ := ih c (by simp [Part.left?])
    simp only [Part.read] at hInside ⊢
    rw [readOperand_group, hInside]
    exact ⟨a, hA, rfl⟩
  | @definedGroup _ ws => exact ⟨.isDefined (ws.head?.getD ""), rfl, readOperand_defined _⟩
  | @defined _ ws hWord =>
    refine ⟨.isDefined (ws.head?.getD ""), rfl, (readOperand_defined ws).trans ?_⟩
    unfold readDefined
    split
    · exact absurd rfl hWord
    · rfl
  | @number _ _ _ k hGroup hDefined hNumber =>
    refine ⟨.literal k, rfl, (readOperand_word hGroup hDefined _).trans ?_⟩
    rw [ofWord, hNumber]
  | @replaced n w ws text v rest vs hGroup hDefined hNumber hText _ ih =>
    obtain ⟨a, hA, hReplaced⟩ := ih c (by simp [Part.left?])
    refine ⟨.name w, ?_, (readOperand_word hGroup hDefined ws).trans (by rw [ofWord, hNumber])⟩
    have hRead : Condition.read text = a := congrArg Prod.fst hReplaced
    simp only [valueWithin, value, worthWithin, hText]
    rw [evaluateWithin_eq, hRead]
    exact hA
  | @unknown n w ws hGroup hDefined hNumber hText =>
    refine ⟨.name w, ?_, (readOperand_word hGroup hDefined ws).trans (by rw [ofWord, hNumber])⟩
    cases n with
    | zero => rfl
    | succ n =>
      have hNone : macros.get? w = none := hText.resolve_right (by simp)
      simp only [valueWithin, value, worthWithin, hNone]

def InRange (v : Int) : Prop :=
  -(2 ^ 63 - 1) ≤ v ∧ v ≤ 2 ^ 63 - 1

instance (v : Int) : Decidable (InRange v) :=
  inferInstanceAs (Decidable (_ ∧ _))

theorem inRange_ofBool (b : Bool) : InRange (ofBool b) := by
  cases b <;> decide

theorem InRange.neg {v : Int} (h : InRange v) : InRange (-v) := by
  unfold InRange at *
  omega

theorem lt_of_number? {base n : Nat} {digits : List Char} (h : number? base digits = some n) :
    n < 2 ^ 63 := by
  unfold number? at h
  split at h
  · cases h
  · exact of_decide_eq_true (Option.filter_eq_some_iff.mp h).2

theorem lt_of_integer? {word : List Char} {n : Nat} (h : integer? word = some n) : n < 2 ^ 63 := by
  unfold integer? at h
  split at h
  · split at h <;> exact lt_of_number? h
  · cases h

theorem inRange_joined {as vs : List Int} (has : ∀ w ∈ as, InRange w) (hvs : ∀ w ∈ vs, InRange w)
    (b : Bool) : ∀ w ∈ vs ++ ofBool b :: as, InRange w :=
  List.forall_mem_append.mpr ⟨hvs, List.forall_mem_cons.mpr ⟨inRange_ofBool b, has⟩⟩

/-- A part gives a value in range, and computes only such values, if the value to its left is in
range. -/
theorem Evaluates.inRange {n : Nat} {part : Part} {ws rest : List String} {v : Int}
    {values : List Int} (h : Evaluates macros n part ws v rest values)
    (hLeft : ∀ a ∈ part.left?, InRange a) : InRange v ∧ ∀ w ∈ values, InRange w := by
  induction h with
  | or _ _ ihFirst ihRest =>
    obtain ⟨ha, has⟩ := ihFirst (by simp [Part.left?])
    obtain ⟨hv, hvs⟩ := ihRest (by simpa [Part.left?] using ha)
    exact ⟨hv, List.forall_mem_append.mpr ⟨hvs, has⟩⟩
  | orRest_sign _ _ ihNext ihRest =>
    obtain ⟨-, hbs⟩ := ihNext (by simp [Part.left?])
    obtain ⟨hv, hvs⟩ := ihRest (by simp [Part.left?, inRange_ofBool])
    exact ⟨hv, inRange_joined hbs hvs _⟩
  | orRest_stop => exact ⟨hLeft _ rfl, by simp⟩
  | and _ _ ihFirst ihRest =>
    obtain ⟨ha, has⟩ := ihFirst (by simp [Part.left?])
    obtain ⟨hv, hvs⟩ := ihRest (by simpa [Part.left?] using ha)
    exact ⟨hv, List.forall_mem_append.mpr ⟨hvs, has⟩⟩
  | andRest_sign _ _ ihNext ihRest =>
    obtain ⟨-, hbs⟩ := ihNext (by simp [Part.left?])
    obtain ⟨hv, hvs⟩ := ihRest (by simp [Part.left?, inRange_ofBool])
    exact ⟨hv, inRange_joined hbs hvs _⟩
  | andRest_stop => exact ⟨hLeft _ rfl, by simp⟩
  | comparison _ _ ihFirst ihRest =>
    obtain ⟨ha, has⟩ := ihFirst (by simp [Part.left?])
    obtain ⟨hv, hvs⟩ := ihRest (by simpa [Part.left?] using ha)
    exact ⟨hv, List.forall_mem_append.mpr ⟨hvs, has⟩⟩
  | comparisonRest_sign _ _ _ ihNext ihRest =>
    obtain ⟨-, hbs⟩ := ihNext (by simp [Part.left?])
    obtain ⟨hv, hvs⟩ := ihRest (by simp [Part.left?, inRange_ofBool])
    exact ⟨hv, inRange_joined hbs hvs _⟩
  | comparisonRest_stop => exact ⟨hLeft _ rfl, by simp⟩
  | not _ ih =>
    obtain ⟨-, has⟩ := ih (by simp [Part.left?])
    exact ⟨inRange_ofBool _, List.forall_mem_cons.mpr ⟨inRange_ofBool _, has⟩⟩
  | negative _ ih =>
    obtain ⟨ha, has⟩ := ih (by simp [Part.left?])
    exact ⟨ha.neg, List.forall_mem_cons.mpr ⟨ha.neg, has⟩⟩
  | unsigned _ _ _ ih => exact ih (by simp [Part.left?])
  | missing => exact ⟨by decide, by decide⟩
  | group _ ih => exact ih (by simp [Part.left?])
  | definedGroup => exact ⟨inRange_ofBool _, List.forall_mem_singleton.mpr (inRange_ofBool _)⟩
  | defined => exact ⟨inRange_ofBool _, List.forall_mem_singleton.mpr (inRange_ofBool _)⟩
  | @number _ _ _ k _ _ hNumber =>
    have hBound := lt_of_integer? hNumber
    have hRange : InRange k := by
      unfold InRange
      omega
    exact ⟨hRange, List.forall_mem_singleton.mpr hRange⟩
  | replaced _ _ _ _ _ ih => exact ih (by simp [Part.left?])
  | unknown => exact ⟨by decide, by decide⟩

/-- The evaluation of a text comes to an end under each macro table. It gives the value of the
condition, and no value on the way is out of range. -/
theorem evaluation_ends_in_range (text : String) (macros : Macros) :
    (∃ rest values, Evaluates macros 8 .or (split text.toList) (evaluate text macros) rest values) ∧
      ∀ v rest values, Evaluates macros 8 .or (split text.toList) v rest values →
        v = evaluate text macros ∧ ∀ w ∈ values, -(2 ^ 63 - 1) ≤ w ∧ w ≤ 2 ^ 63 - 1 := by
  have hValue : evaluate text macros = valueWithin 8 macros (readOr (split text.toList)).1.1 :=
    evaluateWithin_eq 8 text macros
  constructor
  · have hEnded : Ends macros 8 .or (split text.toList) (readOr (split text.toList)).1 := ends 8 _
    obtain ⟨values, hEnds⟩ := hEnded
    rw [← hValue] at hEnds
    exact ⟨_, values, hEnds⟩
  · intro v rest values hRun
    obtain ⟨c, rfl, hRead⟩ := hRun.exists_read (.literal 0) (by simp [Part.left?])
    have hCondition : (readOr (split text.toList)).1.1 = c := congrArg Prod.fst hRead
    rw [hValue, hCondition]
    exact ⟨rfl, (hRun.inRange (by simp [Part.left?])).2⟩

end SkeletonWeave.Condition
