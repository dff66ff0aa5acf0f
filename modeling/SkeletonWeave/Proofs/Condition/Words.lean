import Mathlib
import SkeletonWeave.Condition.Value

/-!
# Words of a condition as they are written

A text is spaced from words when it holds them in order with white space between
them as one likes, but with some between two words of letters and digits. Such a
text is split into these words again, as long as no two neighbours could be taken
for one long sign. A word that writes a number is read as this number.
-/

set_option autoImplicit false

namespace SkeletonWeave.Condition

open Text (isBlank)

def isPlain (w : String) : Bool :=
  !w.toList.isEmpty && w.toList.all isWordPart

def signs : List String :=
  ["!", "-", "(", ")", "<", ">"] ++ longSigns

/-- Whether a text holds the words in order with white space around them, at least where it would
otherwise make two of them one. -/
inductive Spaced : List String → List Char → Prop
  | nil {blanks : List Char} (hBlanks : ∀ c ∈ blanks, isBlank c = true) : Spaced [] blanks
  | cons {blanks cs : List Char} {w : String} {ws : List String}
      (hBlanks : ∀ c ∈ blanks, isBlank c = true)
      (hApart : isPlain w = true → cs.head?.any isWordPart = false) (hRest : Spaced ws cs) :
      Spaced (w :: ws) (blanks ++ (w.toList ++ cs))

/-- Whether the second word can be taken for the end of a long sign that the first one starts. -/
def Merges (w v : String) : Prop :=
  ∃ c d, w.toList = [c] ∧ v.toList.head? = some d ∧ longSigns.contains (String.ofList [c, d]) = true

theorem split_nil : split [] = [] := by
  rw [split.eq_def]

theorem isBlank_of_isWordPart {c : Char} (h : isWordPart c = true) : isBlank c = false := by
  have hAscii : ∀ n < 128, isWordPart (Char.ofNat n) = true → isBlank (Char.ofNat n) = false := by
    decide
  have hSmall : c.toNat < 128 := by
    simp only [isWordPart, Char.isAlphanum, Char.isAlpha, Char.isUpper, Char.isLower, Char.isDigit,
      Bool.or_eq_true, Bool.and_eq_true, decide_eq_true_eq, beq_iff_eq, ge_iff_le,
      UInt32.le_iff_toNat_le] at h
    rcases h with ((⟨-, h⟩ | ⟨-, h⟩) | ⟨-, h⟩) | rfl
    · exact Nat.lt_of_le_of_lt h (by decide)
    · exact Nat.lt_of_le_of_lt h (by decide)
    · exact Nat.lt_of_le_of_lt h (by decide)
    · decide
  have := hAscii c.toNat hSmall
  rw [Char.ofNat_toNat] at this
  exact this h

theorem split_blanks {blanks : List Char} (h : ∀ c ∈ blanks, isBlank c = true) (cs : List Char) :
    split (blanks ++ cs) = split cs := by
  induction blanks with
  | nil => rfl
  | cons c blanks ih =>
    rw [List.cons_append, split.eq_def]
    simp only [h c (by simp), if_true]
    exact ih fun d hd => h d (List.mem_cons_of_mem c hd)

theorem split_plain {w : String} (h : isPlain w = true) {cs : List Char}
    (hApart : cs.head?.any isWordPart = false) : split (w.toList ++ cs) = w :: split cs := by
  rw [isPlain, Bool.and_eq_true, Bool.not_eq_true', List.isEmpty_eq_false_iff] at h
  obtain ⟨hFilled, hParts⟩ := h
  have hWord : w = String.ofList w.toList := (String.ofList_toList).symm
  obtain ⟨c, part, hText⟩ := List.exists_cons_of_ne_nil hFilled
  rw [hText] at hParts hWord ⊢
  rw [List.all_eq_true] at hParts
  have hTake : (part ++ cs).takeWhile isWordPart = part ∧ (part ++ cs).dropWhile isWordPart = cs := by
    rw [List.takeWhile_append_of_pos fun d hd => hParts d (List.mem_cons_of_mem c hd),
      List.dropWhile_append_of_pos fun d hd => hParts d (List.mem_cons_of_mem c hd)]
    cases cs with
    | nil => simp
    | cons d cs =>
      have hd : isWordPart d = false := hApart
      simp [hd]
  have hPart := hParts c (by simp)
  rw [List.cons_append, split.eq_def]
  simp only [isBlank_of_isWordPart hPart, hPart, Bool.false_eq_true, if_false, if_true, hTake]
  rw [← hWord]

theorem split_short {c : Char} (hBlank : isBlank c = false) (hPart : isWordPart c = false)
    {cs : List Char}
    (hShort : ∀ d ∈ cs.head?, longSigns.contains (String.ofList [c, d]) = false) :
    split (c :: cs) = String.singleton c :: split cs := by
  rw [split.eq_def]
  simp only [hBlank, hPart, Bool.false_eq_true, if_false]
  cases cs with
  | nil => simp only [split_nil]
  | cons d cs => simp only [hShort d rfl, Bool.false_eq_true, if_false]

theorem split_long {c d : Char} (h : longSigns.contains (String.ofList [c, d]) = true)
    (cs : List Char) : split (c :: d :: cs) = String.ofList [c, d] :: split cs := by
  have hStart : isBlank c = false ∧ isWordPart c = false := by
    simp only [longSigns, List.contains_cons, List.contains_nil, Bool.or_false, Bool.or_eq_true,
      beq_iff_eq] at h
    rcases h with h | h | h | h | h | h <;>
    · rw [← String.toList_inj, String.toList_ofList] at h
      cases h
      decide
  rw [split.eq_def]
  simp only [hStart, h, Bool.false_eq_true, if_false, if_true]

theorem sign_cases {w : String} (h : w ∈ signs) :
    (∃ c, w.toList = [c] ∧ isBlank c = false ∧ isWordPart c = false) ∨
      ∃ c d, w.toList = [c, d] ∧ longSigns.contains (String.ofList [c, d]) = true := by
  have hShort : ∀ w ∈ ["!", "-", "(", ")", "<", ">"],
      ∃ c, w.toList = [c] ∧ isBlank c = false ∧ isWordPart c = false := by
    intro w hw
    simp only [List.mem_cons, List.not_mem_nil, or_false] at hw
    rcases hw with rfl | rfl | rfl | rfl | rfl | rfl <;> exact ⟨_, rfl, rfl, rfl⟩
  have hLong : ∀ w ∈ longSigns, ∃ c d, w.toList = [c, d] ∧
      longSigns.contains (String.ofList [c, d]) = true := by
    intro w hw
    simp only [longSigns, List.mem_cons, List.not_mem_nil, or_false] at hw
    rcases hw with rfl | rfl | rfl | rfl | rfl | rfl <;> exact ⟨_, _, rfl, rfl⟩
  rcases List.mem_append.mp h with h | h
  · exact .inl (hShort w h)
  · exact .inr (hLong w h)

theorem ne_blank_of_long {c d : Char} (h : longSigns.contains (String.ofList [c, d]) = true) :
    isBlank d = false := by
  simp only [longSigns, List.contains_cons, List.contains_nil, Bool.or_false, Bool.or_eq_true,
    beq_iff_eq] at h
  rcases h with h | h | h | h | h | h <;>
  · rw [← String.toList_inj, String.toList_ofList] at h
    cases h
    rfl

theorem text_ne_nil {w : String} (h : isPlain w = true ∨ w ∈ signs) : w.toList ≠ [] := by
  rcases h with h | h
  · rw [isPlain, Bool.and_eq_true, Bool.not_eq_true', List.isEmpty_eq_false_iff] at h
    exact h.1
  · rcases sign_cases h with ⟨c, hText, -⟩ | ⟨c, d, hText, -⟩ <;> simp [hText]

theorem Spaced.head?_cases {ws : List String} {cs : List Char} (h : Spaced ws cs)
    (hWords : ∀ w ∈ ws, isPlain w = true ∨ w ∈ signs) {d : Char} (hd : cs.head? = some d) :
    isBlank d = true ∨ ∃ w ∈ ws.head?, w.toList.head? = some d := by
  cases h with
  | nil hBlanks => exact .inl (hBlanks d (List.mem_of_head? hd))
  | @cons blanks cs w ws hBlanks _ _ =>
    cases blanks with
    | cons c blanks =>
      obtain rfl : c = d := Option.some.inj hd
      exact .inl (hBlanks c (by simp))
    | nil =>
      obtain ⟨c, part, hText⟩ := List.exists_cons_of_ne_nil (text_ne_nil (hWords w (by simp)))
      rw [hText] at hd
      exact .inr ⟨w, rfl, by rw [hText]; exact hd⟩

theorem split_spaced {ws : List String} {cs : List Char} (h : Spaced ws cs)
    (hWords : ∀ w ∈ ws, isPlain w = true ∨ w ∈ signs)
    (hMerges : ws.IsChain fun w v => ¬Merges w v) : split cs = ws := by
  induction h with
  | nil hBlanks =>
    have hSplit := split_blanks hBlanks []
    rw [List.append_nil] at hSplit
    rw [hSplit, split_nil]
  | @cons blanks cs w ws hBlanks hApart hRest ih =>
    have hRestWords : ∀ v ∈ ws, isPlain v = true ∨ v ∈ signs := fun v hv =>
      hWords v (List.mem_cons_of_mem w hv)
    have hSplit := ih hRestWords hMerges.tail
    rw [split_blanks hBlanks]
    rcases hWords w (by simp) with hPlain | hSign
    · rw [split_plain hPlain (hApart hPlain), hSplit]
    · rcases sign_cases hSign with ⟨c, hText, hBlank, hPart⟩ | ⟨c, d, hText, hLong⟩
      · have hShort : ∀ d ∈ cs.head?, longSigns.contains (String.ofList [c, d]) = false := by
          intro d hd
          by_contra hLong
          rw [Bool.not_eq_false] at hLong
          rcases hRest.head?_cases hRestWords hd with hd | ⟨v, hv, hd⟩
          · rw [ne_blank_of_long hLong] at hd
            cases hd
          · exact hMerges.rel_head? hv ⟨c, d, hText, hd, hLong⟩
        have hWord : String.singleton c = w := String.toList_inj.mp (by simp [hText])
        rw [hText, List.singleton_append, split_short hBlank hPart hShort, hSplit, hWord]
      · rw [hText, List.cons_append, List.singleton_append, split_long hLong, hSplit, ← hText, String.ofList_toList]

def sizeLetters : List Char := ['u', 'U', 'l', 'L']

/-- Whether a word writes a number: in decimal digits, or in hexadecimal ones of either case after
`0x`, which may start with zeros. Size letters may follow. -/
inductive WritesNumber (n : Nat) : String → Prop
  | decimal (letters : List Char) (hLetters : ∀ c ∈ letters, c ∈ sizeLetters) :
      WritesNumber n (String.ofList (Nat.toDigits 10 n ++ letters))
  | hexadecimal (mark : Char) (zeros : Nat) (digits letters : List Char)
      (hMark : mark = 'x' ∨ mark = 'X')
      (hDigits : digits.map Char.toLower = List.replicate zeros '0' ++ Nat.toDigits 16 n)
      (hLetters : ∀ c ∈ letters, c ∈ sizeLetters) :
      WritesNumber n (String.ofList ('0' :: mark :: digits ++ letters))

theorem digitValue?_toLower (c : Char) : digitValue? 16 c.toLower = digitValue? 16 c := by
  have hAscii : ∀ n < 128, digitValue? 16 (Char.ofNat n).toLower = digitValue? 16 (Char.ofNat n) := by
    decide
  by_cases h : c.toNat < 128
  · have := hAscii c.toNat h
    rwa [Char.ofNat_toNat] at this
  · have hUpper : ¬(c.val ≥ 'A'.val ∧ c.val ≤ 'Z'.val) := by
      rintro ⟨-, hLast⟩
      have := UInt32.le_iff_toNat_le.mp hLast
      change c.toNat ≤ 90 at this
      omega
    rw [Char.toLower, dif_neg hUpper]

theorem digitValue?_digitChar {base d : Nat} (hBase : base ≤ 16) (h : d < base) :
    digitValue? base d.digitChar = some d := by
  have hSmall : d < 16 := by omega
  interval_cases d <;> simp [digitValue?, Nat.digitChar, h]

theorem exists_digit_of_mem_toDigits {base n : Nat} (hBase : 1 < base) {c : Char}
    (h : c ∈ Nat.toDigits base n) : ∃ d < base, c = d.digitChar := by
  induction n using Nat.strongRecOn with
  | ind n ih =>
    rw [Nat.toDigits_eq_if hBase] at h
    split at h
    · next hSmall => exact ⟨n, hSmall, List.mem_singleton.mp h⟩
    · next hLarge =>
      rcases List.mem_append.mp h with h | h
      · exact ih (n / base) (Nat.div_lt_self (by omega) hBase) h
      · exact ⟨n % base, Nat.mod_lt n (by omega), List.mem_singleton.mp h⟩

theorem isSome_digitValue?_of_lower {n zeros : Nat} {digits : List Char}
    (hDigits : digits.map Char.toLower = List.replicate zeros '0' ++ Nat.toDigits 16 n) :
    ∀ c ∈ digits, (digitValue? 16 c).isSome = true := by
  intro c hc
  have hLower : c.toLower ∈ List.replicate zeros '0' ++ Nat.toDigits 16 n := by
    rw [← hDigits]
    exact List.mem_map_of_mem hc
  obtain ⟨d, hd, hChar⟩ : ∃ d < 16, c.toLower = d.digitChar := by
    rcases List.mem_append.mp hLower with h | h
    · exact ⟨0, by decide, List.eq_of_mem_replicate h⟩
    · exact exists_digit_of_mem_toDigits (by decide) h
  rw [← digitValue?_toLower, hChar, digitValue?_digitChar (by decide) hd]
  rfl

theorem isWordPart_of_digitValue? {base : Nat} {c : Char} (h : (digitValue? base c).isSome = true) :
    isWordPart c = true := by
  have hClass : c.isDigit = true ∨ ('a' ≤ c ∧ c ≤ 'f') ∨ 'A' ≤ c ∧ c ≤ 'F' := by
    by_contra hNone
    rw [not_or, not_or] at hNone
    simp [digitValue?, hNone] at h
  simp only [isWordPart, Char.isAlphanum, Char.isAlpha, Char.isUpper, Char.isLower, Bool.or_eq_true,
    Bool.and_eq_true, decide_eq_true_eq, beq_iff_eq]
  rcases hClass with hDigit | ⟨hFirst, hLast⟩ | ⟨hFirst, hLast⟩
  · exact .inl (.inr hDigit)
  · exact .inl (.inl (.inr ⟨hFirst, Char.le_trans hLast (by decide)⟩))
  · exact .inl (.inl (.inl ⟨hFirst, Char.le_trans hLast (by decide)⟩))

theorem isPlain_of_writesNumber {n : Nat} {w : String} (h : WritesNumber n w) : isPlain w = true := by
  have hLetter : ∀ c ∈ sizeLetters, isWordPart c = true := List.all_eq_true.mp (by decide)
  cases h with
  | decimal letters hLetters =>
    rw [isPlain, String.toList_ofList, Bool.and_eq_true, List.all_append, Bool.and_eq_true,
      List.all_eq_true, List.all_eq_true]
    refine ⟨by simp [Nat.toDigits_ne_nil], ?_, fun c hc => hLetter c (hLetters c hc)⟩
    intro c hc
    have hDigit := Nat.isDigit_of_mem_toDigits (by decide) (by decide) hc
    simp [isWordPart, Char.isAlphanum, hDigit]
  | hexadecimal mark zeros digits letters hMark hDigits hLetters =>
    have hDigit := isSome_digitValue?_of_lower hDigits
    rw [isPlain, String.toList_ofList, Bool.and_eq_true, List.all_append, Bool.and_eq_true,
      List.all_eq_true, List.all_eq_true]
    refine ⟨rfl, ?_, fun c hc => hLetter c (hLetters c hc)⟩
    intro c hc
    rcases List.mem_cons.mp hc with rfl | hc
    · rfl
    · rcases List.mem_cons.mp hc with rfl | hc
      · rcases hMark with rfl | rfl <;> rfl
      · exact isWordPart_of_digitValue? (hDigit c hc)

theorem foldlM_toDigits {base : Nat} (hBase : 1 < base) (hBound : base ≤ 16) (n : Nat) :
    (Nat.toDigits base n).foldlM
      (fun value c => (digitValue? base c).map (value * base + ·)) 0 = some n := by
  -- by induction on the number, whose last digit is read last
  induction n using Nat.strongRecOn with
  | ind n ih =>
    rw [Nat.toDigits_eq_if hBase]
    split
    · next hSmall => simp [digitValue?_digitChar hBound hSmall]
    · next hLarge =>
      have hDigit := digitValue?_digitChar hBound (Nat.mod_lt n (by omega : base > 0))
      rw [List.foldlM_append, ih (n / base) (Nat.div_lt_self (by omega) hBase)]
      simp [hDigit, Nat.div_add_mod']

theorem foldlM_zeros (zeros : Nat) (digits : List Char) :
    (List.replicate zeros '0' ++ digits).foldlM
      (fun value c => (digitValue? 16 c).map (value * 16 + ·)) 0 =
    digits.foldlM (fun value c => (digitValue? 16 c).map (value * 16 + ·)) 0 := by
  induction zeros with
  | zero => rfl
  | succ zeros ih => exact ih

theorem number?_eq_some {base n : Nat} {digits : List Char} (hFilled : digits ≠ [])
    (hRead : digits.foldlM (fun value c => (digitValue? base c).map (value * base + ·)) 0 = some n)
    (hBound : n < 2 ^ 63) : number? base digits = some n := by
  have hSize : n < UInt64.size / 2 := hBound
  rw [number?, List.isEmpty_eq_false_iff.mpr hFilled, hRead]
  simp [hSize]

theorem integer?_decimal {n : Nat} (hBound : n < 2 ^ 63) {letters : List Char}
    (hLetters : ∀ c ∈ letters, c ∈ sizeLetters) :
    integer? (Nat.toDigits 10 n ++ letters) = some n := by
  have hDigit : ∀ c ∈ Nat.toDigits 10 n, c.isDigit = true := fun c hc =>
    Nat.isDigit_of_mem_toDigits (by decide) (by decide) hc
  have hHead : (Nat.toDigits 10 n ++ letters).head?.any Char.isDigit = true := by
    obtain ⟨c, cs, hDigits⟩ := List.exists_cons_of_ne_nil (Nat.toDigits_ne_nil (n := n) (b := 10))
    rw [hDigits]
    exact hDigit c (by rw [hDigits]; simp)
  have hKept : Text.dropEndWhile (['u', 'U', 'l', 'L'].contains ·) (Nat.toDigits 10 n ++ letters) =
      Nat.toDigits 10 n := by
    apply Text.dropEndWhile_append
    · intro c hc
      exact List.contains_iff_mem.mpr (hLetters c hc)
    · intro c hc
      have hc := hDigit c (List.mem_of_getLast? hc)
      by_contra hLetter
      rw [Bool.not_eq_false, List.contains_iff_mem] at hLetter
      simp only [List.mem_cons, List.not_mem_nil, or_false] at hLetter
      rcases hLetter with rfl | rfl | rfl | rfl <;> cases hc
  rw [integer?, if_pos hHead, hKept]
  split
  · next hDigits =>
    have := hDigit 'x' (by rw [hDigits]; simp)
    cases this
  · next hDigits =>
    have := hDigit 'X' (by rw [hDigits]; simp)
    cases this
  · exact number?_eq_some Nat.toDigits_ne_nil (foldlM_toDigits (by decide) (by decide) n) hBound

theorem integer?_hexadecimal {n : Nat} (hBound : n < 2 ^ 63) {mark : Char} {zeros : Nat}
    {digits letters : List Char} (hMark : mark = 'x' ∨ mark = 'X')
    (hDigits : digits.map Char.toLower = List.replicate zeros '0' ++ Nat.toDigits 16 n)
    (hLetters : ∀ c ∈ letters, c ∈ sizeLetters) :
    integer? ('0' :: mark :: digits ++ letters) = some n := by
  have hFilled : digits ≠ [] := by
    rintro rfl
    have := List.append_eq_nil_iff.mp hDigits.symm
    exact Nat.toDigits_ne_nil this.2
  have hRead : digits.foldlM (fun value c => (digitValue? 16 c).map (value * 16 + ·)) 0 = some n := by
    have hLower := foldlM_zeros zeros (Nat.toDigits 16 n)
    rw [← hDigits, List.foldlM_map, foldlM_toDigits (by decide) (by decide)] at hLower
    simpa only [digitValue?_toLower] using hLower
  have hDigit := isSome_digitValue?_of_lower hDigits
  have hKept : Text.dropEndWhile (['u', 'U', 'l', 'L'].contains ·) ('0' :: mark :: digits ++ letters) =
      '0' :: mark :: digits := by
    apply Text.dropEndWhile_append
    · intro c hc
      exact List.contains_iff_mem.mpr (hLetters c hc)
    · intro c hc
      rw [List.getLast?_cons_cons, List.getLast?_cons_of_ne_nil hFilled] at hc
      have hc := hDigit c (List.mem_of_getLast? hc)
      by_contra hLetter
      rw [Bool.not_eq_false, List.contains_iff_mem] at hLetter
      simp only [List.mem_cons, List.not_mem_nil, or_false] at hLetter
      rcases hLetter with rfl | rfl | rfl | rfl <;> cases hc
  have hHead : ('0' :: mark :: digits ++ letters).head?.any Char.isDigit = true := rfl
  rw [integer?, if_pos hHead, hKept]
  rcases hMark with rfl | rfl
  · exact number?_eq_some hFilled hRead hBound
  · exact number?_eq_some hFilled hRead hBound

theorem integer?_of_writesNumber {n : Nat} {w : String} (h : WritesNumber n w)
    (hBound : n < 2 ^ 63) : integer? w.toList = some n := by
  cases h with
  | decimal letters hLetters =>
    rw [String.toList_ofList]
    exact integer?_decimal hBound hLetters
  | hexadecimal mark zeros digits letters hMark hDigits hLetters =>
    rw [String.toList_ofList]
    exact integer?_hexadecimal hBound hMark hDigits hLetters

end SkeletonWeave.Condition
