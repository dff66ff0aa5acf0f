import Mathlib
import SkeletonWeave.Text.Case

/-!
# Texts that are alike but for case

Lower case hides the case of every letter but sigma, which has two lower forms.
The lower case of a text takes one of them at the end of a word, so a text that
is part of another need not have its lower case in the other's.
Main statement: for which texts this can happen.
-/

set_option autoImplicit false

namespace SkeletonWeave.Text

open Unicode

def isSigma (c : Char) : Bool :=
  c == 'Σ' || c == 'σ' || c == 'ς'

/-- What remains of a character when its case is ignored. -/
def caselessChar (c : Char) : List Char :=
  if isSigma c then ['σ'] else lowerChar c

def caseless (cs : List Char) : List Char :=
  cs.flatMap caselessChar

def mergeSigma (c : Char) : Char :=
  if isSigma c then 'σ' else c

theorem isSigma_iff_toNat (c : Char) :
    isSigma c = true ↔ c.toNat = 0x3A3 ∨ c.toNat = 0x3C3 ∨ c.toNat = 0x3C2 := by
  simp only [isSigma, Bool.or_eq_true, beq_iff_eq, ← Char.toNat_inj, or_assoc]
  rfl

theorem eq_capital_sigma_iff (c : Char) : c = 'Σ' ↔ c.toNat = 0x3A3 := by
  rw [← Char.toNat_inj]
  rfl

theorem lowerChar_of_isSigma {c : Char} (h : isSigma c = true) (hSmall : c ≠ 'Σ') :
    lowerChar c = [c] := by
  rw [isSigma, Bool.or_eq_true, Bool.or_eq_true, beq_iff_eq, beq_iff_eq, beq_iff_eq] at h
  rcases h with (rfl | rfl) | rfl
  · exact absurd rfl hSmall
  · decide +kernel
  · decide +kernel

theorem eq_of_image?_sigma {r : Run} (hr : r ∈ lowerRuns) {n m : Nat}
    (hm : m = 0x3A3 ∨ m = 0x3C3 ∨ m = 0x3C2) (h : r.image? n = some m) : n = 0x3A3 := by
  have hOrigins : ∀ r ∈ lowerRuns, ∀ m ∈ [0x3A3, 0x3C3, 0x3C2],
      r.image? ((m : Nat) - r.shift : Int).toNat = some m →
        ((m : Nat) - r.shift : Int).toNat = 0x3A3 := by
    decide +kernel
  have hOrigin : ((m : Nat) - r.shift : Int).toNat = n := by
    rw [Run.image?] at h
    split at h
    · have := Option.some.inj h
      omega
    · cases h
  exact hOrigin ▸ hOrigins r hr m (by simpa using hm) (hOrigin ▸ h)

theorem toNat_toLower_lt {c : Char} (h : c.toNat < 128) : c.toLower.toNat < 128 := by
  have hAscii : ∀ n < 128, (Char.ofNat n).toLower.toNat < 128 := by decide
  have := hAscii c.toNat h
  rwa [Char.ofNat_toNat] at this

theorem toNat_ofNat_eq_or (n : Nat) : (Char.ofNat n).toNat = n ∨ (Char.ofNat n).toNat = 0 := by
  unfold Char.ofNat
  split
  · exact .inl rfl
  · exact .inr rfl

theorem not_isSigma_of_mem_lowerChar {c d : Char} (hc : ¬isSigma c = true) (hd : d ∈ lowerChar c) :
    ¬isSigma d = true := by
  rw [isSigma_iff_toNat] at hc ⊢
  intro hSigma
  unfold lowerChar at hd
  split at hd
  · next hAscii =>
    have := toNat_toLower_lt hAscii
    rw [← List.mem_singleton.mp hd] at this
    omega
  · split at hd
    · rw [List.mem_pair] at hd
      rcases hd with rfl | rfl
      · revert hSigma
        decide
      · revert hSigma
        decide
    · split at hd
      · next n hFound =>
        obtain ⟨r, hr, hImage⟩ := List.exists_of_findSome?_eq_some hFound
        rw [List.mem_singleton.mp hd] at hSigma
        rcases toNat_ofNat_eq_or n with hPoint | hPoint
        · rw [hPoint] at hSigma
          exact hc (.inl (eq_of_image?_sigma hr hSigma hImage))
        · omega
      · obtain rfl := List.mem_singleton.mp hd
        exact hc hSigma

theorem mergeSigma_of_not_isSigma {c : Char} (h : ¬isSigma c = true) : mergeSigma c = c :=
  if_neg h

theorem map_mergeSigma_eq_self {cs : List Char} (h : ∀ c ∈ cs, ¬isSigma c = true) :
    cs.map mergeSigma = cs := by
  rw [List.map_congr_left fun c hc => mergeSigma_of_not_isSigma (h c hc), List.map_id']

theorem map_mergeSigma_lowerChar {c : Char} (h : c ≠ 'Σ') :
    (lowerChar c).map mergeSigma = caselessChar c := by
  rw [caselessChar]
  by_cases hSigma : isSigma c = true
  · rw [if_pos hSigma, lowerChar_of_isSigma hSigma h]
    simp [mergeSigma, hSigma]
  · rw [if_neg hSigma]
    exact map_mergeSigma_eq_self fun d hd => not_isSigma_of_mem_lowerChar hSigma hd

theorem map_mergeSigma_lowerAfter (before cs : List Char) :
    (lowerAfter before cs).map mergeSigma = caseless cs := by
  induction cs generalizing before with
  | nil => rfl
  | cons c cs ih =>
    rw [lowerAfter, caseless, List.flatMap_cons, ← caseless]
    split
    · next hCapital =>
      obtain rfl := (eq_capital_sigma_iff c).mpr hCapital
      rw [List.map_cons, ih]
      split <;> rfl
    · next hOther =>
      rw [List.map_append, ih, map_mergeSigma_lowerChar (mt (eq_capital_sigma_iff c).mp hOther)]

theorem map_mergeSigma_lower (cs : List Char) : (lower cs).map mergeSigma = caseless cs :=
  map_mergeSigma_lowerAfter [] cs

theorem not_isSigma_of_mem_caseless {cs : List Char} (h : ∀ c ∈ cs, ¬isSigma c = true) :
    ∀ d ∈ caseless cs, ¬isSigma d = true := by
  intro d hd
  obtain ⟨c, hc, hd⟩ := List.mem_flatMap.mp hd
  rw [caselessChar, if_neg (h c hc)] at hd
  exact not_isSigma_of_mem_lowerChar (h c hc) hd

theorem eq_of_map_mergeSigma {as bs : List Char} (hMerged : as.map mergeSigma = bs)
    (hNone : ∀ d ∈ bs, ¬isSigma d = true) : as = bs := by
  rw [← hMerged, map_mergeSigma_eq_self]
  intro c hc hSigma
  have hMem : mergeSigma c ∈ bs := hMerged ▸ List.mem_map_of_mem hc
  rw [mergeSigma, if_pos hSigma] at hMem
  exact hNone _ hMem rfl

theorem lower_eq_caseless {cs : List Char} (h : ∀ c ∈ cs, ¬isSigma c = true) :
    lower cs = caseless cs :=
  eq_of_map_mergeSigma (map_mergeSigma_lower cs) (not_isSigma_of_mem_caseless h)

theorem caseless_of_lower {part cs : List Char} (h : lower part <:+: lower cs) :
    caseless part <:+: caseless cs := by
  rw [← map_mergeSigma_lower, ← map_mergeSigma_lower]
  exact h.map mergeSigma

/-- A text without sigma is part of another but for case exactly if its lower case is part of the
other's. -/
theorem lower_infix_iff {part : List Char} (hPart : ∀ c ∈ part, ¬isSigma c = true)
    (cs : List Char) : lower part <:+: lower cs ↔ caseless part <:+: caseless cs := by
  refine ⟨caseless_of_lower, ?_⟩
  rintro ⟨before, after, hText⟩
  rw [← map_mergeSigma_lower cs] at hText
  obtain ⟨front, back, hCut, hFront, -⟩ := List.map_eq_append_iff.mp hText.symm
  obtain ⟨first, middle, rfl, -, hMiddle⟩ := List.map_eq_append_iff.mp hFront
  have hSame := eq_of_map_mergeSigma hMiddle (not_isSigma_of_mem_caseless hPart)
  rw [hCut, hSame, lower_eq_caseless hPart]
  exact List.infix_append first (caseless part) back

theorem isCased_of_isSigma {c : Char} (h : isSigma c = true) :
    isCased c = true ∧ isCaseIgnorable c = false := by
  rw [isSigma, Bool.or_eq_true, Bool.or_eq_true, beq_iff_eq, beq_iff_eq, beq_iff_eq] at h
  rcases h with (rfl | rfl) | rfl
  · decide +kernel
  · decide +kernel
  · decide +kernel

theorem startsCased_append_cons {c d : Char} (hc : isSigma c = true) (hd : isSigma d = true)
    (cs rest rest' : List Char) :
    startsCased (cs ++ c :: rest) = startsCased (cs ++ d :: rest') := by
  induction cs with
  | nil =>
    obtain ⟨hCased, hKept⟩ := isCased_of_isSigma hc
    obtain ⟨hCased', hKept'⟩ := isCased_of_isSigma hd
    simp [startsCased, hCased, hKept, hCased', hKept']
  | cons e cs ih =>
    by_cases hPassed : isCaseIgnorable e = true
    · simpa [startsCased, List.dropWhile_cons, hPassed] using ih
    · simp [startsCased, hPassed]

theorem lowerAfter_append_sigma {c d : Char} (hc : isSigma c = true) (hd : isSigma d = true)
    (passed before cs : List Char) :
    lowerAfter (passed ++ c :: before) cs = lowerAfter (passed ++ d :: before) cs := by
  induction cs generalizing passed with
  | nil => rfl
  | cons e cs ih =>
    have hNext := ih (e :: passed)
    rw [List.cons_append, List.cons_append] at hNext
    rw [lowerAfter, lowerAfter, startsCased_append_cons hc hd passed before before, hNext]

theorem exists_lowerAfter_append {c : Char} (hc : isSigma c = true) (before front back : List Char) :
    ∃ first c' later, isSigma c' = true ∧ c' ≠ 'Σ' ∧
      lowerAfter before (front ++ c :: back) = first ++ c' :: later ∧
      ∀ d, isSigma d = true → d ≠ 'Σ' →
        lowerAfter before (front ++ d :: back) = first ++ d :: later := by
  induction front generalizing before with
  | nil =>
    have hSmall (d : Char) (hd : isSigma d = true) (hNot : d ≠ 'Σ') :
        lowerAfter before (d :: back) = d :: lowerAfter (c :: before) back := by
      have hSame := lowerAfter_append_sigma hd hc [] before back
      rw [List.nil_append, List.nil_append] at hSame
      rw [lowerAfter, if_neg (mt (eq_capital_sigma_iff d).mpr hNot), lowerChar_of_isSigma hd hNot,
        hSame, List.singleton_append]
    by_cases hCapital : c = 'Σ'
    · subst hCapital
      refine ⟨[], Char.ofNat (if startsCased before && !startsCased back then 0x3C2 else 0x3C3),
        lowerAfter ('Σ' :: before) back, ?_, ?_, rfl, hSmall⟩
      · split <;> rfl
      · split <;> decide
    · exact ⟨[], c, lowerAfter (c :: before) back, hc, hCapital, hSmall c hc hCapital, hSmall⟩
  | cons e front ih =>
    obtain ⟨first, c', later, hc', hNot, hHere, hOther⟩ := ih (e :: before)
    have hAhead (d : Char) (hd : isSigma d = true) :
        startsCased (front ++ d :: back) = startsCased (front ++ c :: back) :=
      startsCased_append_cons hd hc front back back
    by_cases hCapital : e.toNat = 0x3A3
    · refine ⟨Char.ofNat (if startsCased before && !startsCased (front ++ c :: back) then 0x3C2
        else 0x3C3) :: first, c', later, hc', hNot, ?_, fun d hd hSmall => ?_⟩
      · rw [List.cons_append, lowerAfter, if_pos hCapital, hHere]
        rfl
      · rw [List.cons_append, lowerAfter, if_pos hCapital, hOther d hd hSmall, hAhead d hd]
        rfl
    · refine ⟨lowerChar e ++ first, c', later, hc', hNot, ?_, fun d hd hSmall => ?_⟩
      · rw [List.cons_append, lowerAfter, if_neg hCapital, hHere, List.append_assoc]
      · rw [List.cons_append, lowerAfter, if_neg hCapital, hOther d hd hSmall, List.append_assoc]

theorem exists_missed_by_lower {part : List Char} {c : Char} (hMem : c ∈ part)
    (hc : isSigma c = true) :
    ∃ cs, caseless part <:+: caseless cs ∧ ¬lower part <:+: lower cs := by
  obtain ⟨front, back, rfl⟩ := List.append_of_mem hMem
  obtain ⟨first, c', later, hc', hSmall, hHere, hOther⟩ := exists_lowerAfter_append hc [] front back
  obtain ⟨d, hd, hSmall', hDiffers⟩ : ∃ d, isSigma d = true ∧ d ≠ 'Σ' ∧ d ≠ c' := by
    by_cases hFinal : c' = 'ς'
    · exact ⟨'σ', rfl, by decide, by rw [hFinal]; decide⟩
    · exact ⟨'ς', rfl, by decide, Ne.symm hFinal⟩
  have hTurned := hOther d hd hSmall'
  refine ⟨front ++ d :: back, ?_, ?_⟩
  · have hAlike : caseless (front ++ c :: back) = caseless (front ++ d :: back) := by
      simp [caseless, caselessChar, hc, hd]
    rw [hAlike]
  · rw [lower, lower, hHere, hTurned]
    intro hInfix
    -- both lower forms have one length, so one could only be in the other if they were the same
    have hSame := hInfix.eq_of_length (by simp)
    simp only [List.append_cancel_left_eq, List.cons.injEq] at hSame
    exact hDiffers hSame.1.symm

/-- The lower case of a text tells in which texts it is but for case, exactly if it has no sigma. -/
theorem lower_infix_iff_caseless_infix_iff (part : List Char) :
    (∀ cs, lower part <:+: lower cs ↔ caseless part <:+: caseless cs) ↔
      ∀ c ∈ part, ¬isSigma c = true := by
  constructor
  · intro h c hMem hSigma
    obtain ⟨cs, hPart, hNot⟩ := exists_missed_by_lower hMem hSigma
    exact hNot ((h cs).mpr hPart)
  · exact lower_infix_iff

end SkeletonWeave.Text
