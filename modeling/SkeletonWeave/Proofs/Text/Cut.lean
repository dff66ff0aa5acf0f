import SkeletonWeave.Text.Position

/-!
# Cuts of texts

A position that is a boundary cuts a text in one way. Later boundaries cut what
follows an earlier one, and the bytes up to a boundary are the text before it.
-/

set_option autoImplicit false

namespace SkeletonWeave.Text

theorem byteLength_pos {cs : List Char} (h : cs ≠ []) : 0 < byteLength cs := by
  obtain ⟨c, cs, rfl⟩ := List.exists_cons_of_ne_nil h
  have := c.utf8Size_pos
  rw [byteLength_cons]
  omega

theorem isBoundary_iff_isSome (cs : List Char) (n : Nat) :
    IsBoundary cs n ↔ (splitAtByte? n cs).isSome = true := by
  rw [Option.isSome_iff_exists]
  constructor
  · rintro ⟨before, after, hCut⟩
    exact ⟨(before, after), (splitAtByte?_eq_some_iff n cs before after).mpr hCut⟩
  · rintro ⟨⟨before, after⟩, hCut⟩
    exact ⟨before, after, (splitAtByte?_eq_some_iff n cs before after).mp hCut⟩

instance (cs : List Char) (n : Nat) : Decidable (IsBoundary cs n) :=
  decidable_of_iff _ (isBoundary_iff_isSome cs n).symm

theorem cut_unique {as as' bs bs' : List Char} (hText : as ++ bs = as' ++ bs')
    (hLength : byteLength as = byteLength as') : as = as' ∧ bs = bs' := by
  have hCut := (splitAtByte?_eq_some_iff (byteLength as) (as ++ bs) as bs).mpr ⟨rfl, rfl⟩
  rw [(splitAtByte?_eq_some_iff _ _ as' bs').mpr ⟨hText, hLength.symm⟩] at hCut
  cases hCut
  exact ⟨rfl, rfl⟩

theorem exists_between {as bs : List Char} {n : Nat} (hBoundary : IsBoundary (as ++ bs) n)
    (hLate : byteLength as ≤ n) :
    ∃ part rest, bs = part ++ rest ∧ byteLength part = n - byteLength as := by
  obtain ⟨before, after, hText, hLength⟩ := hBoundary
  rcases List.append_eq_append_iff.mp hText with ⟨part, rfl, rfl⟩ | ⟨part, rfl, rfl⟩
  · refine ⟨part, after, rfl, ?_⟩
    rw [byteLength_append] at hLength
    omega
  · refine ⟨[], bs, rfl, ?_⟩
    rw [byteLength_append] at hLate
    rw [byteLength_append, byteLength_nil]
    omega

theorem IsBoundary.le_byteLength {cs : List Char} {n : Nat} (h : IsBoundary cs n) :
    n ≤ byteLength cs := by
  obtain ⟨before, after, rfl, rfl⟩ := h
  rw [byteLength_append]
  omega

theorem exists_parts {cs : List Char} {m n p : Nat} (hFirst : IsBoundary cs m)
    (hSecond : IsBoundary cs n) (hThird : IsBoundary cs p) (hmn : m ≤ n) (hnp : n ≤ p) :
    ∃ as bs ds rest, cs = as ++ (bs ++ (ds ++ rest)) ∧ byteLength as = m ∧
      byteLength (as ++ bs) = n ∧ byteLength (as ++ (bs ++ ds)) = p := by
  obtain ⟨as, after, rfl, rfl⟩ := hFirst
  obtain ⟨bs, after, rfl, hbs⟩ := exists_between hSecond hmn
  rw [← List.append_assoc] at hThird
  obtain ⟨ds, rest, rfl, hds⟩ := exists_between hThird (by rw [byteLength_append]; omega)
  refine ⟨as, bs, ds, rest, rfl, rfl, ?_, ?_⟩
  · rw [byteLength_append]
    omega
  · rw [byteLength_append] at hds
    simp only [byteLength_append]
    omega

theorem slice?_append (as part rest : List Char) :
    slice? (as ++ (part ++ rest)) (byteLength as) (byteLength as + byteLength part) = some part := by
  have hBefore := (splitAtByte?_eq_some_iff (byteLength as) _ as (part ++ rest)).mpr ⟨rfl, rfl⟩
  have hPart := (splitAtByte?_eq_some_iff (byteLength part) _ part rest).mpr ⟨rfl, rfl⟩
  rw [slice?, if_pos (Nat.le_add_right _ _), hBefore]
  simp only [Option.bind_eq_bind, Option.bind_some, Nat.add_sub_cancel_left, hPart]
  rfl

theorem exists_of_slice? {cs part : List Char} {start stop : Nat}
    (h : slice? cs start stop = some part) :
    ∃ before after, cs = before ++ (part ++ after) ∧ byteLength before = start ∧
      start + byteLength part = stop := by
  unfold slice? at h
  split at h
  · next hOrder =>
    simp only [Option.bind_eq_bind, Option.bind_eq_some_iff] at h
    obtain ⟨⟨before, rest⟩, hBefore, ⟨found, after⟩, hPart, h⟩ := h
    obtain rfl : found = part := Option.some.inj h
    obtain ⟨rfl, hStart⟩ := (splitAtByte?_eq_some_iff _ _ before rest).mp hBefore
    obtain ⟨rfl, hStop⟩ := (splitAtByte?_eq_some_iff _ _ _ after).mp hPart
    exact ⟨before, after, rfl, hStart, by omega⟩
  · cases h

theorem takeBytesOnto_append (taken before rest : List Char) :
    takeBytesOnto taken (byteLength before) (before ++ rest) = before.reverse ++ taken := by
  induction before generalizing taken with
  | nil =>
    cases rest with
    | nil => rfl
    | cons c rest =>
      have := c.utf8Size_pos
      rw [byteLength_nil, List.nil_append, takeBytesOnto, if_neg (by omega)]
      rfl
  | cons c before ih =>
    rw [byteLength_cons, List.cons_append, takeBytesOnto, if_pos (Nat.le_add_right _ _),
      Nat.add_sub_cancel_left, ih, List.reverse_cons, List.append_assoc]
    rfl

theorem takeBytes_append (before rest : List Char) :
    takeBytes (byteLength before) (before ++ rest) = before := by
  rw [takeBytes, takeBytesOnto_append, List.append_nil, List.reverse_reverse]

end SkeletonWeave.Text
