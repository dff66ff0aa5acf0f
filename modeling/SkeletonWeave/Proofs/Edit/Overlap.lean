import SkeletonWeave.Edit.Basic

/-!
# Overlapping edits

Two edits overlap when they replace one byte, or when one is an insertion
strictly inside the range of the other. The search for a collision compares
neighbours only; in the order in which edits are made that finds an overlap
whenever there is one, and what it finds does overlap.
-/

set_option autoImplicit false

namespace SkeletonWeave.Edit

def Covers (e : Edit) (position : Nat) : Prop :=
  e.start ≤ position ∧ position < e.stop

instance (e : Edit) (position : Nat) : Decidable (e.Covers position) :=
  inferInstanceAs (Decidable (_ ∧ _))

/-- Whether two edits replace one byte, or one is an insertion strictly inside the other's range. -/
def Overlap (a b : Edit) : Prop :=
  (∃ position, a.Covers position ∧ b.Covers position) ∨
  (a.isInsertion = true ∧ b.start < a.start ∧ a.start < b.stop) ∨
  (b.isInsertion = true ∧ a.start < b.start ∧ b.start < a.stop)

theorem exists_covers_iff (a b : Edit) :
    (∃ position, a.Covers position ∧ b.Covers position) ↔
      max a.start b.start < min a.stop b.stop := by
  constructor
  · rintro ⟨position, ⟨_, _⟩, _, _⟩
    omega
  · intro h
    exact ⟨max a.start b.start, ⟨by omega, by omega⟩, by omega, by omega⟩

instance (a b : Edit) : Decidable (a.Overlap b) :=
  have : Decidable (∃ position, a.Covers position ∧ b.Covers position) :=
    decidable_of_iff _ (exists_covers_iff a b).symm
  inferInstanceAs (Decidable (_ ∨ _ ∨ _))

def Compatible (edits : List Edit) : Prop :=
  edits.Pairwise fun a b => ¬a.Overlap b

def InSequence (edits : List Edit) : Prop :=
  edits.Pairwise fun a b => a.stop ≤ b.start

theorem isInsertion_iff (e : Edit) : e.isInsertion = true ↔ e.start = e.stop := by
  rw [isInsertion, beq_iff_eq]

theorem overlap_iff {a b : Edit} (ha : a.start ≤ a.stop) (hb : b.start ≤ b.stop) :
    a.Overlap b ↔ a.start < b.stop ∧ b.start < a.stop := by
  simp only [Overlap, Covers, isInsertion_iff]
  constructor
  · rintro (⟨position, ⟨_, _⟩, _, _⟩ | ⟨_, _, _⟩ | ⟨_, _, _⟩) <;> omega
  · rintro ⟨hStart, hStop⟩
    by_cases hEmpty : a.start = a.stop
    · exact .inr (.inl ⟨hEmpty, by omega, hStart⟩)
    · by_cases hEmpty' : b.start = b.stop
      · exact .inr (.inr ⟨hEmpty', by omega, hStop⟩)
      · exact .inl ⟨max a.start b.start, ⟨by omega, by omega⟩, by omega, by omega⟩

theorem Overlap.symm {a b : Edit} (h : a.Overlap b) : b.Overlap a := by
  rcases h with ⟨position, ha, hb⟩ | h | h
  · exact .inl ⟨position, hb, ha⟩
  · exact .inr (.inr h)
  · exact .inr (.inl h)

theorem Compatible.perm {edits others : List Edit} (hPerm : edits.Perm others)
    (h : Compatible edits) : Compatible others :=
  (hPerm.pairwise_iff fun hApart hOverlap => hApart hOverlap.symm).mp h

theorem le_iff (a b : Edit) :
    le a b = true ↔
      a.start < b.start ∨ a.start = b.start ∧ (a.start = a.stop ∨ b.start ≠ b.stop) := by
  simp only [le, isInsertion, Bool.or_eq_true, Bool.and_eq_true, decide_eq_true_eq, beq_iff_eq,
    Bool.not_eq_true', beq_eq_false_iff_ne]

theorem le_trans (a b c : Edit) (hab : le a b = true) (hbc : le b c = true) : le a c = true := by
  rw [le_iff] at *
  omega

theorem le_total (a b : Edit) : (le a b || le b a) = true := by
  rw [Bool.or_eq_true, le_iff, le_iff]
  omega

theorem ordered_perm (edits : List Edit) : (ordered edits).Perm edits :=
  List.mergeSort_perm edits le

theorem pairwise_ordered (edits : List Edit) :
    (ordered edits).Pairwise fun a b => le a b = true :=
  List.pairwise_mergeSort le_trans le_total edits

theorem filter_ordered (edits : List Edit) (test : Edit → Bool)
    (hEqual : ∀ a b, test a = true → test b = true → le a b = true) :
    (ordered edits).filter test = edits.filter test := by
  have hSorted : (edits.filter test).Pairwise fun a b => le a b = true := by
    rw [List.pairwise_iff_forall_sublist]
    intro a b hab
    have hMem : ∀ e ∈ [a, b], test e = true := fun e he => (List.mem_filter.mp (hab.subset he)).2
    exact hEqual a b (hMem a (by simp)) (hMem b (by simp))
  -- the sort keeps every sublist that is sorted already, so the equal edits stay in their order
  have hSublist : (edits.filter test).Sublist (ordered edits) :=
    List.sublist_mergeSort le_trans le_total hSorted List.filter_sublist
  have hFiltered := hSublist.filter test
  rw [List.filter_filter, funext fun e => Bool.and_self (test e)] at hFiltered
  exact (hFiltered.eq_of_length ((ordered_perm edits).filter test).length_eq.symm).symm

theorem stop_le_start_iff {a b : Edit} (ha : a.start ≤ a.stop) (hb : b.start ≤ b.stop)
    (hOrder : le a b = true) : a.stop ≤ b.start ↔ ¬a.Overlap b := by
  rw [overlap_iff ha hb]
  rw [le_iff] at hOrder
  omega

theorem inSequence_iff_compatible {edits : List Edit} (hRanges : ∀ e ∈ edits, e.start ≤ e.stop)
    (hSorted : edits.Pairwise fun a b => le a b = true) :
    InSequence edits ↔ Compatible edits := by
  have hPairs : ∀ a b, [a, b].Sublist edits → (a.stop ≤ b.start ↔ ¬a.Overlap b) := by
    intro a b hab
    exact stop_le_start_iff (hRanges a (hab.subset (by simp))) (hRanges b (hab.subset (by simp)))
      (List.pairwise_iff_forall_sublist.mp hSorted hab)
  rw [InSequence, Compatible, List.pairwise_iff_forall_sublist, List.pairwise_iff_forall_sublist]
  exact ⟨fun h a b hab => (hPairs a b hab).mp (h hab), fun h a b hab => (hPairs a b hab).mpr (h hab)⟩

theorem InSequence.compatible {edits : List Edit} (hRanges : ∀ e ∈ edits, e.start ≤ e.stop)
    (h : InSequence edits) : Compatible edits := by
  rw [Compatible, List.pairwise_iff_forall_sublist]
  intro a b hab hOverlap
  rw [overlap_iff (hRanges a (hab.subset (by simp))) (hRanges b (hab.subset (by simp)))] at hOverlap
  have := List.pairwise_iff_forall_sublist.mp h hab
  omega

theorem collision?_eq_none_iff {edits : List Edit} (hRanges : ∀ e ∈ edits, e.start ≤ e.stop) :
    collision? edits = none ↔ InSequence edits := by
  fun_induction collision? edits with
  | case1 a b rest hCollides =>
    constructor
    · intro h
      cases h
    · intro h
      have := List.rel_of_pairwise_cons h (List.mem_cons_self (a := b) (l := rest))
      omega
  | case2 a b rest hApart ih =>
    rw [ih fun e he => hRanges e (List.mem_cons_of_mem a he)]
    constructor
    · intro h
      refine List.pairwise_cons.mpr ⟨?_, h⟩
      intro e he
      have hFirst := hRanges b (by simp)
      rcases List.mem_cons.mp he with rfl | he
      · omega
      · have := List.rel_of_pairwise_cons h he
        omega
    · intro h
      exact h.tail
  | case3 edits hShort =>
    rcases edits with - | ⟨a, - | ⟨b, rest⟩⟩
    · simp [InSequence]
    · simp [InSequence]
    · exact absurd rfl (hShort a b rest)

theorem collision?_ordered_eq_none_iff {edits : List Edit}
    (hRanges : ∀ e ∈ edits, e.start ≤ e.stop) :
    collision? (ordered edits) = none ↔ Compatible edits := by
  have hPerm := ordered_perm edits
  have hRangesOrdered : ∀ e ∈ ordered edits, e.start ≤ e.stop := fun e he =>
    hRanges e (hPerm.mem_iff.mp he)
  rw [collision?_eq_none_iff hRangesOrdered,
    inSequence_iff_compatible hRangesOrdered (pairwise_ordered edits)]
  constructor
  · intro hCompatible
    exact hCompatible.perm hPerm
  · intro hCompatible
    exact hCompatible.perm hPerm.symm

theorem exists_of_collision? {edits : List Edit} {c : EditCollision}
    (h : collision? edits = some c) :
    ∃ before a b after, edits = before ++ a :: b :: after ∧ b.start < a.stop ∧
      c = ⟨a.range, b.range⟩ := by
  fun_induction collision? edits with
  | case1 a b rest hCollides =>
    exact ⟨[], a, b, rest, rfl, hCollides, (Option.some.inj h).symm⟩
  | case2 a b rest _ ih =>
    obtain ⟨before, a', b', after, hEdits, hCollides, hRanges⟩ := ih h
    exact ⟨a :: before, a', b', after, by rw [hEdits, List.cons_append], hCollides, hRanges⟩
  | case3 => cases h

theorem overlap_of_collision? {edits : List Edit} (hRanges : ∀ e ∈ edits, e.start ≤ e.stop)
    {c : EditCollision} (h : collision? (ordered edits) = some c) :
    ∃ a b rest, edits.Perm (a :: b :: rest) ∧ a.Overlap b ∧ c = ⟨a.range, b.range⟩ := by
  obtain ⟨before, a, b, after, hEdits, hCollides, hNamed⟩ := exists_of_collision? h
  have hPerm : edits.Perm (a :: b :: (before ++ after)) := by
    refine (ordered_perm edits).symm.trans ?_
    rw [hEdits]
    exact List.perm_middle.trans (List.perm_middle.cons a)
  have hOrder : le a b = true := by
    refine List.pairwise_iff_forall_sublist.mp (pairwise_ordered edits) ?_
    rw [hEdits]
    exact List.sublist_append_of_sublist_right (by simp)
  refine ⟨a, b, before ++ after, hPerm, ?_, hNamed⟩
  apply Classical.byContradiction
  intro hApart
  have ha := hRanges a (hPerm.mem_iff.mpr (by simp))
  have hb := hRanges b (hPerm.mem_iff.mpr (by simp))
  have := (stop_le_start_iff ha hb hOrder).mpr hApart
  omega

end SkeletonWeave.Edit
