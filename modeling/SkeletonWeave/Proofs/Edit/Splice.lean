import SkeletonWeave.Proofs.Edit.Overlap
import SkeletonWeave.Proofs.Text.Cut

/-!
# What edits make of a text

The edited text is told position by position, without any order of the edits:
what is put at a position, and whether the character there is kept. Making
edits one after the other gives this text, and fails only for an overlap.
-/

set_option autoImplicit false

namespace SkeletonWeave

namespace Edit

open Text

def Fits (text : List Char) (e : Edit) : Prop :=
  e.start ≤ e.stop ∧ IsBoundary text e.start ∧ IsBoundary text e.stop

instance (text : List Char) (e : Edit) : Decidable (e.Fits text) :=
  inferInstanceAs (Decidable (_ ∧ _ ∧ _))

def insertsAt (position : Nat) (e : Edit) : Bool :=
  e.isInsertion && e.start == position

def replacesFrom (position : Nat) (e : Edit) : Bool :=
  !e.isInsertion && e.start == position

/-- What edits put at a position: the insertions there in their order, then what replaces a range
that starts there. -/
def placedAt (edits : List Edit) (position : Nat) : List Char :=
  (edits.filter (insertsAt position) ++ edits.filter (replacesFrom position)).flatMap
    (·.replacement.toList)

/-- The edited text that comes from the characters at a position and after it. -/
def splice (edits : List Edit) (position : Nat) : List Char → List Char
  | [] => placedAt edits position
  | c :: cs =>
    placedAt edits position ++ (if ∃ e ∈ edits, e.Covers position then [] else [c]) ++
      splice edits (position + c.utf8Size) cs

theorem filter_eq_nil_of_ne {edits : List Edit} {position : Nat}
    (h : ∀ e ∈ edits, e.start ≠ position) :
    edits.filter (insertsAt position) = [] ∧ edits.filter (replacesFrom position) = [] := by
  constructor
  · rw [List.filter_eq_nil_iff]
    intro e he hTest
    rw [insertsAt, Bool.and_eq_true, beq_iff_eq] at hTest
    exact h e he hTest.2
  · rw [List.filter_eq_nil_iff]
    intro e he hTest
    rw [replacesFrom, Bool.and_eq_true, beq_iff_eq] at hTest
    exact h e he hTest.2

theorem placedAt_eq_nil {edits : List Edit} {position : Nat}
    (h : ∀ e ∈ edits, e.start ≠ position) : placedAt edits position = [] := by
  obtain ⟨hInserts, hReplaces⟩ := filter_eq_nil_of_ne h
  rw [placedAt, hInserts, hReplaces]
  rfl

theorem placedAt_singleton (e : Edit) : placedAt [e] e.start = e.replacement.toList := by
  cases hKind : e.isInsertion with
  | true => simp [placedAt, insertsAt, replacesFrom, hKind]
  | false => simp [placedAt, insertsAt, replacesFrom, hKind]

theorem placedAt_append_left {later : List Edit} {position : Nat}
    (h : ∀ e ∈ later, e.start ≠ position) (first : List Edit) :
    placedAt (first ++ later) position = placedAt first position := by
  obtain ⟨hInserts, hReplaces⟩ := filter_eq_nil_of_ne h
  rw [placedAt, placedAt, List.filter_append, List.filter_append, hInserts, hReplaces,
    List.append_nil, List.append_nil]

theorem placedAt_append_right {first : List Edit} {position : Nat}
    (h : ∀ e ∈ first, e.start ≠ position) (later : List Edit) :
    placedAt (first ++ later) position = placedAt later position := by
  obtain ⟨hInserts, hReplaces⟩ := filter_eq_nil_of_ne h
  rw [placedAt, placedAt, List.filter_append, List.filter_append, hInserts, hReplaces,
    List.nil_append, List.nil_append]

theorem placedAt_append_of_le {first : List Edit} {position : Nat}
    (h : ∀ e ∈ first, e.start ≤ e.stop ∧ e.stop ≤ position) (later : List Edit) :
    placedAt (first ++ later) position = placedAt first position ++ placedAt later position := by
  have hNone : first.filter (replacesFrom position) = [] := by
    rw [List.filter_eq_nil_iff]
    intro e he hTest
    rw [replacesFrom, Bool.and_eq_true, Bool.not_eq_true', ← Bool.not_eq_true, isInsertion_iff,
      beq_iff_eq] at hTest
    have := h e he
    omega
  rw [placedAt, placedAt, placedAt, List.filter_append, List.filter_append, hNone, List.nil_append,
    List.append_nil, List.append_assoc, List.flatMap_append]

theorem exists_covers_append_iff (first later : List Edit) (position : Nat) :
    (∃ e ∈ first ++ later, e.Covers position) ↔
      (∃ e ∈ first, e.Covers position) ∨ ∃ e ∈ later, e.Covers position := by
  simp only [List.mem_append, or_and_right, exists_or]

theorem splice_nil (position : Nat) (cs : List Char) : splice [] position cs = cs := by
  induction cs generalizing position with
  | nil => rfl
  | cons c cs ih => simp [splice, placedAt, ih]

theorem splice_append_of_lt {first : List Edit} {position : Nat}
    (h : ∀ e ∈ first, e.start < position ∧ e.stop ≤ position) (later : List Edit) (cs : List Char) :
    splice (first ++ later) position cs = splice later position cs := by
  induction cs generalizing position with
  | nil => exact placedAt_append_right (fun e he => Nat.ne_of_lt (h e he).1) later
  | cons c cs ih =>
    have hPlaced : placedAt (first ++ later) position = placedAt later position :=
      placedAt_append_right (fun e he => Nat.ne_of_lt (h e he).1) later
    have hUncovered : ¬∃ e ∈ first, e.Covers position := by
      rintro ⟨e, he, -, hStop⟩
      have := h e he
      omega
    have hNext : ∀ e ∈ first, e.start < position + c.utf8Size ∧ e.stop ≤ position + c.utf8Size := by
      intro e he
      have := h e he
      omega
    rw [splice, splice, hPlaced, ih hNext]
    simp only [exists_covers_append_iff, or_iff_right hUncovered]

theorem splice_append_of_stop_le {first : List Edit} {position : Nat}
    (h : ∀ e ∈ first, e.start ≤ e.stop ∧ e.stop ≤ position) (later : List Edit) (cs : List Char) :
    splice (first ++ later) position cs = placedAt first position ++ splice later position cs := by
  cases cs with
  | nil => exact placedAt_append_of_le h later
  | cons c cs =>
    have hUncovered : ¬∃ e ∈ first, e.Covers position := by
      rintro ⟨e, he, -, hStop⟩
      have := h e he
      omega
    have hPast : ∀ e ∈ first, e.start < position + c.utf8Size ∧ e.stop ≤ position + c.utf8Size := by
      intro e he
      have hSize := c.utf8Size_pos
      have := h e he
      omega
    rw [splice, splice, placedAt_append_of_le h, splice_append_of_lt hPast]
    simp only [exists_covers_append_iff, or_iff_right hUncovered, List.append_assoc]

theorem splice_append {first later : List Edit} {position : Nat} (part rest : List Char)
    (hFirst : ∀ e ∈ first, e.start ≤ e.stop ∧ e.stop ≤ position + byteLength part)
    (hLater : ∀ e ∈ later, position + byteLength part ≤ e.start) :
    splice (first ++ later) position (part ++ rest) =
      splice first position part ++ splice later (position + byteLength part) rest := by
  -- by induction on the first part, before whose end no later edit starts
  induction part generalizing position with
  | nil => exact splice_append_of_stop_le hFirst later rest
  | cons c part ih =>
    have hSize := c.utf8Size_pos
    rw [byteLength_cons, ← Nat.add_assoc] at hFirst hLater
    have hPlaced : placedAt (first ++ later) position = placedAt first position := by
      apply placedAt_append_left
      intro e he
      have := hLater e he
      omega
    have hUncovered : ¬∃ e ∈ later, e.Covers position := by
      rintro ⟨e, he, hStart, -⟩
      have := hLater e he
      omega
    rw [List.cons_append, splice, splice, hPlaced, ih hFirst hLater, byteLength_cons, Nat.add_assoc]
    simp only [exists_covers_append_iff, or_iff_left hUncovered, List.append_assoc]

theorem splice_append_of_le {edits : List Edit} {position : Nat} (kept rest : List Char)
    (h : ∀ e ∈ edits, position + byteLength kept ≤ e.start) :
    splice edits position (kept ++ rest) =
      kept ++ splice edits (position + byteLength kept) rest := by
  have hParts := @splice_append [] edits position kept rest (by simp) h
  rwa [List.nil_append, splice_nil] at hParts

theorem splice_eq_nil_of_covered {e : Edit} {position : Nat} (range : List Char)
    (hStart : e.start < position) (hStop : position + byteLength range ≤ e.stop) :
    splice [e] position range = [] := by
  have hNothing (later : Nat) (hLater : position ≤ later) : placedAt [e] later = [] := by
    apply placedAt_eq_nil
    intro e' he'
    rw [List.mem_singleton.mp he']
    omega
  induction range generalizing position with
  | nil => exact hNothing position (Nat.le_refl _)
  | cons c range ih =>
    have hSize := c.utf8Size_pos
    rw [byteLength_cons] at hStop
    have hCovered : ∃ e' ∈ [e], e'.Covers position := ⟨e, by simp, by omega, by omega⟩
    rw [splice, hNothing position (Nat.le_refl _), if_pos hCovered, List.append_nil, List.nil_append]
    exact ih (by omega) (by omega) fun later hLater => hNothing later (by omega)

theorem splice_singleton {e : Edit} (range : List Char)
    (hRange : e.start + byteLength range = e.stop) :
    splice [e] e.start range = e.replacement.toList := by
  cases range with
  | nil => exact placedAt_singleton e
  | cons c range =>
    have hSize := c.utf8Size_pos
    rw [byteLength_cons] at hRange
    have hCovered : ∃ e' ∈ [e], e'.Covers e.start := ⟨e, by simp, Nat.le_refl _, by omega⟩
    rw [splice, placedAt_singleton, if_pos hCovered, List.append_nil,
      splice_eq_nil_of_covered range (by omega) (by omega), List.append_nil]

theorem splice_cons {e : Edit} {edits : List Edit} (range rest : List Char)
    (hRange : e.start + byteLength range = e.stop) (hLater : ∀ e' ∈ edits, e.stop ≤ e'.start) :
    splice (e :: edits) e.start (range ++ rest) =
      e.replacement.toList ++ splice edits e.stop rest := by
  have hFirst : ∀ e' ∈ [e], e'.start ≤ e'.stop ∧ e'.stop ≤ e.start + byteLength range := by
    intro e' he'
    rw [List.mem_singleton.mp he']
    omega
  have hParts := splice_append range rest hFirst (hRange ▸ hLater)
  rwa [List.singleton_append, splice_singleton range hRange, hRange] at hParts

theorem splice_congr {edits others : List Edit}
    (hPlaced : ∀ position, placedAt edits position = placedAt others position)
    (hCovers : ∀ position, (∃ e ∈ edits, e.Covers position) ↔ ∃ e ∈ others, e.Covers position)
    (position : Nat) (cs : List Char) : splice edits position cs = splice others position cs := by
  induction cs generalizing position with
  | nil => exact hPlaced position
  | cons c cs ih =>
    rw [splice, splice, hPlaced, ih]
    simp only [hCovers]

/-- Edits in sequence succeed, and give the edited text. -/
theorem applyFrom_eq_splice (before rest : List Char) (edits : List Edit)
    (hFits : ∀ e ∈ edits, e.Fits (before ++ rest)) (hSequence : InSequence edits)
    (hStarts : ∀ e ∈ edits, byteLength before ≤ e.start) :
    applyFrom (before ++ rest) (byteLength before) edits =
      .ok (splice edits (byteLength before) rest) := by
  -- by induction on the edits, for whatever stands before the place that is reached
  induction edits generalizing before rest with
  | nil =>
    rw [applyFrom, splice_nil, (splitAtByte?_eq_some_iff _ _ before rest).mpr ⟨rfl, rfl⟩]
    rfl
  | cons e edits ih =>
    obtain ⟨hOrder, hStart, hStop⟩ := hFits e (by simp)
    have hLater : ∀ e' ∈ edits, e.stop ≤ e'.start := fun e' he' =>
      List.rel_of_pairwise_cons hSequence he'
    have hFirst := hStarts e (by simp)
    obtain ⟨kept, rest, rfl, hKept⟩ := exists_between hStart hFirst
    have hKeptStart : e.start = byteLength before + byteLength kept := by omega
    rw [← List.append_assoc] at hStop
    obtain ⟨range, rest, rfl, hRange⟩ :=
      exists_between hStop (by rw [byteLength_append]; omega)
    have hRangeStop : e.start + byteLength range = e.stop := by
      rw [byteLength_append] at hRange
      omega
    have hInText : ¬byteLength (before ++ (kept ++ (range ++ rest))) < e.stop := by
      simp only [byteLength_append]
      omega
    have hSlice : slice? (before ++ (kept ++ (range ++ rest))) (byteLength before) e.start =
        some kept := by
      rw [hKeptStart]
      exact slice?_append before kept (range ++ rest)
    have hText : before ++ (kept ++ (range ++ rest)) = (before ++ kept ++ range) ++ rest := by
      simp only [List.append_assoc]
    have hNext : byteLength (before ++ kept ++ range) = e.stop := by
      simp only [byteLength_append]
      omega
    have hRest := ih (before ++ kept ++ range) rest
      (fun e' he' => hText ▸ hFits e' (List.mem_cons_of_mem e he')) hSequence.tail
      (fun e' he' => hNext ▸ hLater e' he')
    rw [hNext, ← hText] at hRest
    rw [applyFrom, if_neg hInText, hSlice, hRest]
    have hStartLater : ∀ e' ∈ e :: edits, byteLength before + byteLength kept ≤ e'.start := by
      intro e' he'
      rcases List.mem_cons.mp he' with rfl | he'
      · omega
      · have := hLater e' he'
        omega
    rw [splice_append_of_le kept _ hStartLater, ← hKeptStart, splice_cons range rest hRangeStop hLater,
      ← List.append_assoc]
    rfl

/-- At most one of compatible edits replaces a range that starts at a position. -/
theorem Compatible.filter_replacesFrom_perm {edits others : List Edit} (hCompatible : Compatible edits)
    (hRanges : ∀ e ∈ edits, e.start ≤ e.stop) (hPerm : edits.Perm others) (position : Nat) :
    edits.filter (replacesFrom position) = others.filter (replacesFrom position) := by
  have hFiltered := hPerm.filter (replacesFrom position)
  match hFound : edits.filter (replacesFrom position) with
  | [] =>
    rw [hFound] at hFiltered
    exact hFiltered.symm.eq_nil.symm
  | [e] =>
    rw [hFound] at hFiltered
    exact (List.perm_singleton.mp hFiltered.symm).symm
  | a :: b :: rest =>
    have hPair : [a, b].Sublist edits := by
      refine List.Sublist.trans ?_ (List.filter_sublist (p := replacesFrom position))
      rw [hFound]
      simp
    have hStarts : ∀ e ∈ [a, b], e.start ≠ e.stop ∧ e.start = position := by
      intro e he
      have hMem : e ∈ edits.filter (replacesFrom position) := by
        rw [hFound]
        exact List.mem_append_left rest he
      have hTest := (List.mem_filter.mp hMem).2
      rw [replacesFrom, Bool.and_eq_true, Bool.not_eq_true', ← Bool.not_eq_true, isInsertion_iff,
        beq_iff_eq] at hTest
      exact hTest
    have hApart := List.pairwise_iff_forall_sublist.mp hCompatible hPair
    have ha := hStarts a (by simp)
    have hb := hStarts b (by simp)
    have haRange := hRanges a (hPair.subset (by simp))
    have hbRange := hRanges b (hPair.subset (by simp))
    rw [overlap_iff haRange hbRange] at hApart
    omega

theorem Compatible.splice_perm {edits others : List Edit} (hCompatible : Compatible edits)
    (hRanges : ∀ e ∈ edits, e.start ≤ e.stop) (hPerm : edits.Perm others)
    (hInsertions : ∀ position,
      edits.filter (insertsAt position) = others.filter (insertsAt position))
    (position : Nat) (cs : List Char) : splice edits position cs = splice others position cs := by
  refine splice_congr ?_ ?_ position cs
  · intro position
    rw [placedAt, placedAt, hInsertions,
      hCompatible.filter_replacesFrom_perm hRanges hPerm]
  · intro position
    simp only [hPerm.mem_iff]

theorem filter_insertsAt_ordered (edits : List Edit) (position : Nat) :
    (ordered edits).filter (insertsAt position) = edits.filter (insertsAt position) := by
  apply filter_ordered
  intro a b ha hb
  rw [insertsAt, Bool.and_eq_true, isInsertion_iff, beq_iff_eq] at ha hb
  rw [le_iff]
  omega

theorem applyAll_of_compatible {edits : List Edit} {text : String}
    (hFits : ∀ e ∈ edits, e.Fits text.toList) (hCompatible : Compatible edits) :
    applyAll edits text = .ok (String.ofList (splice edits 0 text.toList)) := by
  have hPerm := ordered_perm edits
  have hRanges : ∀ e ∈ edits, e.start ≤ e.stop := fun e he => (hFits e he).1
  have hRangesOrdered : ∀ e ∈ ordered edits, e.start ≤ e.stop := fun e he =>
    hRanges e (hPerm.mem_iff.mp he)
  have hSequence : InSequence (ordered edits) :=
    (inSequence_iff_compatible hRangesOrdered (pairwise_ordered edits)).mpr
      (hCompatible.perm hPerm.symm)
  have hMade := applyFrom_eq_splice [] text.toList (ordered edits)
    (fun e he => hFits e (hPerm.mem_iff.mp he)) hSequence fun e _ => Nat.zero_le e.start
  rw [byteLength_nil, List.nil_append] at hMade
  have hSame := hCompatible.splice_perm hRanges hPerm.symm
    (fun position => (filter_insertsAt_ordered edits position).symm) 0 text.toList
  simp only [applyAll, (collision?_ordered_eq_none_iff hRanges).mpr hCompatible, hMade, hSame]
  rfl

theorem overlap_of_applyAll_error {edits : List Edit} {text : String} {c : EditCollision}
    (hFits : ∀ e ∈ edits, e.Fits text.toList) (h : applyAll edits text = .error c) :
    ∃ a b rest, edits.Perm (a :: b :: rest) ∧ a.Overlap b ∧ c = ⟨a.range, b.range⟩ := by
  have hRanges : ∀ e ∈ edits, e.start ≤ e.stop := fun e he => (hFits e he).1
  cases hFound : collision? (ordered edits) with
  | some found =>
    simp only [applyAll, hFound] at h
    cases h
    exact overlap_of_collision? hRanges hFound
  | none =>
    have hCompatible := (collision?_ordered_eq_none_iff hRanges).mp hFound
    rw [applyAll_of_compatible hFits hCompatible] at h
    cases h

theorem compatible_of_applyAll {edits : List Edit} {text edited : String}
    (hFits : ∀ e ∈ edits, e.Fits text.toList) (h : applyAll edits text = .ok edited) :
    Compatible edits := by
  cases hFound : collision? (ordered edits) with
  | some found =>
    simp only [applyAll, hFound] at h
    cases h
  | none => exact (collision?_ordered_eq_none_iff fun e he => (hFits e he).1).mp hFound

/-- Edits that lie in a text can be made exactly when no two overlap. They give the edited text in
any order that keeps the insertions at one position in theirs, and a failure names two that
overlap. -/
theorem applyAll_succeeds_iff_compatible (edits : List Edit) (text : String)
    (hFits : ∀ e ∈ edits, e.Fits text.toList) :
    ((∃ edited, applyAll edits text = .ok edited) ↔ edits.Pairwise fun a b => ¬a.Overlap b) ∧
    (∀ edited, applyAll edits text = .ok edited → edited.toList = splice edits 0 text.toList) ∧
    (∀ c, applyAll edits text = .error c →
      ∃ a b rest, edits.Perm (a :: b :: rest) ∧ a.Overlap b ∧ c = ⟨a.range, b.range⟩) ∧
    (∀ others, edits.Perm others →
      (∀ position, edits.filter (insertsAt position) = others.filter (insertsAt position)) →
      ∀ edited, applyAll edits text = .ok edited → applyAll others text = .ok edited) := by
  have hRanges : ∀ e ∈ edits, e.start ≤ e.stop := fun e he => (hFits e he).1
  refine ⟨⟨?_, ?_⟩, ?_, ?_, ?_⟩
  · rintro ⟨edited, hMade⟩
    exact compatible_of_applyAll hFits hMade
  · intro hCompatible
    exact ⟨_, applyAll_of_compatible hFits hCompatible⟩
  · intro edited hMade
    rw [applyAll_of_compatible hFits (compatible_of_applyAll hFits hMade)] at hMade
    rw [← Except.ok.inj hMade, String.toList_ofList]
  · intro c hFailed
    exact overlap_of_applyAll_error hFits hFailed
  · intro others hPerm hInsertions edited hMade
    have hCompatible := compatible_of_applyAll hFits hMade
    have hFitsOthers : ∀ e ∈ others, e.Fits text.toList := fun e he =>
      hFits e (hPerm.mem_iff.mpr he)
    rw [applyAll_of_compatible hFitsOthers (hCompatible.perm hPerm),
      ← hCompatible.splice_perm hRanges hPerm hInsertions]
    rwa [applyAll_of_compatible hFits hCompatible] at hMade

theorem applyAll_insertions_around_replacement :
    let edits : List Edit :=
      [⟨0, 3, "xyz", "body"⟩, insertion 0 "1" "a", insertion 3 "!" "tail", insertion 0 "2" "b"]
    (∀ e ∈ edits, e.Fits "aé".toList) ∧
      ∃ edited, applyAll edits "aé" = .ok edited ∧ edited.toList = "12xyz!".toList := by
  intro edits
  have hFits : ∀ e ∈ edits, e.Fits "aé".toList := by decide +kernel
  obtain ⟨hSucceeds, hSplice, -⟩ := applyAll_succeeds_iff_compatible edits "aé" hFits
  obtain ⟨edited, hMade⟩ := hSucceeds.mpr (by decide +kernel)
  refine ⟨hFits, edited, hMade, ?_⟩
  rw [hSplice edited hMade]
  decide +kernel

end Edit

end SkeletonWeave
