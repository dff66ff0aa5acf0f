import Mathlib
import SkeletonWeave.Proofs.Edit.Splice

/-!
# Edits with ranges of any kind

A range is looked at when its edit is made and, for its end, when the next edit
takes up from there. So an end off the boundaries of characters is found unless
no edit comes after it, and a range that ends before it starts is never found.
Main statements: when edits are made, and how many bytes the edited text has.
-/

set_option autoImplicit false

namespace SkeletonWeave

namespace Text

theorem isBoundary_zero (cs : List Char) : IsBoundary cs 0 := ⟨[], cs, rfl, rfl⟩

theorem exists_slice?_iff {cs : List Char} {start stop : Nat} :
    (∃ part, slice? cs start stop = some part) ↔
      start ≤ stop ∧ IsBoundary cs start ∧ IsBoundary cs stop := by
  constructor
  · rintro ⟨part, h⟩
    obtain ⟨before, after, rfl, rfl, rfl⟩ := exists_of_slice? h
    refine ⟨Nat.le_add_right _ _, ⟨before, part ++ after, rfl, rfl⟩, before ++ part, after, ?_, ?_⟩
    · rw [List.append_assoc]
    · rw [byteLength_append]
  · rintro ⟨hOrder, ⟨before, after, rfl, rfl⟩, hStop⟩
    obtain ⟨part, rest, rfl, hPart⟩ := exists_between hStop hOrder
    refine ⟨part, ?_⟩
    rw [← slice?_append before part rest, hPart, Nat.add_sub_cancel' hOrder]

end Text

namespace Edit

open Text

theorem collision?_eq_none_iff_isChain (edits : List Edit) :
    collision? edits = none ↔ edits.IsChain fun a b => a.stop ≤ b.start := by
  fun_induction collision? edits with
  | case1 a b rest hCollides =>
    rw [List.isChain_cons_cons]
    simp only [reduceCtorEq, false_iff]
    omega
  | case2 a b rest hApart ih =>
    rw [ih, List.isChain_cons_cons, and_iff_right (by omega)]
  | case3 edits hShort =>
    rcases edits with - | ⟨a, - | ⟨b, rest⟩⟩
    · simp
    · simp
    · exact absurd rfl (hShort a b rest)

theorem exists_applyFrom_cons_iff (text : List Char) (cursor : Nat) (e : Edit) (rest : List Edit) :
    (∃ edited, applyFrom text cursor (e :: rest) = .ok edited) ↔
      (e.stop ≤ byteLength text ∧ cursor ≤ e.start ∧ IsBoundary text cursor ∧
        IsBoundary text e.start) ∧ ∃ edited, applyFrom text e.stop rest = .ok edited := by
  rw [applyFrom, ← exists_slice?_iff]
  by_cases hStop : byteLength text < e.stop
  · rw [if_pos hStop]
    constructor
    · rintro ⟨edited, h⟩
      cases h
    · rintro ⟨⟨h, -⟩, -⟩
      omega
  · rw [if_neg hStop]
    cases hSlice : slice? text cursor e.start with
    | none => simp
    | some kept =>
      cases applyFrom text e.stop rest with
      | error c => simp [bind, Except.bind]
      | ok edited =>
        simp [bind, Except.bind, pure, Except.pure]
        omega

/-- Edits are made from a place on if this place can be cut out, no edit reaches over the start of
the next, each starts at a boundary and ends in the text, and each but the last ends at one. -/
theorem exists_applyFrom_iff (text : List Char) (cursor : Nat) (edits : List Edit) :
    (∃ edited, applyFrom text cursor edits = .ok edited) ↔
      (∀ e ∈ edits.head?, cursor ≤ e.start ∧ IsBoundary text cursor) ∧
      (edits.IsChain fun a b => a.stop ≤ b.start) ∧
      (∀ e ∈ edits, IsBoundary text e.start ∧ e.stop ≤ byteLength text) ∧
      ∀ e ∈ edits.dropLast, IsBoundary text e.stop := by
  induction edits generalizing cursor with
  | nil => simp [applyFrom]
  | cons e rest ih =>
    rw [exists_applyFrom_cons_iff, ih, List.isChain_cons]
    cases rest with
    | nil => simp; tauto
    | cons e' rest => simp; tauto

theorem applyAll_eq_ok_iff {edits : List Edit} {text edited : String} :
    applyAll edits text = .ok edited ↔
      ((ordered edits).IsChain fun a b => a.stop ≤ b.start) ∧
        applyFrom text.toList 0 (ordered edits) = .ok edited.toList := by
  rw [applyAll, ← collision?_eq_none_iff_isChain]
  cases collision? (ordered edits) with
  | some c => simp
  | none =>
    cases applyFrom text.toList 0 (ordered edits) with
    | error c => simp [Except.map]
    | ok made =>
      simp only [Except.map, Except.ok.injEq, true_and]
      exact ⟨fun h => by rw [← h, String.toList_ofList], fun h => by rw [h, String.ofList_toList]⟩

theorem exists_applyAll_iff (edits : List Edit) (text : String) :
    (∃ edited, applyAll edits text = .ok edited) ↔
      ((ordered edits).IsChain fun a b => a.stop ≤ b.start) ∧
      (∀ e ∈ edits, IsBoundary text.toList e.start ∧ e.stop ≤ byteLength text.toList) ∧
      ∀ e ∈ (ordered edits).dropLast, IsBoundary text.toList e.stop := by
  have hStart : ∀ e ∈ (ordered edits).head?, 0 ≤ e.start ∧ IsBoundary text.toList 0 := fun e _ =>
    ⟨Nat.zero_le _, isBoundary_zero _⟩
  have hMade := exists_applyFrom_iff text.toList 0 (ordered edits)
  simp only [(ordered_perm edits).mem_iff, and_iff_right hStart] at hMade
  constructor
  · rintro ⟨edited, h⟩
    exact hMade.mp ⟨edited.toList, (applyAll_eq_ok_iff.mp h).2⟩
  · intro h
    obtain ⟨made, hFrom⟩ := hMade.mpr h
    refine ⟨String.ofList made, applyAll_eq_ok_iff.mpr ⟨h.1, ?_⟩⟩
    rw [String.toList_ofList, hFrom]

/-- How far a text is kept when nothing more is edited from a position on: to its end, but nothing
of it from a position that is not a boundary. -/
def reach (text : List Char) (position : Nat) : Nat :=
  if IsBoundary text position then byteLength text else position

theorem byteLength_rest (text : List Char) (position : Nat) :
    byteLength ((splitAtByte? position text).elim [] (·.2)) + position = reach text position := by
  unfold reach
  split
  · next h =>
    obtain ⟨before, after, rfl, rfl⟩ := h
    rw [(splitAtByte?_eq_some_iff _ _ before after).mpr ⟨rfl, rfl⟩, byteLength_append]
    exact Nat.add_comm _ _
  · next h =>
    rw [isBoundary_iff_isSome, Bool.not_eq_true, Option.isSome_eq_false_iff,
      Option.isNone_iff_eq_none] at h
    rw [h]
    exact Nat.zero_add _

def growth (e : Edit) : Int :=
  byteLength e.replacement.toList - (e.stop - e.start)

theorem byteLength_applyFrom {text edited : List Char} {cursor : Nat} {edits : List Edit}
    (h : applyFrom text cursor edits = .ok edited) :
    (byteLength edited + cursor : Int) =
      reach text ((edits.map stop).getLastD cursor) + (edits.map growth).sum := by
  fun_induction applyFrom text cursor edits generalizing edited with
  | case1 cursor =>
    cases h
    have := byteLength_rest text cursor
    simp
    omega
  | case2 => cases h
  | case3 => cases h
  | case4 cursor e rest hStop kept hSlice ih =>
    cases hRest : applyFrom text e.stop rest with
    | error c =>
      rw [hRest] at h
      cases h
    | ok edited' =>
      rw [hRest] at h
      obtain rfl : kept ++ e.replacement.toList ++ edited' = edited := Except.ok.inj h
      obtain ⟨-, -, -, -, hKept⟩ := exists_of_slice? hSlice
      have hLater := ih hRest
      simp only [List.map_cons, List.getLastD_cons, List.sum_cons, byteLength_append, growth] at *
      omega

theorem byteLength_applyAll {edits : List Edit} {text edited : String}
    (h : applyAll edits text = .ok edited) :
    (byteLength edited.toList : Int) =
      reach text.toList (((ordered edits).map stop).getLastD 0) + (edits.map growth).sum := by
  have hBytes := byteLength_applyFrom (applyAll_eq_ok_iff.mp h).2
  rw [((ordered_perm edits).map growth).sum_eq] at hBytes
  rw [← hBytes]
  exact (Int.add_zero _).symm

/-- When edits are made, with ranges of any kind. What remains open then is the end of the last one
and whether each range is in order. Edits without such a flaw all lie in the text and give the
edited text; in general what is kept reaches as far as the last end allows, and a range out of order
counts with its negative length, so what it spans is there twice. -/
theorem applyAll_leaves_last_stop_and_order (edits : List Edit) (text : String) :
    ((∃ edited, applyAll edits text = .ok edited) ↔
      ((ordered edits).IsChain fun a b => a.stop ≤ b.start) ∧
      (∀ e ∈ edits, IsBoundary text.toList e.start ∧ e.stop ≤ byteLength text.toList) ∧
      ∀ e ∈ (ordered edits).dropLast, IsBoundary text.toList e.stop) ∧
    ∀ edited, applyAll edits text = .ok edited →
      ((∀ e ∈ edits, e.Fits text.toList) ↔
        (∀ e ∈ edits, e.start ≤ e.stop) ∧
          ∀ e ∈ (ordered edits).getLast?, IsBoundary text.toList e.stop) ∧
      ((∀ e ∈ edits, e.Fits text.toList) → edited.toList = splice edits 0 text.toList) ∧
      (byteLength edited.toList : Int) =
        reach text.toList (((ordered edits).map stop).getLastD 0) + (edits.map growth).sum := by
  refine ⟨exists_applyAll_iff edits text, fun edited hMade => ⟨⟨?_, ?_⟩, ?_, ?_⟩⟩
  · intro hFits
    refine ⟨fun e he => (hFits e he).1, fun e he => ?_⟩
    exact (hFits e ((ordered_perm edits).mem_iff.mp (List.mem_of_getLast? he))).2.2
  · rintro ⟨hOrder, hLast⟩ e he
    obtain ⟨-, hStarts, hStops⟩ := (exists_applyAll_iff edits text).mp ⟨edited, hMade⟩
    refine ⟨hOrder e he, (hStarts e he).1, ?_⟩
    have hMem : e ∈ ordered edits := (ordered_perm edits).mem_iff.mpr he
    have hSplit := List.dropLast_append_getLast (List.ne_nil_of_mem hMem)
    rw [← hSplit, List.mem_append, List.mem_singleton] at hMem
    rcases hMem with hEarly | hIsLast
    · exact hStops e hEarly
    · exact hLast e (hIsLast ▸ List.getLast?_eq_some_getLast _)
  · intro hFits
    rw [applyAll_of_compatible hFits (compatible_of_applyAll hFits hMade)] at hMade
    rw [← Except.ok.inj hMade, String.toList_ofList]
  · exact byteLength_applyAll hMade

/-- An end within a character takes the rest of the text away, and a range that is out of order
repeats what it spans. -/
theorem applyAll_drops_and_repeats :
    applyAll [⟨0, 1, "x", "cut"⟩] "éa" = .ok "x" ∧
    applyAll [⟨3, 1, "x", "turned"⟩] "abcd" = .ok "abcxbcd" ∧
    ¬∀ (edits : List Edit) (text : String),
      (∃ e ∈ edits, ¬e.Fits text.toList) → ∃ c, applyAll edits text = .error c := by
  have hCut : applyAll [⟨0, 1, "x", "cut"⟩] "éa" = .ok "x" := by decide +kernel
  have hTurned : applyAll [⟨3, 1, "x", "turned"⟩] "abcd" = .ok "abcxbcd" := by decide +kernel
  refine ⟨hCut, hTurned, fun hRefused => ?_⟩
  obtain ⟨c, hError⟩ := hRefused [⟨0, 1, "x", "cut"⟩] "éa" (by decide +kernel)
  rw [hCut] at hError
  cases hError

end Edit

end SkeletonWeave
