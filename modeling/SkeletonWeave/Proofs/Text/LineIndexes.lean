import Mathlib.Data.List.Basic
import Mathlib.Order.Bounds.Defs
import SkeletonWeave.Proofs.Text.Lines
import SkeletonWeave.Source.Place

/-!
# Indexes of lines

The list of all starts of lines, the start of the line of a number and the start
of the line around a position are found in different ways. They agree: the list
is in order and has the starts by number, up to the last line that holds a
character, and the line around a position starts with the last one up to there.
-/

set_option autoImplicit false

namespace SkeletonWeave

namespace Text

theorem Lined.pairwise_startsFrom {ls : List (List Char)} (h : Lined ls) (offset : Nat) :
    (startsFrom offset ls).Pairwise (· < ·) := by
  induction h generalizing offset with
  | none => exact .nil
  | last => exact List.pairwise_singleton _ _
  | @whole line rest _ _ ih =>
    rw [startsFrom, List.pairwise_cons]
    refine ⟨fun start hStart => ?_, ih _⟩
    have hLater := le_of_mem_startsFrom hStart
    have hSize := '\n'.utf8Size_pos
    rw [byteLength_append, byteLength_cons] at hLater
    omega

theorem length_startsFrom (offset : Nat) (ls : List (List Char)) :
    (startsFrom offset ls).length = ls.length := by
  induction ls generalizing offset with
  | nil => rfl
  | cons line rest ih => rw [startsFrom, List.length_cons, ih, List.length_cons]

theorem getElem?_startsFrom (offset : Nat) {ls : List (List Char)} {n : Nat} (h : n < ls.length) :
    (startsFrom offset ls)[n]? = some (offset + byteLength (ls.take n).flatten) := by
  rw [← List.head?_drop, startsFrom_drop, List.drop_eq_getElem_cons h]
  rfl

theorem pairwise_lineStarts (cs : List Char) : (lineStarts cs).Pairwise (· < ·) := by
  rw [lineStarts_eq_startsFrom]
  exact (lined_linesWithBreaks cs).pairwise_startsFrom 0

theorem head?_lineStarts {cs : List Char} (h : cs ≠ []) : (lineStarts cs).head? = some 0 := by
  rw [lineStarts, if_neg (by simpa using h)]
  rfl

theorem length_lineStarts_le (cs : List Char) : (lineStarts cs).length ≤ 1 + cs.count '\n' := by
  rw [lineStarts_eq_startsFrom, length_startsFrom]
  rcases List.eq_nil_or_concat' (linesWithBreaks cs) with hNone | ⟨ls, line, hLines⟩
  · simp [hNone]
  · have hLined := lined_linesWithBreaks cs
    rw [hLines] at hLined
    have hCount := hLined.count_flatten (by simp : [line] ≠ [])
    have hText := flatten_linesWithBreaks cs
    rw [hLines, List.flatten_append] at hText
    rw [hLines, List.length_append, List.length_singleton, ← hText, List.count_append, hCount]
    omega

theorem getElem?_lineStarts {cs : List Char} {line : Nat} (hFirst : 1 ≤ line)
    (hLast : line ≤ (lineStarts cs).length) :
    (lineStarts cs)[line - 1]? = some (lineStart cs line) := by
  rw [lineStarts_eq_startsFrom, length_startsFrom] at hLast
  rw [lineStarts_eq_startsFrom, getElem?_startsFrom 0 (by omega), Nat.zero_add,
    lineStart_eq_byteLength_take]

theorem lineStart_of_length_lt {cs : List Char} {line : Nat} (h : (lineStarts cs).length < line) :
    lineStart cs line = byteLength cs := by
  rw [lineStarts_eq_startsFrom, length_startsFrom] at h
  rw [lineStart_eq_byteLength_take, List.take_of_length_le (by omega), flatten_linesWithBreaks]

theorem mem_lineStarts_iff {cs : List Char} {start : Nat} :
    start ∈ lineStarts cs ↔
      ∃ line, 1 ≤ line ∧ line ≤ (lineStarts cs).length ∧ lineStart cs line = start := by
  constructor
  · intro h
    obtain ⟨n, hn, rfl⟩ := List.getElem_of_mem h
    refine ⟨n + 1, Nat.le_add_left 1 n, hn, ?_⟩
    have hStart := getElem?_lineStarts (Nat.le_add_left 1 n) hn
    rw [Nat.add_sub_cancel, List.getElem?_eq_getElem hn] at hStart
    exact (Option.some.inj hStart).symm
  · rintro ⟨line, hFirst, hLast, rfl⟩
    exact List.mem_of_getElem? (getElem?_lineStarts hFirst hLast)

theorem afterBreaks_append_of_pos (offset : Nat) {n : Nat} (hPos : 0 < n)
    (before rest : List Char) :
    afterBreaks offset (before.count '\n' + n) (before ++ rest) =
      afterBreaks (offset + byteLength before) n rest := by
  obtain ⟨n, rfl⟩ := Nat.exists_eq_succ_of_ne_zero (Nat.ne_of_gt hPos)
  induction before generalizing offset with
  | nil => simp
  | cons c before ih =>
    rw [List.cons_append, byteLength_cons, ← Nat.add_assoc, ← ih]
    by_cases hBreak : c = '\n'
    · rw [hBreak, List.count_cons_self, Nat.succ_add, afterBreaks, if_pos rfl]
    · rw [List.count_cons_of_ne hBreak, Nat.add_succ, afterBreaks, if_neg hBreak]

theorem lt_lineStart {before rest : List Char} {line : Nat} (hLess : 1 + before.count '\n' < line)
    (hBreaks : line ≤ 1 + (before ++ rest).count '\n') :
    byteLength before < lineStart (before ++ rest) line := by
  obtain ⟨n, rfl⟩ := Nat.exists_eq_add_of_lt hLess
  rw [List.count_append] at hBreaks
  have hLine : 1 + before.count '\n' + n + 1 - 1 = before.count '\n' + (n + 1) := by omega
  rw [lineStart, hLine, afterBreaks_append_of_pos 0 (Nat.succ_pos n), Nat.zero_add]
  have hStart : afterBreaks (byteLength before) 0 rest = byteLength before := by
    cases rest <;> rfl
  have hLater := afterBreaks_lt (byteLength before) rest (Nat.succ_pos n) (by omega)
  rwa [hStart] at hLater

theorem lastLineStart_mem_lineStarts {before rest : List Char} (hRest : rest ≠ []) :
    lastLineStart before ∈ lineStarts (before ++ rest) := by
  rw [mem_lineStarts_iff]
  refine ⟨1 + before.count '\n', Nat.le_add_right 1 _, ?_, lineStart_eq_lastLineStart before rest⟩
  apply Nat.le_of_not_lt
  intro hLate
  have hEnd := lineStart_of_length_lt hLate
  have hAround := lastLineStart_le before
  have hSome := byteLength_pos hRest
  rw [lineStart_eq_lastLineStart, byteLength_append] at hEnd
  omega

theorem isGreatest_lastLineStart {before rest : List Char} (hRest : rest ≠ []) :
    IsGreatest {start | start ∈ lineStarts (before ++ rest) ∧ start ≤ byteLength before}
      (lastLineStart before) := by
  refine ⟨⟨lastLineStart_mem_lineStarts hRest, lastLineStart_le before⟩, ?_⟩
  rintro start ⟨hMem, hUp⟩
  obtain ⟨line, hFirst, hLast, rfl⟩ := mem_lineStarts_iff.mp hMem
  have hBreaks := Nat.le_trans hLast (length_lineStarts_le (before ++ rest))
  have hLine : line ≤ 1 + before.count '\n' := by
    apply Nat.le_of_not_lt
    intro hLess
    exact absurd hUp (Nat.not_le_of_lt (lt_lineStart hLess hBreaks))
  rw [← lineStart_eq_lastLineStart before rest]
  rcases Nat.lt_or_eq_of_le hLine with hLess | rfl
  · exact Nat.le_of_lt (lineStart_lt _ hFirst hLess (by rw [List.count_append]; omega))
  · exact Nat.le_refl _

end Text

namespace Source.File

open Text

/-- Whether starts of lines are those that a file tells by number and around positions. -/
structure HasLineStarts (f : File) (starts : List Nat) : Prop where
  increasing : starts.Pairwise (· < ·)
  first : starts.head? = some 0
  before_first : f.lineStart 0 = 0
  numbered : ∀ line, 1 ≤ line → line ≤ starts.length → starts[line - 1]? = some (f.lineStart line)
  after_last : ∀ line, starts.length < line → f.lineStart line = byteLength f.text.toList
  around : ∀ position, IsBoundary f.text.toList position → position < byteLength f.text.toList →
    ∃ start, f.lineStartOf? position = some start ∧
      IsGreatest {start | start ∈ starts ∧ start ≤ position} start ∧
      ∃ before, slice? f.text.toList 0 position = some before ∧
        start = f.lineStart (1 + before.count '\n')

theorem line_indexes_agree {f : File} (hSome : f.text ≠ "") :
    f.HasLineStarts (lineStarts f.text.toList) where
  increasing := pairwise_lineStarts _
  first := head?_lineStarts (by simpa using hSome)
  before_first := by rw [File.lineStart, Text.lineStart, afterBreaks]
  numbered _ := getElem?_lineStarts
  after_last _ := lineStart_of_length_lt
  around position hBoundary hInside := by
    obtain ⟨before, rest, hText, rfl⟩ := hBoundary
    rw [hText] at hInside
    simp only [File.lineStartOf?, File.lineStart, hText]
    have hRest : rest ≠ [] := by
      rintro rfl
      rw [List.append_nil] at hInside
      exact absurd hInside (Nat.lt_irrefl _)
    have hSlice := slice?_append [] before rest
    rw [byteLength_nil, Nat.zero_add, List.nil_append] at hSlice
    exact ⟨_, lineStartOf?_append before rest, isGreatest_lastLineStart hRest, before, hSlice,
      (lineStart_eq_lastLineStart before rest).symm⟩

theorem line_indexes_of_short_lines :
    let f : File := ⟨0, "a.h", "é\n\nx\n"⟩
    f.text ≠ "" ∧ lineStarts f.text.toList = [0, 3, 4] ∧ f.lineStart 4 = 6 ∧ f.lineStartOf? 5 = some 4 ∧
      f.HasLineStarts (lineStarts f.text.toList) :=
  ⟨by decide, by decide +kernel, by decide +kernel, by decide +kernel,
    line_indexes_agree (by decide)⟩

end Source.File

end SkeletonWeave
