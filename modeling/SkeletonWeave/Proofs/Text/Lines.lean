import SkeletonWeave.Proofs.Text.Cut
import SkeletonWeave.Text.Lines

/-!
# Where lines start

The line around a boundary starts where the line of its number starts, and
earlier lines start strictly before it. A text is its lines one after the
other, and each line starts where those before it end.
-/

set_option autoImplicit false

namespace SkeletonWeave.Text

theorem le_afterBreaks (offset n : Nat) (cs : List Char) : offset ≤ afterBreaks offset n cs := by
  induction cs generalizing offset n with
  | nil => cases n <;> exact Nat.le_refl _
  | cons c cs ih =>
    cases n with
    | zero => exact Nat.le_refl _
    | succ n =>
      have hNext (k : Nat) : offset ≤ afterBreaks (offset + c.utf8Size) k cs :=
        Nat.le_trans (Nat.le_add_right _ _) (ih _ k)
      rw [afterBreaks]
      split
      · exact hNext n
      · exact hNext (n + 1)

theorem afterBreaks_eq (offset : Nat) (before rest : List Char)
    (hEnd : before = [] ∨ before.getLast? = some '\n') :
    afterBreaks offset (before.count '\n') (before ++ rest) = offset + byteLength before := by
  induction before generalizing offset with
  | nil => simp [afterBreaks]
  | cons c before ih =>
    have hEnd' : before = [] ∨ before.getLast? = some '\n' := by
      cases before with
      | nil => exact .inl rfl
      | cons d before => simpa using hEnd
    rw [List.cons_append, byteLength_cons, ← Nat.add_assoc, ← ih (offset + c.utf8Size) hEnd']
    by_cases hBreak : c = '\n'
    · rw [hBreak, List.count_cons_self, afterBreaks, if_pos rfl]
    · have hBefore : before ≠ [] := by
        rintro rfl
        simp [hBreak] at hEnd
      have hSome : 0 < before.count '\n' := by
        rcases hEnd' with hEmpty | hLast
        · exact absurd hEmpty hBefore
        · exact List.count_pos_iff.mpr (List.mem_of_getLast? hLast)
      obtain ⟨n, hCount⟩ := Nat.exists_eq_add_of_lt hSome
      rw [Nat.zero_add] at hCount
      rw [List.count_cons_of_ne hBreak, hCount, afterBreaks, if_neg hBreak]

theorem afterBreaks_lt (offset : Nat) {m n : Nat} (cs : List Char) (hLess : m < n)
    (hBreaks : n ≤ cs.count '\n') : afterBreaks offset m cs < afterBreaks offset n cs := by
  induction cs generalizing offset m n with
  | nil =>
    rw [List.count_nil] at hBreaks
    omega
  | cons c cs ih =>
    have hSize := c.utf8Size_pos
    obtain ⟨n, rfl⟩ := Nat.exists_eq_succ_of_ne_zero (by omega : n ≠ 0)
    have hFirst (k : Nat) : offset < afterBreaks (offset + c.utf8Size) k cs := by
      have := le_afterBreaks (offset + c.utf8Size) k cs
      omega
    by_cases hBreak : c = '\n'
    · rw [hBreak, List.count_cons_self] at hBreaks
      cases m with
      | zero =>
        rw [afterBreaks, afterBreaks, if_pos hBreak]
        exact hFirst n
      | succ m =>
        rw [afterBreaks, afterBreaks, if_pos hBreak, if_pos hBreak]
        exact ih _ (by omega) (by omega)
    · rw [List.count_cons_of_ne hBreak] at hBreaks
      cases m with
      | zero =>
        rw [afterBreaks, afterBreaks, if_neg hBreak]
        exact hFirst (n + 1)
      | succ m =>
        rw [afterBreaks, afterBreaks, if_neg hBreak, if_neg hBreak]
        exact ih _ hLess hBreaks

theorem byteLength_reverse (cs : List Char) : byteLength cs.reverse = byteLength cs := by
  induction cs with
  | nil => rfl
  | cons c cs ih =>
    rw [List.reverse_cons, byteLength_append, ih, byteLength_cons, byteLength_cons, byteLength_nil]
    omega

theorem exists_lastLine (cs : List Char) :
    ∃ whole line, cs = whole ++ line ∧ (whole = [] ∨ whole.getLast? = some '\n') ∧ '\n' ∉ line ∧
      byteLength whole = lastLineStart cs := by
  refine ⟨((cs.reverse).dropWhile (· ≠ '\n')).reverse,
    ((cs.reverse).takeWhile (· ≠ '\n')).reverse, ?_, ?_, ?_, byteLength_reverse _⟩
  · rw [← List.reverse_append, List.takeWhile_append_dropWhile, List.reverse_reverse]
  · cases hLast : (cs.reverse).dropWhile (· ≠ '\n') with
    | nil => exact .inl rfl
    | cons c rest =>
      have hStop := List.head?_dropWhile_not (fun c => decide (c ≠ '\n')) cs.reverse
      rw [hLast] at hStop
      refine .inr ?_
      simpa using hStop
  · intro hMem
    have := List.all_eq_true.mp List.all_takeWhile _ (List.mem_reverse.mp hMem)
    simp at this

theorem isSome_lineStartOf?_iff {cs : List Char} {position : Nat} :
    (lineStartOf? cs position).isSome = true ↔ IsBoundary cs (min position (byteLength cs)) := by
  rw [lineStartOf?, Option.isSome_map, isBoundary_iff_isSome]

theorem lineStartOf?_append (before rest : List Char) :
    lineStartOf? (before ++ rest) (byteLength before) = some (lastLineStart before) := by
  have hInside : min (byteLength before) (byteLength (before ++ rest)) = byteLength before := by
    rw [byteLength_append]
    omega
  rw [lineStartOf?, hInside, (splitAtByte?_eq_some_iff _ _ before rest).mpr ⟨rfl, rfl⟩]
  rfl

theorem lastLineStart_le (cs : List Char) : lastLineStart cs ≤ byteLength cs := by
  obtain ⟨whole, line, hCut, -, -, hWhole⟩ := exists_lastLine cs
  rw [← hWhole, congrArg byteLength hCut, byteLength_append]
  exact Nat.le_add_right _ _

theorem lineStart_eq_lastLineStart (before rest : List Char) :
    lineStart (before ++ rest) (1 + before.count '\n') = lastLineStart before := by
  obtain ⟨whole, line, hCut, hEnd, hLine, hWhole⟩ := exists_lastLine before
  have hCount : before.count '\n' = whole.count '\n' := by
    rw [hCut, List.count_append, List.count_eq_zero.mpr hLine, Nat.add_zero]
  rw [← hWhole, lineStart, Nat.add_sub_cancel_left, hCount, hCut,
    List.append_assoc, afterBreaks_eq 0 whole (line ++ rest) hEnd, Nat.zero_add]

theorem lineStart_lt (cs : List Char) {m n : Nat} (hFirst : 1 ≤ m) (hLess : m < n)
    (hBreaks : n ≤ 1 + cs.count '\n') : lineStart cs m < lineStart cs n :=
  afterBreaks_lt 0 cs (by omega) (by omega)

theorem lineStartOf?_eq_lineStart_iff {before rest : List Char} {line : Nat} (hFirst : 1 ≤ line)
    (hLine : line ≤ 1 + before.count '\n') :
    lineStartOf? (before ++ rest) (byteLength before) = some (lineStart (before ++ rest) line) ↔
      line = 1 + before.count '\n' := by
  rw [lineStartOf?_append, Option.some.injEq, ← lineStart_eq_lastLineStart before rest]
  constructor
  · intro hStart
    apply Classical.byContradiction
    intro hOther
    have := lineStart_lt (before ++ rest) hFirst (by omega)
      (by rw [List.count_append]; omega : 1 + before.count '\n' ≤ _)
    omega
  · rintro rfl
    rfl

theorem lineStart_le {before : List Char} (rest : List Char) {line : Nat} (hFirst : 1 ≤ line)
    (hLine : line ≤ 1 + before.count '\n') :
    lineStart (before ++ rest) line ≤ byteLength before := by
  have hAround := lastLineStart_le before
  rw [← lineStart_eq_lastLineStart before rest] at hAround
  rcases Nat.lt_or_eq_of_le hLine with hLess | rfl
  · have := lineStart_lt (before ++ rest) hFirst hLess (by rw [List.count_append]; omega)
    omega
  · exact hAround

/-- Lines as a text has them: each but the last ends with its only line feed. -/
inductive Lined : List (List Char) → Prop
  | none : Lined []
  | last {line : List Char} : line ≠ [] → '\n' ∉ line → Lined [line]
  | whole {line : List Char} {rest : List (List Char)} :
    '\n' ∉ line → Lined rest → Lined ((line ++ ['\n']) :: rest)

theorem lined_linesWithBreaks (cs : List Char) : Lined (linesWithBreaks cs) := by
  fun_induction linesWithBreaks cs with
  | case1 => exact .none
  | case2 cs ih => exact @Lined.whole [] _ (by simp) ih
  | case3 c cs hBreak hRest _ => exact .last (by simp) (by simpa using fun h => hBreak h.symm)
  | case4 c cs hBreak line rest hRest ih =>
    rw [hRest] at ih
    have hFirst : '\n' ≠ c := fun h => hBreak h.symm
    cases ih with
    | last _ hLine => exact .last (by simp) (by simp [hFirst, hLine])
    | @whole line _ hLine ih => exact @Lined.whole (c :: line) _ (by simp [hFirst, hLine]) ih

theorem flatten_linesWithBreaks (cs : List Char) : (linesWithBreaks cs).flatten = cs := by
  fun_induction linesWithBreaks cs with
  | case1 => rfl
  | case2 cs ih => rw [List.flatten_cons, ih, List.singleton_append]
  | case3 c cs _ hRest ih =>
    rw [hRest] at ih
    rw [← ih]
    rfl
  | case4 c cs _ line rest hRest ih =>
    rw [hRest] at ih
    rw [← ih]
    rfl

namespace Lined

theorem drop {ls : List (List Char)} (h : Lined ls) (n : Nat) : Lined (ls.drop n) := by
  induction h generalizing n with
  | none => simpa using Lined.none
  | last hSome hLine =>
    cases n with
    | zero => exact .last hSome hLine
    | succ n => simpa using Lined.none
  | whole hLine hRest ih =>
    cases n with
    | zero => exact .whole hLine hRest
    | succ n => exact ih n

theorem count_flatten {ls rest : List (List Char)} (h : Lined (ls ++ rest)) (hSome : rest ≠ []) :
    ls.flatten.count '\n' = ls.length := by
  induction ls with
  | nil => rfl
  | cons line ls ih =>
    rw [List.cons_append] at h
    generalize hAll : ls ++ rest = all at h
    cases h with
    | last => exact absurd (List.append_eq_nil_iff.mp hAll).2 hSome
    | whole hLine hRest =>
      subst hAll
      rw [List.flatten_cons, List.count_append, List.count_append, List.count_eq_zero.mpr hLine,
        ih hRest, List.count_singleton_self, List.length_cons, Nat.zero_add, Nat.add_comm]

theorem exchange {ls others more : List (List Char)} (h : Lined (ls ++ others)) (hMore : Lined more)
    (hEnd : others = [] → more = []) : Lined (ls ++ more) := by
  induction ls with
  | nil => exact hMore
  | cons line ls ih =>
    rw [List.cons_append] at h ⊢
    generalize hAll : ls ++ others = all at h
    cases h with
    | last hSome hLine =>
      obtain ⟨rfl, rfl⟩ := List.append_eq_nil_iff.mp hAll
      rw [hEnd rfl]
      exact .last hSome hLine
    | whole hLine hRest =>
      subst hAll
      exact .whole hLine (ih hRest)

theorem flatten_eq_nil_or_getLast? {ls others : List (List Char)} (h : Lined (ls ++ others))
    (hSome : others ≠ []) : ls.flatten = [] ∨ ls.flatten.getLast? = some '\n' := by
  induction ls with
  | nil => exact .inl rfl
  | cons line ls ih =>
    rw [List.cons_append] at h
    generalize hAll : ls ++ others = all at h
    cases h with
    | last => exact absurd (List.append_eq_nil_iff.mp hAll).2 hSome
    | whole _ hRest =>
      subst hAll
      refine .inr ?_
      rw [List.flatten_cons, List.getLast?_append]
      rcases ih hRest with hNone | hLast
      · simp [hNone]
      · rw [hLast, Option.some_or]

end Lined

theorem linesWithBreaks_append {line : List Char} (hLine : '\n' ∉ line) (rest : List Char) :
    linesWithBreaks (line ++ '\n' :: rest) = (line ++ ['\n']) :: linesWithBreaks rest := by
  induction line with
  | nil => rfl
  | cons c line ih =>
    rw [List.mem_cons, not_or] at hLine
    rw [List.cons_append, linesWithBreaks, if_neg fun h => hLine.1 h.symm, ih hLine.2]
    rfl

theorem linesWithBreaks_of_notMem {line : List Char} (hSome : line ≠ []) (hLine : '\n' ∉ line) :
    linesWithBreaks line = [line] := by
  induction line with
  | nil => exact absurd rfl hSome
  | cons c line ih =>
    rw [List.mem_cons, not_or] at hLine
    rw [linesWithBreaks, if_neg fun h => hLine.1 h.symm]
    cases line with
    | nil => rfl
    | cons d line => rw [ih (by simp) hLine.2]

theorem Lined.linesWithBreaks_flatten {ls : List (List Char)} (h : Lined ls) :
    linesWithBreaks ls.flatten = ls := by
  induction h with
  | none => rfl
  | last hSome hLine =>
    rw [List.flatten_cons, List.flatten_nil, List.append_nil]
    exact linesWithBreaks_of_notMem hSome hLine
  | whole hLine _ ih =>
    rw [List.flatten_cons, List.append_assoc, List.singleton_append, linesWithBreaks_append hLine, ih]

theorem afterBreaks_append (offset n : Nat) {line : List Char} (hLine : '\n' ∉ line)
    (rest : List Char) :
    afterBreaks offset (n + 1) (line ++ rest) = afterBreaks (offset + byteLength line) (n + 1) rest := by
  induction line generalizing offset with
  | nil => rfl
  | cons c line ih =>
    rw [List.mem_cons, not_or] at hLine
    rw [List.cons_append, afterBreaks, if_neg fun h => hLine.1 h.symm, ih _ hLine.2, byteLength_cons,
      Nat.add_assoc]

theorem Lined.afterBreaks_flatten {ls : List (List Char)} (h : Lined ls) (offset n : Nat) :
    afterBreaks offset n ls.flatten = offset + byteLength (ls.take n).flatten := by
  induction h generalizing offset n with
  | none => cases n <;> simp [afterBreaks]
  | @last line _ hLine =>
    cases n with
    | zero => simp [afterBreaks]
    | succ n =>
      have hEnd := afterBreaks_append offset n hLine []
      rw [List.append_nil] at hEnd
      simp [hEnd, afterBreaks]
  | @whole line rest hLine _ ih =>
    cases n with
    | zero => simp [afterBreaks]
    | succ n =>
      rw [List.flatten_cons, List.append_assoc, afterBreaks_append offset n hLine,
        List.singleton_append, afterBreaks, if_pos rfl, ih, List.take_succ_cons, List.flatten_cons]
      simp only [byteLength_append, byteLength_cons, byteLength_nil]
      omega

theorem lineStart_eq_byteLength_take (cs : List Char) (line : Nat) :
    lineStart cs line = byteLength ((linesWithBreaks cs).take (line - 1)).flatten := by
  have hStart := (lined_linesWithBreaks cs).afterBreaks_flatten 0 (line - 1)
  rwa [flatten_linesWithBreaks, Nat.zero_add] at hStart

def startsFrom (offset : Nat) : List (List Char) → List Nat
  | [] => []
  | line :: rest => offset :: startsFrom (offset + byteLength line) rest

theorem startsFrom_drop (offset n : Nat) (ls : List (List Char)) :
    (startsFrom offset ls).drop n =
      startsFrom (offset + byteLength (ls.take n).flatten) (ls.drop n) := by
  induction n generalizing offset ls with
  | zero => simp
  | succ n ih =>
    cases ls with
    | nil => rfl
    | cons line rest =>
      rw [startsFrom, List.drop_succ_cons, ih, List.take_succ_cons, List.flatten_cons,
        byteLength_append, Nat.add_assoc, List.drop_succ_cons]

theorem le_of_mem_startsFrom {offset start : Nat} {ls : List (List Char)}
    (h : start ∈ startsFrom offset ls) : offset ≤ start := by
  induction ls generalizing offset with
  | nil => cases h
  | cons line rest ih =>
    rcases List.mem_cons.mp h with rfl | h
    · exact Nat.le_refl _
    · have := ih h
      omega

theorem breaksOnto_append (found : List Nat) (offset : Nat) (cs : List Char) :
    breaksOnto found offset cs = breaksOnto [] offset cs ++ found := by
  induction cs generalizing found offset with
  | nil => rfl
  | cons c cs ih =>
    simp only [breaksOnto]
    split
    · rw [ih, ih [_], List.append_assoc]
      rfl
    · exact ih found _

theorem breaksOnto_line (offset : Nat) {line : List Char} (hLine : '\n' ∉ line) (rest : List Char) :
    breaksOnto [] offset (line ++ rest) = breaksOnto [] (offset + byteLength line) rest := by
  induction line generalizing offset with
  | nil => rfl
  | cons c line ih =>
    rw [List.mem_cons, not_or] at hLine
    rw [List.cons_append, breaksOnto, if_neg fun h => hLine.1 h.symm, ih _ hLine.2, byteLength_cons,
      Nat.add_assoc]

theorem Lined.byteLength_pos {ls : List (List Char)} (h : Lined ls) (hSome : ls ≠ []) :
    0 < byteLength ls.flatten := by
  cases h with
  | none => exact absurd rfl hSome
  | @last line hLine _ =>
    obtain ⟨c, cs, rfl⟩ := List.exists_cons_of_ne_nil hLine
    have := c.utf8Size_pos
    simp only [List.flatten_cons, List.cons_append, byteLength_cons]
    omega
  | @whole line rest _ _ =>
    have := '\n'.utf8Size_pos
    simp only [List.flatten_cons, byteLength_append, byteLength_cons]
    omega

theorem Lined.filter_breaksOnto {ls : List (List Char)} (h : Lined ls) (offset : Nat) :
    (breaksOnto [] offset ls.flatten).reverse.filter (· < offset + byteLength ls.flatten) =
      (startsFrom offset ls).tail := by
  induction h generalizing offset with
  | none => rfl
  | @last line _ hLine =>
    have hNone := breaksOnto_line offset hLine []
    rw [List.append_nil] at hNone
    simp [hNone, breaksOnto, startsFrom]
  | @whole line rest hLine hRest ih =>
    have hNext : offset + byteLength (line ++ ['\n']) = offset + byteLength line + '\n'.utf8Size := by
      simp only [byteLength_append, byteLength_cons, byteLength_nil]
      omega
    have hLater := ih (offset + byteLength (line ++ ['\n']))
    rw [List.flatten_cons, byteLength_append, List.append_assoc, breaksOnto_line offset hLine,
      List.singleton_append, breaksOnto, if_pos rfl, breaksOnto_append, List.reverse_append,
      List.reverse_singleton, List.singleton_append, ← hNext, ← Nat.add_assoc, startsFrom, List.tail_cons,
      List.filter_cons, hLater]
    cases rest with
    | nil => simp [startsFrom]
    | cons first rest =>
      have := hRest.byteLength_pos (by simp)
      rw [if_pos (by simpa using this)]
      rfl

theorem lineStarts_eq_startsFrom (cs : List Char) :
    lineStarts cs = startsFrom 0 (linesWithBreaks cs) := by
  have hFilter := (lined_linesWithBreaks cs).filter_breaksOnto 0
  rw [flatten_linesWithBreaks, Nat.zero_add] at hFilter
  cases cs with
  | nil => rfl
  | cons c cs =>
    have hSome : linesWithBreaks (c :: cs) ≠ [] := by
      intro hNone
      have := flatten_linesWithBreaks (c :: cs)
      simp [hNone] at this
    obtain ⟨line, rest, hLines⟩ := List.exists_cons_of_ne_nil hSome
    rw [hLines] at hFilter ⊢
    rw [lineStarts, if_neg (by simp), hFilter]
    rfl

end SkeletonWeave.Text
