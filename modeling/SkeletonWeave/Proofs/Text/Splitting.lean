import Mathlib.Data.List.Basic
import SkeletonWeave.Text.Search

/-!
# Parts between separators

A separator is found from left to right, and the parts between its places are
those of the text in only one way. Parts that lack its first character are found
again where they are joined by it, and the last of them is what follows the last
separator.
-/

set_option autoImplicit false

namespace SkeletonWeave.Text

variable {separator part rest cs : List Char}

/-- Whether a separator starts nowhere in a part that has a rest after it. -/
def Misses (separator part rest : List Char) : Prop :=
  ∀ passed more, part = passed ++ more → more ≠ [] → ¬separator <+: more ++ rest

/-- A text as its parts, each of which goes on to where the separator first starts. -/
inductive SplitBy (separator : List Char) : List Char → List (List Char) → Prop
  | last {part : List Char} : Misses separator part [] → SplitBy separator part [part]
  | cut {part rest : List Char} {parts : List (List Char)} :
    Misses separator part (separator ++ rest) → SplitBy separator rest parts →
    SplitBy separator (part ++ (separator ++ rest)) (part :: parts)

theorem misses_nil (separator rest : List Char) : Misses separator [] rest := by
  intro passed more hPart hSome
  exact absurd (List.append_eq_nil_iff.mp hPart.symm).2 hSome

theorem Misses.concat {c : Char} (h : Misses separator part (c :: rest))
    (hNot : ¬separator <+: c :: rest) : Misses separator (part ++ [c]) rest := by
  intro passed more hPart hSome
  obtain ⟨more, d, rfl⟩ := (List.eq_nil_or_concat' more).resolve_left hSome
  rw [← List.append_assoc] at hPart
  obtain ⟨hPassed, hLast⟩ := List.append_inj' hPart rfl
  obtain rfl : c = d := by simpa using hLast
  rw [List.append_assoc, List.singleton_append]
  cases more with
  | nil => exact hNot
  | cons e more => exact h passed (e :: more) hPassed (by simp)

theorem Misses.tail {c : Char} (h : Misses separator (c :: part) rest) :
    Misses separator part rest :=
  fun passed more hPart hSome => h (c :: passed) more (by rw [hPart, List.cons_append]) hSome

section

variable (hSeparator : separator ≠ [])

include hSeparator

theorem drop_of_startsWith {c : Char} (h : c :: cs = separator ++ rest) :
    cs.drop (separator.length - 1) = rest := by
  obtain ⟨d, separator, rfl⟩ := List.exists_cons_of_ne_nil hSeparator
  rw [List.cons_append] at h
  rw [(List.cons.inj h).2, List.length_cons, Nat.add_sub_cancel, List.drop_left]

theorem splitBy_splitOnFrom (taken : List Char) (h : Misses separator taken.reverse cs) :
    SplitBy separator (taken.reverse ++ cs) (splitOnFrom separator taken cs) := by
  fun_induction splitOnFrom separator taken cs with
  | case1 taken =>
    rw [List.append_nil]
    exact .last h
  | case2 taken c cs hStarts ih =>
    obtain ⟨rest, hRest⟩ := List.isPrefixOf_iff_prefix.mp hStarts
    rw [drop_of_startsWith hSeparator hRest.symm] at ih ⊢
    rw [← hRest] at h ⊢
    exact .cut h (ih (misses_nil separator rest))
  | case3 taken c cs hNot ih =>
    rw [List.isPrefixOf_iff_prefix] at hNot
    rw [List.reverse_cons] at ih
    rw [List.append_cons]
    exact ih (h.concat hNot)

theorem splitBy_splitOn (cs : List Char) : SplitBy separator cs (splitOn separator cs) :=
  splitBy_splitOnFrom hSeparator [] (misses_nil separator cs)

omit hSeparator in
theorem splitOnFrom_part (h : Misses separator part rest) (taken : List Char) :
    splitOnFrom separator taken (part ++ rest) =
      splitOnFrom separator (part.reverse ++ taken) rest := by
  induction part generalizing taken with
  | nil => rfl
  | cons c part ih =>
    have hNot : ¬separator.isPrefixOf (c :: (part ++ rest)) = true := by
      rw [List.isPrefixOf_iff_prefix]
      exact h [] (c :: part) rfl (by simp)
    rw [List.cons_append, splitOnFrom, if_neg hNot, ih h.tail, List.reverse_cons, List.append_assoc]
    rfl

theorem splitOnFrom_separator (taken rest : List Char) :
    splitOnFrom separator taken (separator ++ rest) =
      taken.reverse :: splitOnFrom separator [] rest := by
  have hStarts : separator.isPrefixOf (separator ++ rest) = true :=
    List.isPrefixOf_iff_prefix.mpr (List.prefix_append _ _)
  obtain ⟨c, cs, hText⟩ : ∃ c cs, separator ++ rest = c :: cs :=
    List.exists_cons_of_ne_nil (by simp [hSeparator])
  rw [hText] at hStarts ⊢
  rw [splitOnFrom, if_pos hStarts, drop_of_startsWith hSeparator hText.symm]

theorem SplitBy.splitOn_eq {parts : List (List Char)} (h : SplitBy separator cs parts) :
    splitOn separator cs = parts := by
  induction h with
  | @last part hPart =>
    have hFound := splitOnFrom_part hPart []
    rw [List.append_nil, List.append_nil] at hFound
    rw [splitOn, hFound, splitOnFrom, List.reverse_reverse]
  | @cut part rest parts hPart _ ih =>
    rw [splitOn, splitOnFrom_part hPart, List.append_nil, splitOnFrom_separator hSeparator,
      List.reverse_reverse, ← splitOn, ih]

end

theorem SplitBy.ne_nil {parts : List (List Char)} (h : SplitBy separator cs parts) : parts ≠ [] := by
  cases h <;> simp

theorem SplitBy.intercalate_eq {parts : List (List Char)} (h : SplitBy separator cs parts) :
    separator.intercalate parts = cs := by
  induction h with
  | last => exact List.intercalate_singleton
  | cut _ hRest ih => rw [List.intercalate_cons_of_ne_nil hRest.ne_nil, ih, List.append_assoc]

theorem misses_of_notMem {c : Char} {marks : List Char} (h : c ∉ part) (rest : List Char) :
    Misses (c :: marks) part rest := by
  rintro passed more rfl hSome hStarts
  obtain ⟨d, more, rfl⟩ := List.exists_cons_of_ne_nil hSome
  rw [List.cons_append, List.cons_prefix_cons] at hStarts
  exact h (by simp [hStarts.1])

theorem splitBy_intercalate (c : Char) (marks : List Char) {parts : List (List Char)}
    (hParts : ∀ part ∈ parts, c ∉ part) (hSome : parts ≠ []) :
    SplitBy (c :: marks) ((c :: marks).intercalate parts) parts := by
  induction parts with
  | nil => exact absurd rfl hSome
  | cons part parts ih =>
    obtain ⟨hPart, hRest⟩ := List.forall_mem_cons.mp hParts
    cases parts with
    | nil =>
      rw [List.intercalate_singleton]
      exact .last (misses_of_notMem hPart [])
    | cons next parts =>
      rw [List.intercalate_cons_cons, List.append_assoc]
      exact .cut (misses_of_notMem hPart _) (ih hRest (by simp))

theorem afterLastFrom_of_notMem (h : ':' ∉ cs) (found : List Char) :
    afterLastFrom "::".toList found cs = found := by
  induction cs with
  | nil => rfl
  | cons c cs ih =>
    rw [List.mem_cons, not_or] at h
    have hNone : ("::".toList.isPrefixOf (c :: cs)) = false := by
      simp [List.isPrefixOf, h.1]
    rw [afterLastFrom, hNone]
    exact ih h.2

theorem afterLastFrom_colons (h : ':' ∉ cs) (front found : List Char) :
    afterLastFrom "::".toList found (front ++ "::".toList ++ cs) = cs := by
  induction front generalizing found with
  | nil =>
    have hFirst : afterLastFrom "::".toList found (':' :: ':' :: cs) =
        afterLastFrom "::".toList cs (':' :: cs) := by
      rw [afterLastFrom]
      rfl
    have hSecond : ("::".toList.isPrefixOf (':' :: cs)) = false := by
      cases cs with
      | nil => rfl
      | cons c cs =>
        rw [List.mem_cons, not_or] at h
        simp [List.isPrefixOf, h.1]
    show afterLastFrom "::".toList found (':' :: ':' :: cs) = cs
    rw [hFirst, afterLastFrom, hSecond]
    exact afterLastFrom_of_notMem h cs
  | cons c front ih =>
    rw [List.cons_append, List.cons_append, afterLastFrom]
    exact ih _

end SkeletonWeave.Text
