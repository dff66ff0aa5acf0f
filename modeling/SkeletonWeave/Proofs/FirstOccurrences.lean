import Mathlib.Data.List.Basic

/-!
# Lists without repetitions

What is left of a list when all but the first occurrence of each element are
taken out of it, and in which order.
-/

set_option autoImplicit false

namespace SkeletonWeave

variable {α : Type} [BEq α] [LawfulBEq α]

theorem eraseDups_concat_of_mem {xs : List α} {x : α} (h : x ∈ xs) :
    (xs ++ [x]).eraseDups = xs.eraseDups := by
  simp [List.eraseDups_append, List.removeAll, h]

theorem eraseDups_concat_of_notMem {xs : List α} {x : α} (h : x ∉ xs) :
    (xs ++ [x]).eraseDups = xs.eraseDups ++ [x] := by
  simp [List.eraseDups_append, List.removeAll, h, List.eraseDups_cons]

theorem idxOf_lt_of_filter {p : α → Bool} {xs : List α} {x y : α} (hx : p x = true)
    (hy : p y = true) (h : (xs.filter p).idxOf x < (xs.filter p).idxOf y) :
    xs.idxOf x < xs.idxOf y := by
  induction xs with
  | nil => simp at h
  | cons z xs ih =>
    by_cases hz : p z = true
    · rw [List.filter_cons_of_pos hz] at h
      have hzy : z ≠ y := by
        rintro rfl
        rw [List.idxOf_cons_self] at h
        omega
      by_cases hzx : z = x
      · rw [hzx, List.idxOf_cons_self, List.idxOf_cons_ne xs (hzx ▸ hzy)]
        omega
      · rw [List.idxOf_cons_ne _ hzx, List.idxOf_cons_ne _ hzy] at h ⊢
        have := ih (by omega)
        omega
    · have hzx : z ≠ x := fun hSame => hz (hSame ▸ hx)
      have hzy : z ≠ y := fun hSame => hz (hSame ▸ hy)
      rw [List.filter_cons_of_neg hz] at h
      rw [List.idxOf_cons_ne xs hzx, List.idxOf_cons_ne xs hzy]
      have := ih h
      omega

theorem pairwise_idxOf_eraseDups (xs : List α) :
    xs.eraseDups.Pairwise fun x y => xs.idxOf x < xs.idxOf y := by
  match xs with
  | [] => simp
  | z :: xs =>
    rw [List.eraseDups_cons, List.pairwise_cons]
    have hOther {x : α} (hx : x ∈ (xs.filter fun x => !x == z).eraseDups) :
        (!x == z) = true := (List.mem_filter.mp (List.mem_eraseDups.mp hx)).2
    have hne {x : α} (hx : (!x == z) = true) : z ≠ x := by
      rintro rfl
      simp at hx
    constructor
    · intro x hx
      rw [List.idxOf_cons_self, List.idxOf_cons_ne xs (hne (hOther hx))]
      omega
    · refine (pairwise_idxOf_eraseDups (xs.filter fun x => !x == z)).imp_of_mem ?_
      intro x y hx hy hLt
      have := idxOf_lt_of_filter (p := fun x => !x == z) (hOther hx) (hOther hy) hLt
      rw [List.idxOf_cons_ne xs (hne (hOther hx)), List.idxOf_cons_ne xs (hne (hOther hy))]
      omega
termination_by xs.length
decreasing_by
  exact Nat.lt_succ_of_le (List.length_filter_le _ _)

theorem nodup_eraseDups (xs : List α) : xs.eraseDups.Nodup := by
  refine (pairwise_idxOf_eraseDups xs).imp ?_
  rintro x y hLt rfl
  omega

end SkeletonWeave
