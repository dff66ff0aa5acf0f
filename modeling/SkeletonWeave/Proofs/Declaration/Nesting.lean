import SkeletonWeave.Proofs.Declaration.Extent

/-!
# Nested brackets

Round, square and curly brackets nest properly when each closing one meets the
last that is open. A group of nested tokens is passed as a whole, whatever kind
of brackets is counted, so the end of a declaration among nested tokens leaves
nested tokens behind.
-/

set_option autoImplicit false

namespace SkeletonWeave

namespace Token

/-- The brackets that nest. Angle brackets do not: they compare numbers too. -/
def brackets : List String := ["(", "[", "\x7b"]

def isBracket (t : Token) : Bool :=
  brackets.any fun opener => t.isPunctuation opener || t.isPunctuation (closer opener)

def opens (t : Token) : Bool :=
  brackets.any t.isPunctuation

inductive Nested : List Token → Prop
  | nil : Nested []
  | plain {t : Token} {ts : List Token} : t.isBracket = false → Nested ts → Nested (t :: ts)
  | group {opener close : Token} {inside rest : List Token} :
    opener.text ∈ brackets → opener.isPunctuation opener.text = true →
    close.isPunctuation (closer opener.text) = true → Nested inside → Nested rest →
    Nested (opener :: (inside ++ close :: rest))

theorem isPunctuation_of_isBracket {t : Token} (h : t.isBracket = false) {bracket : String}
    (hBracket : bracket ∈ brackets) :
    t.isPunctuation bracket = false ∧ t.isPunctuation (closer bracket) = false := by
  simp only [isBracket, List.any_eq_false, Bool.or_eq_true, not_or, Bool.not_eq_true] at h
  exact h bracket hBracket

theorem opens_of_text {t : Token} (h : t.text ∉ brackets) : t.opens = false := by
  rw [opens, List.any_eq_false]
  intro bracket hBracket hMark
  rw [← text_of_isPunctuation hMark] at hBracket
  exact h hBracket

theorem opens_of_kind {t : Token} (h : t.kind ≠ .punctuation) : t.opens = false := by
  simp [opens, isPunctuation, h]

theorem brackets_cases {text : String} (h : text ∈ brackets) :
    text = "(" ∨ text = "[" ∨ text = "\x7b" := by
  simpa [brackets] using h

theorem marks_of_bracket {text bracket : String} (hText : text ∈ brackets)
    (hBracket : bracket ∈ brackets) {t : Token} (h : t.isPunctuation text = true) :
    t.isPunctuation bracket = decide (text = bracket) ∧ t.isPunctuation (closer bracket) = false := by
  rw [isPunctuation_eq_decide h, isPunctuation_eq_decide h]
  rcases brackets_cases hText with rfl | rfl | rfl <;>
    rcases brackets_cases hBracket with rfl | rfl | rfl <;> decide

theorem marks_of_closer {text bracket : String} (hText : text ∈ brackets)
    (hBracket : bracket ∈ brackets) {t : Token} (h : t.isPunctuation (closer text) = true) :
    t.isPunctuation bracket = false ∧ t.isPunctuation (closer bracket) = decide (text = bracket) := by
  rw [isPunctuation_eq_decide h, isPunctuation_eq_decide h]
  rcases brackets_cases hText with rfl | rfl | rfl <;>
    rcases brackets_cases hBracket with rfl | rfl | rfl <;> decide

namespace Nested

theorem append {ts us : List Token} (h : Nested ts) (h' : Nested us) : Nested (ts ++ us) := by
  induction h with
  | nil => exact h'
  | plain hPlain _ ih => exact .plain hPlain ih
  | group hText hOpen hClose hInside _ _ ih =>
    rw [List.cons_append, List.append_assoc, List.cons_append]
    exact .group hText hOpen hClose hInside ih

theorem tail {t : Token} {ts : List Token} (h : Nested (t :: ts)) (hNot : t.opens = false) :
    Nested ts := by
  cases h with
  | plain _ hRest => exact hRest
  | group hBracket hOpen =>
    rw [opens, List.any_eq_false] at hNot
    exact absurd hOpen (hNot t.text hBracket)

theorem not_closes {t : Token} {ts : List Token} (h : Nested (t :: ts)) :
    t.isPunctuation "\x7d" = false := by
  cases h with
  | plain hPlain _ =>
    exact (isPunctuation_of_isBracket hPlain (by simp [brackets] : "\x7b" ∈ brackets)).2
  | group hBracket hOpen =>
    rw [isPunctuation_eq_decide hOpen]
    rcases brackets_cases hBracket with h | h | h <;> rw [h] <;> decide

theorem exists_close {opener : Token} {ts : List Token} (h : Nested (opener :: ts))
    (hOpen : opener.isPunctuation "\x7b" = true) :
    ∃ inside close rest, ts = inside ++ close :: rest ∧ close.isPunctuation "\x7d" = true ∧
      Nested inside ∧ Nested rest := by
  cases h with
  | plain hPlain _ =>
    have hNot := (isPunctuation_of_isBracket hPlain (by simp [brackets] : "\x7b" ∈ brackets)).1
    rw [hOpen] at hNot
    cases hNot
  | @group _ close inside rest _ _ hClose hInside hRest =>
    rw [text_of_isPunctuation hOpen] at hClose
    exact ⟨inside, close, rest, rfl, hClose, hInside, hRest⟩

end Nested

section

variable {bracket : String} {depth : Nat} {passed ts : List Token} {t : Token}

theorem closeGroupFrom?_opens (h : t.isPunctuation bracket = true) :
    closeGroupFrom? bracket depth passed (t :: ts) =
      closeGroupFrom? bracket (depth + 1) (t :: passed) ts := by
  simp [closeGroupFrom?, h]

theorem closeGroupFrom?_closes (h : t.isPunctuation bracket = false)
    (h' : t.isPunctuation (closer bracket) = true) :
    closeGroupFrom? bracket (depth + 1) passed (t :: ts) =
      closeGroupFrom? bracket depth (t :: passed) ts := by
  simp [closeGroupFrom?, h, h']

theorem closeGroupFrom?_ends (h : t.isPunctuation bracket = false)
    (h' : t.isPunctuation (closer bracket) = true) :
    closeGroupFrom? bracket 0 passed (t :: ts) = some (passed.reverse, t, ts) := by
  simp [closeGroupFrom?, h, h']

theorem closeGroupFrom?_passes (h : t.isPunctuation bracket = false)
    (h' : t.isPunctuation (closer bracket) = false) :
    closeGroupFrom? bracket depth passed (t :: ts) =
      closeGroupFrom? bracket depth (t :: passed) ts := by
  simp [closeGroupFrom?, h, h']

end

theorem closeGroupFrom?_nested {inside : List Token} (h : Nested inside) {bracket : String}
    (hBracket : bracket ∈ brackets) (depth : Nat) (passed rest : List Token) :
    closeGroupFrom? bracket depth passed (inside ++ rest) =
      closeGroupFrom? bracket depth (inside.reverse ++ passed) rest := by
  induction h generalizing depth passed rest with
  | nil => rfl
  | @plain t ts hPlain _ ih =>
    obtain ⟨hOpens, hCloses⟩ := isPunctuation_of_isBracket hPlain hBracket
    rw [List.cons_append, closeGroupFrom?_passes hOpens hCloses, ih]
    simp
  | @group opener close inside more hText hOpen hClose _ _ ihInside ihMore =>
    obtain ⟨hOpens, hCloses⟩ := marks_of_bracket hText hBracket hOpen
    obtain ⟨hOpens', hCloses'⟩ := marks_of_closer hText hBracket hClose
    rw [List.cons_append, List.append_assoc, List.cons_append]
    by_cases hSame : opener.text = bracket
    · rw [closeGroupFrom?_opens (by simp [hOpens, hSame]), ihInside,
        closeGroupFrom?_closes hOpens' (by simp [hCloses', hSame]), ihMore]
      simp
    · rw [closeGroupFrom?_passes (by simp [hOpens, hSame]) hCloses, ihInside,
        closeGroupFrom?_passes hOpens' (by simp [hCloses', hSame]), ihMore]
      simp

theorem closeGroup?_nested {inside : List Token} (h : Nested inside) {bracket : String}
    (hBracket : bracket ∈ brackets) {close : Token}
    (hClose : close.isPunctuation (closer bracket) = true) (rest : List Token) :
    closeGroup? bracket (inside ++ close :: rest) = some (inside, close, rest) := by
  obtain ⟨hOpens, -⟩ := marks_of_closer hBracket hBracket hClose
  rw [closeGroup?, closeGroupFrom?_nested h hBracket, closeGroupFrom?_ends hOpens hClose]
  simp

/-- Whether the tokens end here or go on with the brace that closes the scope around. -/
def Closes (ts : List Token) : Prop :=
  ts = [] ∨ ∃ t us, ts = t :: us ∧ t.isPunctuation "\x7d" = true

def Terminated (ts : List Token) : Prop :=
  ts = [] ∨ ∃ t us, ts = t :: us ∧
    (t.isPunctuation ";" = true ∨ t.isPunctuation "\x7b" = true)

end Token

open Token (Nested Closes Terminated brackets closer)

namespace Declaration

theorem closeGroup_nested {opener close : Token} {inside : List Token} (h : Nested inside)
    (hOpen : opener.isPunctuation "\x7b" = true) (hClose : close.isPunctuation "\x7d" = true)
    (rest : List Token) : closeGroup opener (inside ++ close :: rest) = .ok (inside, close, rest) := by
  have hText := Token.text_of_isPunctuation hOpen
  rw [closeGroup, hText, Token.closeGroup?_nested h (by simp [brackets]) hClose]

namespace Extent

theorem split_group {opener close : Token} {depth : Nat} {ts group rest : List Token} {e : Extent}
    (hGroup : e.group? = some ⟨opener, depth⟩)
    (hClose : Token.closeGroupFrom? opener.text depth e.passed ts = some (group, close, rest)) :
    e.split ts = { e with passed := close :: group.reverse, group? := none }.split rest := by
  induction ts generalizing e depth with
  | nil => cases hClose
  | cons t ts ih =>
    rw [split, hGroup]
    simp only
    by_cases hOpens : t.isPunctuation opener.text = true
    · rw [Token.closeGroupFrom?_opens hOpens] at hClose
      have hRest := @ih (depth + 1) (e.passInside ⟨opener, depth⟩ t)
        (by simp [passInside, hOpens]) hClose
      rw [hRest]
      simp [passInside, pass]
    · rw [Bool.not_eq_true] at hOpens
      by_cases hCloses : t.isPunctuation (closer opener.text) = true
      · cases depth with
        | zero =>
          rw [Token.closeGroupFrom?_ends hOpens hCloses] at hClose
          cases hClose
          simp [passInside, pass, hOpens, hCloses]
        | succ depth =>
          rw [Token.closeGroupFrom?_closes hOpens hCloses] at hClose
          have hRest := @ih depth (e.passInside ⟨opener, depth + 1⟩ t)
            (by simp [passInside, hOpens, hCloses]) hClose
          rw [hRest]
          simp [passInside, pass]
      · rw [Bool.not_eq_true] at hCloses
        rw [Token.closeGroupFrom?_passes hOpens hCloses] at hClose
        have hRest := @ih depth (e.passInside ⟨opener, depth⟩ t)
          (by simp [passInside, hOpens, hCloses]) hClose
        rw [hRest]
        simp [passInside, pass]

theorem split_bracketed {opener close : Token} {inside : List Token} {e : Extent}
    (hGroup : e.group? = none) (hEnds : e.endsAt opener = false) (hText : opener.text ∈ brackets)
    (hOpen : opener.isPunctuation opener.text = true)
    (hClose : close.isPunctuation (closer opener.text) = true) (hInside : Nested inside)
    (rest : List Token) :
    e.split (opener :: (inside ++ close :: rest)) =
      Extent.split
        ⟨close :: (inside.reverse ++ opener :: e.passed), none,
          e.seenParams || opener.isPunctuation "(", e.inInitializers⟩ rest := by
  have hStep : e.passOutside opener = e.openGroup opener := by
    have hMarks := Token.isPunctuation_eq_decide hOpen
    rcases Token.brackets_cases hText with h | h | h <;> simp [passOutside, hMarks, h]
  have hFound : Token.closeGroupFrom? opener.text 0 (e.openGroup opener).passed
      (inside ++ close :: rest) =
      some ((inside.reverse ++ opener :: e.passed).reverse, close, rest) := by
    obtain ⟨hOpens, -⟩ := Token.marks_of_closer hText hText hClose
    rw [Token.closeGroupFrom?_nested hInside hText, Token.closeGroupFrom?_ends hOpens hClose]
    rfl
  rw [split, hGroup]
  simp only [hEnds, Bool.false_eq_true, if_false]
  rw [hStep, split_group rfl hFound, List.reverse_reverse]
  rfl

/-- The end of a declaration that starts among nested tokens leaves nested tokens: none, or a
semicolon or a brace with what follows it. -/
theorem split_nested {ts : List Token} (h : Nested ts) {e : Extent} (hGroup : e.group? = none)
    {rest : List Token} (hRest : Closes rest) :
    ∃ head after, ts = head ++ after ∧ Nested after ∧ Terminated after ∧
      e.split (ts ++ rest) = .ok (e.passed.reverse ++ head, after ++ rest) := by
  induction h generalizing e with
  | nil =>
    refine ⟨[], [], rfl, .nil, .inl rfl, ?_⟩
    rcases hRest with rfl | ⟨t, us, rfl, hClose⟩
    · simp [split, hGroup]
    · simp [split, hGroup, endsAt, hClose]
  | @plain t ts hPlain hNested ih =>
    have hMark (bracket : String) (hBracket : bracket ∈ brackets) :=
      Token.isPunctuation_of_isBracket hPlain hBracket
    have hRound := hMark "(" (by simp [brackets])
    have hSquare := hMark "[" (by simp [brackets])
    have hCurly := hMark "\x7b" (by simp [brackets])
    by_cases hEnds : t.isPunctuation ";" = true
    · refine ⟨[], t :: ts, rfl, .plain hPlain hNested, .inr ⟨t, ts, rfl, .inl hEnds⟩, ?_⟩
      simp [split, hGroup, endsAt, hEnds]
    · rw [Bool.not_eq_true] at hEnds
      have hEndsAt : e.endsAt t = false := by
        simp [endsAt, hEnds, hCurly.1, (Nested.plain hPlain hNested).not_closes]
      have hStep : (e.passOutside t).group? = none := by
        simp [passOutside, hRound.1, hSquare.1, hCurly.1, pass, hGroup]
      obtain ⟨head, after, rfl, hAfter, hTerminated, hSplit⟩ := ih hStep
      refine ⟨t :: head, after, rfl, hAfter, hTerminated, ?_⟩
      rw [List.cons_append, split, hGroup]
      simp only [hEndsAt]
      rw [if_neg (by decide), hSplit, passOutside_passed]
      simp
  | @group opener close inside more hText hOpen hClose hInside hMore _ ih =>
    have hWhole := Nested.group hText hOpen hClose hInside hMore
    by_cases hEnds : e.endsAt opener = true
    · refine ⟨[], _, rfl, hWhole, .inr ⟨opener, _, rfl, ?_⟩, ?_⟩
      · simp only [endsAt, hWhole.not_closes, Bool.or_eq_true, Bool.and_eq_true,
          Bool.false_eq_true, or_false] at hEnds
        exact hEnds.imp_right And.left
      · simp [split, hGroup, hEnds]
    · rw [Bool.not_eq_true] at hEnds
      obtain ⟨head, after, rfl, hAfter, hTerminated, hSplit⟩ :=
        @ih ⟨close :: (inside.reverse ++ opener :: e.passed), none,
          e.seenParams || opener.isPunctuation "(", e.inInitializers⟩ rfl
      refine ⟨opener :: (inside ++ close :: head), after, by simp, hAfter, hTerminated, ?_⟩
      rw [List.cons_append, List.append_assoc, List.cons_append,
        split_bracketed hGroup hEnds hText hOpen hClose hInside, hSplit]
      simp

end Extent

theorem splitDeclaration_nested {ts rest : List Token} (h : Nested ts) (hRest : Closes rest) :
    ∃ head after, ts = head ++ after ∧ Nested after ∧ Terminated after ∧
      splitDeclaration (ts ++ rest) = .ok (head, after ++ rest) := by
  obtain ⟨head, after, hCut, hAfter, hTerminated, hSplit⟩ :=
    Extent.split_nested h (rfl : Extent.start.group? = none) hRest
  exact ⟨head, after, hCut, hAfter, hTerminated, hSplit⟩

end Declaration

end SkeletonWeave
