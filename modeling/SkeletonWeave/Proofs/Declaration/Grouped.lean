import SkeletonWeave.Proofs.Declaration.Nesting

/-!
# Groups that are counted

Nested brackets are told by the list of those that are open. The reader keeps
no such list: it counts the brackets of one kind to the end of a group, and
looks at those of another kind in it as at any token. What it takes as groups is
nested where every closing bracket closes the innermost open one.
-/

set_option autoImplicit false

namespace SkeletonWeave.Token

def closes (t : Token) : Bool :=
  brackets.any fun opener => t.isPunctuation (closer opener)

/-- A closing bracket that does not close the innermost of those that are open before it. -/
structure Misfit where
  opened : List String
  token : Token

def Misfit.IsBareBrace (m : Misfit) : Prop :=
  m.opened = [] ∧ m.token.isPunctuation "\x7d" = true

/-- What a token makes of the brackets that are open before it, innermost first. -/
def meet (opened : List String) (t : Token) : Except Misfit (List String) :=
  if t.opens then .ok (t.text :: opened)
  else if t.closes then
    if opened.head?.any fun bracket => t.isPunctuation (closer bracket) then .ok opened.tail
    else .error ⟨opened, t⟩
  else .ok opened

def openAfter (opened : List String) (ts : List Token) : Except Misfit (List String) :=
  ts.foldlM meet opened

/-- Whether every closing bracket closes the innermost open one, up to a closing brace where nothing
is open, if there is one. -/
def ClosersFit (ts : List Token) : Prop :=
  ∀ m, openAfter [] ts = .error m → m.IsBareBrace

theorem opens_of_bracket {t : Token} (hText : t.text ∈ brackets)
    (hOpen : t.isPunctuation t.text = true) : t.opens = true :=
  List.any_eq_true.mpr ⟨t.text, hText, hOpen⟩

theorem bracket_of_opens {t : Token} (h : t.opens = true) :
    t.text ∈ brackets ∧ t.isPunctuation t.text = true := by
  obtain ⟨bracket, hBracket, hMark⟩ := List.any_eq_true.mp h
  rw [text_of_isPunctuation hMark]
  exact ⟨hBracket, hMark⟩

theorem isPunctuation_of_opens {t : Token} (h : t.opens = false) {bracket : String}
    (hBracket : bracket ∈ brackets) : t.isPunctuation bracket = false := by
  rw [← Bool.not_eq_true]
  exact List.any_eq_false.mp h bracket hBracket

theorem closes_of_closer {t : Token} {bracket : String} (hBracket : bracket ∈ brackets)
    (h : t.isPunctuation (closer bracket) = true) : t.opens = false ∧ t.closes = true := by
  refine ⟨List.any_eq_false.mpr fun other hOther => ?_, List.any_eq_true.mpr ⟨bracket, hBracket, h⟩⟩
  rw [(marks_of_closer hBracket hOther h).1]
  exact Bool.false_ne_true

theorem isBracket_eq (t : Token) : t.isBracket = (t.opens || t.closes) := by
  simp only [isBracket, opens, closes, brackets, List.any_cons, List.any_nil, Bool.or_false]
  cases t.isPunctuation "(" <;> cases t.isPunctuation "[" <;> cases t.isPunctuation "\x7b" <;> simp

section

variable {opened : List String} {t : Token} {ts : List Token}

theorem openAfter_cons {next : List String} (h : meet opened t = .ok next) :
    openAfter opened (t :: ts) = openAfter next ts := by
  rw [openAfter, List.foldlM_cons, h]
  rfl

theorem openAfter_opens (h : t.opens = true) :
    openAfter opened (t :: ts) = openAfter (t.text :: opened) ts :=
  openAfter_cons (by rw [meet, if_pos h])

theorem openAfter_plain (h : t.isBracket = false) :
    openAfter opened (t :: ts) = openAfter opened ts := by
  rw [isBracket_eq, Bool.or_eq_false_iff] at h
  exact openAfter_cons (by simp [meet, h.1, h.2])

theorem openAfter_closes {bracket : String} (hBracket : bracket ∈ brackets)
    (h : t.isPunctuation (closer bracket) = true) :
    openAfter (bracket :: opened) (t :: ts) = openAfter opened ts := by
  obtain ⟨hOpens, hCloses⟩ := closes_of_closer hBracket h
  exact openAfter_cons (by simp [meet, hOpens, hCloses, h])

theorem openAfter_misfit (hOpens : t.opens = false) (hCloses : t.closes = true)
    (h : ∀ bracket ∈ opened.head?, t.isPunctuation (closer bracket) = false) :
    openAfter opened (t :: ts) = .error ⟨opened, t⟩ := by
  have hNone : (opened.head?.any fun bracket => t.isPunctuation (closer bracket)) = false := by
    cases opened with
    | nil => rfl
    | cons bracket outer => exact h bracket rfl
  have hMeet : meet opened t = .error ⟨opened, t⟩ := by simp [meet, hOpens, hCloses, hNone]
  rw [openAfter, List.foldlM_cons, hMeet]
  rfl

end

theorem openAfter_nested {ts : List Token} (h : Nested ts) (opened : List String)
    (rest : List Token) : openAfter opened (ts ++ rest) = openAfter opened rest := by
  induction h generalizing opened rest with
  | nil => rfl
  | plain hPlain _ ih => rw [List.cons_append, openAfter_plain hPlain, ih]
  | group hText hOpen hClose _ _ ihInside ihRest =>
    rw [List.cons_append, List.append_assoc, List.cons_append,
      openAfter_opens (opens_of_bracket hText hOpen), ihInside, openAfter_closes hText hClose,
      ihRest]

theorem exists_nested_of_openAfter {n : Nat} {ts : List Token} (hLength : ts.length ≤ n)
    {opened : List String} (hOpened : ∀ bracket ∈ opened, bracket ∈ brackets)
    (h : openAfter opened ts = .ok []) :
    ∃ inside rest, ts = inside ++ rest ∧ Nested inside ∧
      (opened = [] ∧ rest = [] ∨ ∃ bracket outer close after, opened = bracket :: outer ∧
        rest = close :: after ∧ close.isPunctuation (closer bracket) = true ∧
        openAfter outer after = .ok []) := by
  induction n generalizing ts opened with
  | zero =>
    obtain rfl := List.length_eq_zero_iff.mp (Nat.le_zero.mp hLength)
    cases h
    exact ⟨[], [], rfl, .nil, .inl ⟨rfl, rfl⟩⟩
  | succ n ih =>
    cases ts with
    | nil =>
      cases h
      exact ⟨[], [], rfl, .nil, .inl ⟨rfl, rfl⟩⟩
    | cons t ts =>
      have hTail : ts.length ≤ n := Nat.le_of_succ_le_succ hLength
      by_cases hOpens : t.opens = true
      · rw [openAfter_opens hOpens] at h
        obtain ⟨hText, hMark⟩ := bracket_of_opens hOpens
        obtain ⟨inside, rest, rfl, hInside, hRest⟩ :=
          ih hTail (List.forall_mem_cons.mpr ⟨hText, hOpened⟩) h
        rcases hRest with ⟨hNone, -⟩ | ⟨top, outer, close, after, hSame, rfl, hClose, hAfter⟩
        · cases hNone
        · obtain ⟨rfl, rfl⟩ := List.cons.inj hSame
          have hShorter : after.length ≤ n := by
            simp only [List.length_append, List.length_cons] at hTail
            omega
          obtain ⟨more, rest, rfl, hMore, hRest⟩ := ih hShorter hOpened hAfter
          exact ⟨t :: (inside ++ close :: more), rest, by simp,
            .group hText hMark hClose hInside hMore, hRest⟩
      · rw [Bool.not_eq_true] at hOpens
        by_cases hCloses : t.closes = true
        · cases opened with
          | nil =>
            rw [openAfter_misfit hOpens hCloses (by simp)] at h
            cases h
          | cons bracket outer =>
            by_cases hFits : t.isPunctuation (closer bracket) = true
            · rw [openAfter_closes (hOpened bracket List.mem_cons_self) hFits] at h
              exact ⟨[], t :: ts, rfl, .nil, .inr ⟨bracket, outer, t, ts, rfl, rfl, hFits, h⟩⟩
            · rw [Bool.not_eq_true] at hFits
              rw [openAfter_misfit hOpens hCloses (by simpa using hFits)] at h
              cases h
        · rw [Bool.not_eq_true] at hCloses
          have hPlain : t.isBracket = false := by rw [isBracket_eq, hOpens, hCloses]; rfl
          rw [openAfter_plain hPlain] at h
          obtain ⟨inside, rest, rfl, hInside, hRest⟩ := ih hTail hOpened h
          exact ⟨t :: inside, rest, rfl, .plain hPlain hInside, hRest⟩

/-- Tokens are nested just if no closing bracket misses the innermost open one and none stays
open. -/
theorem nested_iff_openAfter (ts : List Token) : Nested ts ↔ openAfter [] ts = .ok [] := by
  constructor
  · intro h
    have hAll := openAfter_nested h [] []
    rwa [List.append_nil] at hAll
  · intro h
    obtain ⟨inside, rest, rfl, hInside, ⟨-, rfl⟩ | ⟨top, outer, close, after, hNone, -⟩⟩ :=
      exists_nested_of_openAfter (Nat.le_refl _) (by simp) h
    · rwa [List.append_nil]
    · cases hNone

/-- Whether the group of an opening bracket ends with `close` when brackets of its kind alone are
counted, whatever comes after. -/
def Counts (bracket : String) (inside : List Token) (close : Token) : Prop :=
  ∀ passed later, closeGroupFrom? bracket 0 passed (inside ++ close :: later) =
    some (passed.reverse ++ inside, close, later)

theorem closeGroupFrom?_counts {bracket : String} {depth : Nat} {passed ts group rest : List Token}
    {close : Token} (h : closeGroupFrom? bracket depth passed ts = some (group, close, rest)) :
    ∃ inside, group = passed.reverse ++ inside ∧ ts = inside ++ close :: rest ∧
      ∀ passed' later, closeGroupFrom? bracket depth passed' (inside ++ close :: later) =
        some (passed'.reverse ++ inside, close, later) := by
  fun_induction closeGroupFrom? bracket depth passed ts with
  | case1 => cases h
  | case2 depth passed t ts hOpens ih =>
    obtain ⟨inside, rfl, rfl, hCounts⟩ := ih h
    refine ⟨t :: inside, by simp, rfl, fun passed' later => ?_⟩
    rw [List.cons_append, closeGroupFrom?_opens hOpens, hCounts]
    simp
  | case3 passed t ts hOpens hCloses =>
    cases h
    rw [Bool.not_eq_true] at hOpens
    refine ⟨[], by simp, rfl, fun passed' later => ?_⟩
    rw [List.nil_append, closeGroupFrom?_ends hOpens hCloses, List.append_nil]
  | case4 passed t ts hOpens hCloses depth ih =>
    obtain ⟨inside, rfl, rfl, hCounts⟩ := ih h
    rw [Bool.not_eq_true] at hOpens
    refine ⟨t :: inside, by simp, rfl, fun passed' later => ?_⟩
    rw [List.cons_append, closeGroupFrom?_closes hOpens hCloses, hCounts]
    simp
  | case5 depth passed t ts hOpens hCloses ih =>
    obtain ⟨inside, rfl, rfl, hCounts⟩ := ih h
    rw [Bool.not_eq_true] at hOpens hCloses
    refine ⟨t :: inside, by simp, rfl, fun passed' later => ?_⟩
    rw [List.cons_append, closeGroupFrom?_passes hOpens hCloses, hCounts]
    simp

theorem counts_of_nested {inside : List Token} (h : Nested inside) {bracket : String}
    (hBracket : bracket ∈ brackets) {close : Token}
    (hClose : close.isPunctuation (closer bracket) = true) : Counts bracket inside close := by
  intro passed later
  obtain ⟨hOpens, -⟩ := marks_of_closer hBracket hBracket hClose
  rw [closeGroupFrom?_nested h hBracket, closeGroupFrom?_ends hOpens hClose, List.reverse_append,
    List.reverse_reverse]

/-- Brackets of one kind that are counted to the end of their group are all closed there, unless
inside of the group a closing bracket misses the innermost open one. -/
theorem openAfter_counted {bracket : String} (hBracket : bracket ∈ brackets) {depth : Nat}
    {passed ts group rest : List Token} {close : Token}
    (h : closeGroupFrom? bracket depth passed ts = some (group, close, rest))
    {above : List String} (hAbove : ∀ top ∈ above, top ∈ brackets)
    (hCount : above.count bracket = depth) (outer : List String) :
    openAfter (above ++ bracket :: outer) ts = openAfter outer rest ∨
      ∃ m, openAfter (above ++ bracket :: outer) ts = .error m ∧ m.opened ≠ [] := by
  -- the open brackets of the kind that is counted are as many as the counter says
  induction ts generalizing depth passed above with
  | nil => cases h
  | cons t ts ih =>
    by_cases hOpens : t.opens = true
    · obtain ⟨hText, hMark⟩ := bracket_of_opens hOpens
      obtain ⟨hSame, hOther⟩ := marks_of_bracket hText hBracket hMark
      have hAbove' : ∀ top ∈ t.text :: above, top ∈ brackets :=
        List.forall_mem_cons.mpr ⟨hText, hAbove⟩
      rw [openAfter_opens hOpens, ← List.cons_append]
      by_cases hKind : t.text = bracket
      · rw [closeGroupFrom?_opens (by simp [hSame, hKind])] at h
        exact ih h hAbove' (by rw [hKind, List.count_cons_self, hCount])
      · rw [closeGroupFrom?_passes (by simp [hSame, hKind]) hOther] at h
        exact ih h hAbove' (by rw [List.count_cons_of_ne hKind, hCount])
    · rw [Bool.not_eq_true] at hOpens
      have hNot := isPunctuation_of_opens hOpens hBracket
      by_cases hCloses : t.closes = true
      · by_cases hFits : ∀ top ∈ (above ++ bracket :: outer).head?,
            t.isPunctuation (closer top) = false
        · exact .inr ⟨_, openAfter_misfit hOpens hCloses hFits, by simp⟩
        · cases above with
          | nil =>
            have hEnds : t.isPunctuation (closer bracket) = true := by simpa using hFits
            rw [← hCount, List.count_nil, closeGroupFrom?_ends hNot hEnds] at h
            cases h
            exact .inl (openAfter_closes hBracket hEnds)
          | cons top above =>
            have hTop : t.isPunctuation (closer top) = true := by simpa using hFits
            obtain ⟨hBrackets, hAbove'⟩ := List.forall_mem_cons.mp hAbove
            rw [List.cons_append, openAfter_closes hBrackets hTop]
            by_cases hKind : top = bracket
            · rw [← hCount, hKind, List.count_cons_self,
                closeGroupFrom?_closes hNot (hKind ▸ hTop)] at h
              exact ih h hAbove' rfl
            · have hPasses : t.isPunctuation (closer bracket) = false := by
                simp [(marks_of_closer hBrackets hBracket hTop).2, hKind]
              rw [closeGroupFrom?_passes hNot hPasses] at h
              exact ih h hAbove' (by rw [← hCount, List.count_cons_of_ne hKind])
      · rw [Bool.not_eq_true] at hCloses
        have hPlain : t.isBracket = false := by rw [isBracket_eq, hOpens, hCloses]; rfl
        rw [closeGroupFrom?_passes hNot (isPunctuation_of_isBracket hPlain hBracket).2] at h
        rw [openAfter_plain hPlain]
        exact ih h hAbove hCount

/-- Tokens that the reader takes as groups: the brackets of a group are counted, or it is a scope
in braces whose tokens are such groups. What is no opening bracket and no closing brace stands for
itself. -/
inductive Grouped : List Token → Prop
  | nil : Grouped []
  | plain {t : Token} {ts : List Token} : t.opens = false → t.isPunctuation "\x7d" = false →
    Grouped ts → Grouped (t :: ts)
  | counted {opener close : Token} {inside rest : List Token} : opener.opens = true →
    Counts opener.text inside close → Grouped rest → Grouped (opener :: (inside ++ close :: rest))
  | scope {opener close : Token} {inside rest : List Token} : opener.isPunctuation "\x7b" = true →
    close.isPunctuation "\x7d" = true → Grouped inside → Grouped rest →
    Grouped (opener :: (inside ++ close :: rest))

namespace Grouped

theorem append {ts us : List Token} (h : Grouped ts) (h' : Grouped us) : Grouped (ts ++ us) := by
  induction h with
  | nil => exact h'
  | plain hOpens hBrace _ ih => exact .plain hOpens hBrace ih
  | counted hOpens hCounts _ ih =>
    rw [List.cons_append, List.append_assoc, List.cons_append]
    exact .counted hOpens hCounts ih
  | scope hOpen hClose hInside _ _ ih =>
    rw [List.cons_append, List.append_assoc, List.cons_append]
    exact .scope hOpen hClose hInside ih

theorem word {t : Token} (hText : t.text ∉ "\x7d" :: brackets) {ts : List Token} (h : Grouped ts) :
    Grouped (t :: ts) := by
  rw [List.mem_cons, not_or] at hText
  refine .plain (opens_of_text hText.2) ?_ h
  rw [← Bool.not_eq_true]
  exact fun hMark => hText.1 (text_of_isPunctuation hMark)

theorem of_nested {ts : List Token} (h : Nested ts) : Grouped ts := by
  induction h with
  | nil => exact .nil
  | plain hPlain hRest ih =>
    have hOpens := hPlain
    rw [isBracket_eq, Bool.or_eq_false_iff] at hOpens
    exact .plain hOpens.1 (hRest.plain hPlain).not_closes ih
  | group hText hOpen hClose hInside _ _ ih =>
    exact .counted (opens_of_bracket hText hOpen) (counts_of_nested hInside hText hClose) ih

/-- Grouped tokens leave open what is open before them, unless a closing bracket among them misses
the innermost open one. That bracket is no brace where nothing is open. -/
theorem openAfter {ts : List Token} (h : Grouped ts) {opened : List String}
    (hOpened : ∀ top ∈ opened.head?, top = "\x7b") (rest : List Token) :
    Token.openAfter opened (ts ++ rest) = Token.openAfter opened rest ∨
      ∃ m, Token.openAfter opened (ts ++ rest) = .error m ∧ ¬m.IsBareBrace := by
  induction h generalizing opened rest with
  | nil => exact .inl rfl
  | @plain t ts hOpens hBrace _ ih =>
    by_cases hCloses : t.closes = true
    · have hMisses : ∀ top ∈ opened.head?, t.isPunctuation (closer top) = false := by
        intro top hTop
        rw [hOpened top hTop]
        exact hBrace
      rw [List.cons_append, openAfter_misfit hOpens hCloses hMisses]
      refine .inr ⟨_, rfl, fun hBare => ?_⟩
      rw [hBare.2] at hBrace
      cases hBrace
    · rw [Bool.not_eq_true] at hCloses
      rw [List.cons_append, openAfter_plain (by rw [isBracket_eq, hOpens, hCloses]; rfl)]
      exact ih hOpened rest
  | @counted opener close inside more hOpens hCounts _ ih =>
    rw [List.cons_append, List.append_assoc, List.cons_append, openAfter_opens hOpens]
    have hAbove : ∀ top ∈ ([] : List String), top ∈ brackets := nofun
    rcases openAfter_counted (bracket_of_opens hOpens).1 (hCounts [] (more ++ rest)) hAbove
      List.count_nil opened with hClosed | ⟨m, hMisfit, hInside⟩
    · rw [List.nil_append] at hClosed
      rw [hClosed]
      exact ih hOpened rest
    · exact .inr ⟨m, hMisfit, fun hBare => hInside hBare.1⟩
  | @scope opener close inside more hOpen hClose _ _ ihInside ihRest =>
    have hText := text_of_isPunctuation hOpen
    have hBrace : "\x7b" ∈ brackets := by simp [brackets]
    rw [List.cons_append, List.append_assoc, List.cons_append,
      openAfter_opens (List.any_eq_true.mpr ⟨_, hBrace, hOpen⟩), hText]
    have hInner : ∀ top ∈ ("\x7b" :: opened).head?, top = "\x7b" := by simp
    rcases ihInside hInner (close :: (more ++ rest)) with hSame | hMisfit
    · rw [hSame, openAfter_closes hBrace hClose]
      exact ihRest hOpened rest
    · exact .inr hMisfit

theorem nested_iff {ts : List Token} (h : Grouped ts) :
    Nested ts ↔ ClosersFit ts := by
  rw [nested_iff_openAfter]
  constructor
  · intro hNone m hMisfit
    rw [hNone] at hMisfit
    cases hMisfit
  · intro hFits
    have hOutside : ∀ top ∈ ([] : List String).head?, top = "\x7b" := nofun
    have hScan := h.openAfter hOutside []
    rw [List.append_nil] at hScan
    rcases hScan with hNone | ⟨m, hMisfit, hNot⟩
    · exact hNone
    · exact absurd (hFits m hMisfit) hNot

end Grouped

end SkeletonWeave.Token
