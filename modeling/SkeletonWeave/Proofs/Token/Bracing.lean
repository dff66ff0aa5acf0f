import SkeletonWeave.Proofs.Token.Replacing

/-!
# Braces among tokens

The bodies of a rewriting have their braces in order among the tokens of a text.
Each of them takes the lexemes apart: what stands before the body, what stands
in it, and the rest.
-/

set_option autoImplicit false

namespace SkeletonWeave

open Text

namespace Token

variable {w : Rewrite} {file offset line : Nat} {ls : List Lexeme}

theorem eq_brace_of_toToken? (mark : Char) {l : Lexeme} {t : Token}
    (h : l.toToken? file offset line = some t)
    (hMark : t.isPunctuation (String.singleton mark) = true) : l = brace mark := by
  simp only [Token.isPunctuation, Bool.and_eq_true, beq_iff_eq] at hMark
  obtain ⟨role, chars⟩ := l
  unfold Lexeme.toToken? at h
  split at h
  · next kind hRole =>
    cases h
    simp only at hRole hMark
    rw [brace, hRole, hMark.1, ← String.toList_ofList (l := chars), hMark.2, String.toList_singleton]
  · cases h
    exact absurd hMark.1 (by simp)
  · cases h

theorem exists_lexeme {before after : List Token} {t : Token}
    (h : ofLexemes file offset line ls = before ++ t :: after) :
    ∃ passed l more, ls = passed ++ l :: more ∧ before = ofLexemes file offset line passed ∧
      l.toToken? file (offset + byteLength (charsOf passed)) (line + linesOf passed) = some t ∧
      after = ofLexemes file (offset + byteLength (charsOf passed) + byteLength l.chars)
        (line + linesOf passed + l.lines) more := by
  obtain ⟨passed, l, more, rfl, hBefore, hToken⟩ := exists_of_ofLexemes h
  refine ⟨passed, l, more, rfl, hBefore, hToken, ?_⟩
  have hToken' : l.toToken? file (offset + byteLength (charsOf passed)) (line + linesOf passed) =
      some t := hToken
  rw [ofLexemes_cut, ← hBefore, ofLexemes, hToken', Option.toList_some, List.singleton_append] at h
  exact (List.cons.inj (List.append_cancel_left h)).2.symm

theorem start_le_stop_of_mem_ofLexemes {t : Token} (ht : t ∈ ofLexemes file offset line ls) :
    t.span.start ≤ t.span.stop := by
  obtain ⟨before, after, hTokens⟩ := List.append_of_mem ht
  obtain ⟨_, l, _, -, -, hToken⟩ := exists_of_ofLexemes hTokens
  rw [(span_of_toToken? hToken).1]
  exact Nat.le_add_right _ _

/-- Whether the braces of bodies stand in order among tokens, and no other token opens a body of a
rewriting. -/
inductive Braced (w : Rewrite) : List Source.Body → List Token → Prop
  | done {ts : List Token} : SparesBodies w ts → Braced w [] ts
  | body {b : Source.Body} {bs : List Source.Body} {before inside after : List Token}
    {opening closing : Token} : b ∈ w.bodies → opening.span = b.opening → closing.span = b.closing →
    opening.isPunctuation "\x7b" = true → closing.isPunctuation "\x7d" = true →
    SparesBodies w before → Braced w bs after →
    Braced w (b :: bs) (before ++ opening :: (inside ++ closing :: after))

theorem Braced.exists_opening {bs : List Source.Body} {ts : List Token} (h : Braced w bs ts) :
    ∀ b ∈ bs, ∃ t ∈ ts, t.span = b.opening ∧ t.isPunctuation "\x7b" = true := by
  induction h with
  | done => simp
  | body _ hOpening _ hOpen _ _ _ ih =>
    refine List.forall_mem_cons.mpr ⟨⟨_, by simp, hOpening, hOpen⟩, fun b hb => ?_⟩
    obtain ⟨t, ht, hToken⟩ := ih b hb
    exact ⟨t, by simp [ht], hToken⟩

theorem exists_of_cons_sublist {a : Source.Span} {spans : List Source.Span} {ts : List Token}
    (h : (a :: spans).Sublist (ts.map (·.span))) :
    ∃ before t after, ts = before ++ t :: after ∧ t.span = a ∧ spans.Sublist (after.map (·.span)) := by
  induction ts with
  | nil => cases h
  | cons u ts ih =>
    cases h with
    | cons _ h =>
      obtain ⟨before, t, after, rfl, hSpan, hRest⟩ := ih h
      exact ⟨u :: before, t, after, rfl, hSpan, hRest⟩
    | cons_cons _ h => exact ⟨[], u, ts, rfl, rfl, h⟩

theorem Braced.of_sublist {bs : List Source.Body} {ts : List Token} (hBodies : ∀ b ∈ bs, b ∈ w.bodies)
    (hOrder : ts.Pairwise fun t u => t.span.stop ≤ u.span.start)
    (hWidth : ∀ t ∈ ts, t.span.start < t.span.stop)
    (hBraces : (bs.flatMap fun b => [b.opening, b.closing]).Sublist (ts.map (·.span)))
    (hMarks : ∀ b ∈ bs, ∀ t ∈ ts, (t.span = b.opening → t.isPunctuation "\x7b" = true) ∧
      (t.span = b.closing → t.isPunctuation "\x7d" = true))
    (hOnly : ∀ t ∈ ts, ∀ b ∈ w.bodies, t.span = b.opening → b ∈ bs) : Braced w bs ts := by
  induction bs generalizing ts with
  | nil => exact .done fun t ht b hb hOpening => absurd (hOnly t ht b hb hOpening) List.not_mem_nil
  | cons b bs ih =>
    obtain ⟨before, opening, rest, rfl, hOpening, hBraces⟩ := exists_of_cons_sublist hBraces
    obtain ⟨inside, closing, after, rfl, hClosing, hBraces⟩ := exists_of_cons_sublist hBraces
    have hApart {t u : Token} (ht : t ∈ before ++ opening :: (inside ++ closing :: after))
        (hu : t.span.stop ≤ u.span.start) : t.span ≠ u.span := by
      intro hSame
      have := hWidth t ht
      rw [hSame] at this hu
      omega
    have hSpares : SparesBodies w before := by
      intro t ht b' hb' hSpan
      have hMem : b'.opening ∈ (opening :: (inside ++ closing :: after)).map (·.span) := by
        rcases List.mem_cons.mp (hOnly t (by simp [ht]) b' hb' hSpan) with rfl | hMem
        · simp [hOpening]
        · have hLater := hBraces.subset (List.mem_flatMap.mpr ⟨b', hMem, List.mem_cons_self⟩)
          simp only [List.map_cons, List.map_append, List.mem_cons, List.mem_append]
          exact .inr (.inr (.inr hLater))
      obtain ⟨u, hu, hSame⟩ := List.mem_map.mp hMem
      exact hApart (by simp [ht]) ((List.pairwise_append.mp hOrder).2.2 t ht u hu)
        (hSpan.trans hSame.symm)
    have hRest := (List.pairwise_append.mp hOrder).2.1
    refine .body (hBodies b List.mem_cons_self) hOpening hClosing
      ((hMarks b List.mem_cons_self opening (by simp)).1 hOpening)
      ((hMarks b List.mem_cons_self closing (by simp)).2 hClosing) hSpares (ih ?_ ?_ ?_ hBraces ?_ ?_)
    · exact fun b' hb' => hBodies b' (List.mem_cons_of_mem b hb')
    · exact (List.pairwise_append.mp hRest.tail).2.1.tail
    · exact fun t ht => hWidth t (by simp [ht])
    · exact fun b' hb' t ht => hMarks b' (List.mem_cons_of_mem b hb') t (by simp [ht])
    · intro t ht b' hb' hSpan
      rcases List.mem_cons.mp (hOnly t (by simp [ht]) b' hb' hSpan) with rfl | hMem
      · have hNext := List.rel_of_pairwise_cons hRest (by simp [ht] : t ∈ inside ++ closing :: after)
        exact absurd (hOpening.trans hSpan.symm) (hApart (by simp) hNext)
      · exact hMem

theorem exists_body {before inside after : List Token} {opening closing : Token}
    (h : ofLexemes file offset line ls = before ++ opening :: (inside ++ closing :: after))
    (hOpen : opening.isPunctuation "\x7b" = true) (hClose : closing.isPunctuation "\x7d" = true) :
    ∃ passed within more, ls = passed ++ brace '\x7b' :: (within ++ brace '\x7d' :: more) ∧
      before = ofLexemes file offset line passed ∧
      opening.span = ⟨file, offset + byteLength (charsOf passed),
        offset + byteLength (charsOf passed) + 1⟩ ∧
      closing.span = ⟨file, offset + byteLength (charsOf passed) + 1 + byteLength (charsOf within),
        offset + byteLength (charsOf passed) + 1 + byteLength (charsOf within) + 1⟩ ∧
      after = ofLexemes file
        (offset + byteLength (charsOf passed) + 1 + byteLength (charsOf within) + 1)
        (line + linesOf passed + linesOf within) more := by
  obtain ⟨passed, l, rest, rfl, hBefore, hOpening, hRest⟩ := exists_lexeme h
  obtain rfl := eq_brace_of_toToken? '\x7b' hOpening hOpen
  obtain ⟨within, l, more, rfl, -, hClosing, hAfter⟩ := exists_lexeme hRest.symm
  obtain rfl := eq_brace_of_toToken? '\x7d' hClosing hClose
  exact ⟨passed, within, more, rfl, hBefore, (span_of_toToken? hOpening).1, (span_of_toToken? hClosing).1,
    hAfter⟩

end Token

end SkeletonWeave
