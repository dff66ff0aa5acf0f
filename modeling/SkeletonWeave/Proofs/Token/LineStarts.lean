import SkeletonWeave.Proofs.Text.LineIndexes
import SkeletonWeave.Proofs.Token.Place
import SkeletonWeave.Proofs.Token.Retiling

/-!
# Where the line of a token starts

The start of a line stands on the line of a token exactly if the number of the
line is that of the token. It may still lie inside of something: a literal or a
comment can go over the line feed and end before the token. Where everything
that goes over a line feed is followed by another one it lies between lexemes.
-/

set_option autoImplicit false

namespace SkeletonWeave

namespace Text

/-- Whether one position of a text stands before another one, or there, with no line feed between
them. -/
def SameLine (cs : List Char) (first last : Nat) : Prop :=
  ∃ before line after, cs = before ++ (line ++ after) ∧ byteLength before = first ∧
    byteLength (before ++ line) = last ∧ '\n' ∉ line

theorem SameLine.le {cs : List Char} {first last : Nat} (h : SameLine cs first last) :
    first ≤ last := by
  obtain ⟨before, line, after, -, rfl, rfl, -⟩ := h
  rw [byteLength_append]
  exact Nat.le_add_right _ _

theorem sameLine_lineStart_iff {before rest : List Char} {line : Nat} (hFirst : 1 ≤ line)
    (hBreaks : line ≤ 1 + (before ++ rest).count '\n') :
    SameLine (before ++ rest) (lineStart (before ++ rest) line) (byteLength before) ↔
      line = 1 + before.count '\n' := by
  constructor
  · rintro ⟨start, part, after, hText, hStart, hStop, hPart⟩
    rw [← List.append_assoc] at hText
    obtain ⟨rfl, rfl⟩ := cut_unique hText hStop.symm
    have hCount : (start ++ part).count '\n' = start.count '\n' := by
      rw [List.count_append, List.count_eq_zero.mpr hPart, Nat.add_zero]
    rw [hCount]
    rw [List.append_assoc] at hStart hBreaks
    rcases Nat.lt_trichotomy line (1 + start.count '\n') with hLess | hSame | hMore
    · have hOther := lineStart_lt (start ++ (part ++ rest)) hFirst hLess
        (by rw [List.count_append]; omega)
      have hLast := lineStart_le (part ++ rest) (Nat.le_add_right 1 _)
        (Nat.le_refl (1 + start.count '\n'))
      omega
    · exact hSame
    · have := lt_lineStart hMore hBreaks
      omega
  · rintro rfl
    obtain ⟨whole, part, hCut, -, hPart, hWhole⟩ := exists_lastLine before
    refine ⟨whole, part, rest, by rw [hCut, List.append_assoc], ?_, by rw [hCut], hPart⟩
    rw [lineStart_eq_lastLineStart, hWhole]

end Text

def Lexeme.Spreads (l : Lexeme) : Prop :=
  '\n' ∈ l.chars.dropLast

namespace Token

open Text

def Outside (ls : List Lexeme) (position : Nat) : Prop :=
  ∀ passed l more, ls = passed ++ l :: more →
    position ≤ byteLength (charsOf passed) ∨
      byteLength (charsOf passed) + byteLength l.chars ≤ position

/-- Whether each lexeme that goes over a line feed is followed by another one. -/
def Settled (ls : List Lexeme) : Prop :=
  ∀ passed l more, ls = passed ++ l :: more → l.Spreads → '\n' ∈ charsOf more

namespace Tiled

variable {atLineStart : Bool} {cs : List Char} {ls more : List Lexeme} {l : Lexeme}

theorem eq_newline (h : Tiled atLineStart ('\n' :: cs) (l :: more)) : l = ⟨.newline, ['\n']⟩ := by
  cases h with
  | step hNext _ _ =>
    cases hNext
    rfl

theorem not_spreads_of_getLast? (h : Tiled atLineStart cs (l :: more))
    (hNext : ∃ c ∈ (charsOf more).head?, c ≠ '\n') (hLast : l.chars.getLast? = some '\n') :
    ¬l.Spreads := by
  obtain ⟨c, part, rest, hChars, -, hEnds, hRest, -⟩ := h.exists_step
  have hMore : rest = charsOf more := hRest.flatMap_chars
  obtain ⟨d, hHead, hOther⟩ := hNext
  rw [← hMore] at hHead
  have hMem : '\n' ∈ l.chars := List.mem_of_getLast? hLast
  cases hEnds with
  | newline hLexeme =>
    rw [hLexeme]
    exact List.not_mem_nil
  | joint hLexeme =>
    rw [hLexeme]
    exact (by decide : '\n' ∉ ['\\'])
  | blank _ hLexeme =>
    rw [hLexeme]
    exact List.not_mem_nil
  | line _ hNone => exact absurd hMem hNone
  | block _ hSlash =>
    rw [hSlash] at hLast
    cases hLast
  | literal _ hQuote hQuoted =>
    rw [hQuoted, Option.some.injEq] at hLast
    rw [hLast] at hQuote
    cases hQuote
  | token _ hPlain => exact absurd rfl (hPlain '\n' hMem).2
  | directive _ hEnd => exact absurd (hEnd d hHead) hOther

end Tiled

theorem getLast?_of_notMem {first second : List Char} {c : Char}
    (h : (first ++ second).getLast? = some c) (hSecond : c ∉ second) : first.getLast? = some c := by
  rw [List.getLast?_append] at h
  cases hLast : second.getLast? with
  | none => rwa [hLast, Option.none_or] at h
  | some d =>
    rw [hLast, Option.some_or] at h
    cases h
    exact absurd (List.mem_of_getLast? hLast) hSecond

theorem exists_cut {passed : List Lexeme} {whole line : List Char}
    (hCut : charsOf passed = whole ++ line) :
    (∃ before after, passed = before ++ after ∧ charsOf before = whole ∧ charsOf after = line) ∨
      ∃ before l after part tail, passed = before ++ l :: after ∧ l.chars = part ++ tail ∧
        part ≠ [] ∧ tail ≠ [] ∧ whole = charsOf before ++ part ∧ line = tail ++ charsOf after := by
  induction passed generalizing whole with
  | nil =>
    obtain ⟨rfl, rfl⟩ := List.append_eq_nil_iff.mp hCut.symm
    exact .inl ⟨[], [], rfl, rfl, rfl⟩
  | cons m passed ih =>
    rw [charsOf_cons] at hCut
    rcases List.append_eq_append_iff.mp hCut with ⟨part, rfl, hRest⟩ | ⟨tail, hChars, rfl⟩
    · rcases ih hRest with ⟨before, after, rfl, rfl, rfl⟩ |
        ⟨before, l, after, part', tail, rfl, hChars, hPart, hTail, rfl, rfl⟩
      · exact .inl ⟨m :: before, after, rfl, charsOf_cons m before, rfl⟩
      · exact .inr ⟨m :: before, l, after, part', tail, rfl, hChars, hPart, hTail, by simp, rfl⟩
    · by_cases hWhole : whole = []
      · exact .inl ⟨[], m :: passed, rfl, hWhole.symm, by rw [charsOf_cons, hChars, hWhole]; rfl⟩
      by_cases hTail : tail = []
      · exact .inl ⟨[m], passed, rfl, by simp [hChars, hTail], by simp [hTail]⟩
      · exact .inr ⟨[], m, passed, whole, tail, rfl, hChars, hWhole, hTail, rfl, rfl⟩

section

variable {passed more : List Lexeme} {l : Lexeme} {whole line : List Char}

theorem outside_iff_cut (hCut : charsOf passed = whole ++ line) :
    Outside (passed ++ l :: more) (byteLength whole) ↔
      ∃ before after, passed = before ++ after ∧ charsOf before = whole ∧ charsOf after = line := by
  constructor
  · intro hOutside
    refine (exists_cut hCut).resolve_right ?_
    rintro ⟨before, m, after, part, tail, rfl, hChars, hPart, hTail, rfl, rfl⟩
    have hApart := hOutside before m (after ++ l :: more) (by simp)
    have := byteLength_pos hPart
    have := byteLength_pos hTail
    rw [hChars, byteLength_append, byteLength_append] at hApart
    omega
  · rintro ⟨before, after, rfl, rfl, rfl⟩ first m last hSplit
    rw [List.append_assoc] at hSplit
    rcases List.append_eq_append_iff.mp hSplit with ⟨between, rfl, -⟩ | ⟨between, rfl, hRest⟩
    · left
      rw [charsOf_append, byteLength_append]
      exact Nat.le_add_right _ _
    · cases between with
      | nil =>
        left
        rw [List.append_nil]
      | cons k between =>
        obtain ⟨rfl, -⟩ := List.cons.inj hRest
        right
        rw [charsOf_append, charsOf_cons, byteLength_append, byteLength_append]
        omega

theorem exists_cut_of_settled (hCut : charsOf passed = whole ++ line)
    (hEnd : whole = [] ∨ whole.getLast? = some '\n') (hLine : '\n' ∉ line)
    (hSettled : Settled passed) :
    ∃ before after, passed = before ++ after ∧ charsOf before = whole ∧ charsOf after = line := by
  refine (exists_cut hCut).resolve_right ?_
  rintro ⟨before, m, after, part, tail, rfl, hChars, hPart, hTail, rfl, rfl⟩
  have hLast : '\n' ∈ part := by
    rcases hEnd with hNone | hLast
    · exact absurd (List.append_eq_nil_iff.mp hNone).2 hPart
    · rw [List.getLast?_append_of_ne_nil _ hPart] at hLast
      exact List.mem_of_getLast? hLast
  refine hLine (List.mem_append_right tail (hSettled before m after rfl ?_))
  rw [Lexeme.Spreads, hChars, List.dropLast_append_of_ne_nil hTail]
  exact List.mem_append_left _ hLast

theorem head?_ne_newline {st : Bool} {cs : List Char} {after : List Lexeme}
    (hTiled : Tiled st cs (after ++ l :: more)) (hToken : l ≠ ⟨.newline, ['\n']⟩)
    (hLine : '\n' ∉ charsOf after) : ∃ c ∈ (charsOf (after ++ l :: more)).head?, c ≠ '\n' := by
  rw [charsOf_append, charsOf_cons]
  cases hAfter : charsOf after with
  | cons c rest =>
    rw [hAfter, List.mem_cons, not_or] at hLine
    exact ⟨c, rfl, fun h => hLine.1 h.symm⟩
  | nil =>
    obtain ⟨rest, -, hRest⟩ := hTiled.cut_append
    obtain ⟨c, part, more', hChars, rfl, -⟩ := hRest.exists_step
    rw [hChars]
    refine ⟨c, rfl, ?_⟩
    rintro rfl
    exact hToken hRest.eq_newline

/-- Where the last line starts between two lexemes everything is settled: what goes over a line feed
without another one behind it would have to end with the line feed before that line. -/
theorem settled_of_cut {cs : List Char} {before after : List Lexeme}
    (hTiled : Tiled true cs (before ++ after ++ l :: more)) (hToken : l ≠ ⟨.newline, ['\n']⟩)
    (hEnd : charsOf before = [] ∨ (charsOf before).getLast? = some '\n')
    (hLine : '\n' ∉ charsOf after) : Settled (before ++ after) := by
  intro first m last hSplit hSpreads
  by_contra hNone
  have hMem : '\n' ∈ m.chars := List.dropLast_subset _ hSpreads
  obtain ⟨between, rfl, rfl⟩ :
      ∃ between, before = first ++ m :: between ∧ last = between ++ after := by
    rcases List.append_eq_append_iff.mp hSplit with ⟨between, rfl, rfl⟩ | ⟨between, rfl, hRest⟩
    · exact absurd (by simp [hMem]) hLine
    · cases between with
      | nil =>
        rw [List.nil_append] at hRest
        exact absurd (by simp [← hRest, hMem]) hLine
      | cons k between =>
        obtain ⟨rfl, rfl⟩ := List.cons.inj hRest
        exact ⟨between, rfl, rfl⟩
  rw [charsOf_append, List.mem_append, not_or] at hNone
  have hLast : m.chars.getLast? = some '\n' := by
    rw [charsOf_append, charsOf_cons, ← List.append_assoc] at hEnd
    rcases hEnd with hEmpty | hLast
    · simp only [List.append_eq_nil_iff] at hEmpty
      exact absurd hMem (by simp [hEmpty.1.2])
    · have hBefore := getLast?_of_notMem hLast hNone.1
      rwa [List.getLast?_append_of_ne_nil _ (List.ne_nil_of_mem hMem)] at hBefore
  have hHere : Tiled true cs (first ++ m :: (between ++ after ++ l :: more)) := by
    simpa using hTiled
  obtain ⟨rest, -, hRest⟩ := hHere.cut_append
  refine hRest.not_spreads_of_getLast? ?_ hLast hSpreads
  have hLater : Tiled true cs (first ++ [m] ++ (between ++ after ++ l :: more)) := by
    simpa using hTiled
  obtain ⟨_, -, hLater⟩ := hLater.cut_append
  refine head?_ne_newline hLater hToken ?_
  rw [charsOf_append, List.mem_append, not_or]
  exact hNone

/-- A line starts on the line of a token, and inside of no lexeme, exactly if it has the number of
the line of the token and everything before the token that goes over a line feed is followed by
another one. -/
theorem lineStart_on_line_iff {cs : List Char} (hTiled : Tiled true cs (passed ++ l :: more))
    (hToken : l ≠ ⟨.newline, ['\n']⟩) {number : Nat} (hFirst : 1 ≤ number)
    (hBreaks : number ≤ 1 + cs.count '\n') :
    (SameLine cs (lineStart cs number) (byteLength (charsOf passed)) ∧
        Outside (passed ++ l :: more) (lineStart cs number)) ↔
      number = 1 + (charsOf passed).count '\n' ∧ Settled passed := by
  have hText : cs = charsOf passed ++ charsOf (l :: more) := by
    rw [← charsOf_append]
    exact hTiled.flatMap_chars
  obtain ⟨whole, line, hCut, hEnd, hLine, hWhole⟩ := exists_lastLine (charsOf passed)
  rw [hText] at hBreaks ⊢
  rw [sameLine_lineStart_iff hFirst hBreaks, and_congr_right_iff]
  rintro rfl
  rw [lineStart_eq_lastLineStart, ← hWhole, outside_iff_cut hCut]
  constructor
  · rintro ⟨before, after, rfl, rfl, rfl⟩
    exact settled_of_cut hTiled hToken hEnd hLine
  · exact exists_cut_of_settled hCut hEnd hLine

end

end Token

end SkeletonWeave
