import SkeletonWeave.Generation.Server
import SkeletonWeave.Proofs.Token.Place

/-!
# The comment at the start of a text

The comment lines at the start of a text hold no word: what is not a comment in
them is white space, of which the reader makes marks of one character at most.
So every word stands on a later line.
-/

set_option autoImplicit false

namespace SkeletonWeave

open Text

namespace Lexeme

/-- Whether a lexeme gives no token of more than one character, and hides no line feed. -/
structure IsWordless (l : Lexeme) : Prop where
  lines_eq : l.lines = l.chars.count '\n'
  short : ∀ file offset line t, l.toToken? file offset line = some t → t.text.toList.length = 1

theorem isWordless_of_role {l : Lexeme} (hPlain : ∀ kind, l.role ≠ .plain kind)
    (hDirective : ∀ text, l.role ≠ .directive text) : l.IsWordless where
  lines_eq := by
    unfold lines
    split
    · next kind hRole => exact absurd hRole (hPlain kind)
    · rfl
  short := by
    intro file offset line t ht
    unfold toToken? at ht
    split at ht
    · next kind hRole => exact absurd hRole (hPlain kind)
    · next text hRole => exact absurd hRole (hDirective text)
    · cases ht

theorem isWordless_of_single (kind : TokenKind) {c : Char} (hBreak : c ≠ '\n') :
    (⟨.plain kind, [c]⟩ : Lexeme).IsWordless where
  lines_eq := by simp [lines, hBreak]
  short := by
    intro file offset line t ht
    cases ht
    simp

theorem toNat_of_isBlank {c : Char} (h : isBlank c = true) : c.toNat ≤ 32 ∨ 133 ≤ c.toNat := by
  simp only [isBlank, Bool.or_eq_true, Bool.and_eq_true, decide_eq_true_eq, beq_iff_eq] at h
  omega

theorem ne_of_isBlank {c d : Char} (h : isBlank c = true) (hOther : isBlank d = false) : c ≠ d := by
  rintro rfl
  rw [h] at hOther
  cases hOther

theorem isAlpha_iff {c : Char} :
    c.isAlpha = true ↔ 65 ≤ c.toNat ∧ c.toNat ≤ 90 ∨ 97 ≤ c.toNat ∧ c.toNat ≤ 122 := by
  have hRanges : c.isAlpha = (decide ('A'.val ≤ c.val ∧ c.val ≤ 'Z'.val) ||
      (decide ('a'.val ≤ c.val) && decide (c.val ≤ 'z'.val))) := rfl
  rw [hRanges]
  simp only [Bool.or_eq_true, Bool.and_eq_true, decide_eq_true_eq, UInt32.le_iff_toNat_le]
  rfl

theorem not_isNameStart_of_isBlank {c : Char} (h : isBlank c = true) : isNameStart c = false := by
  have hCode := toNat_of_isBlank h
  have hLetter : c.isAlpha = false := by
    rw [← Bool.not_eq_true]
    intro hAlpha
    have hRanges := isAlpha_iff.mp hAlpha
    omega
  simp [isNameStart, hLetter, ne_of_isBlank h (by decide : isBlank '_' = false),
    ne_of_isBlank h (by decide : isBlank '$' = false)]

theorem not_isDigit_of_isBlank {c : Char} (h : isBlank c = true) : c.isDigit = false := by
  have hCode := toNat_of_isBlank h
  rw [← Bool.not_eq_true]
  intro hDigit
  have hRange : 48 ≤ c.toNat ∧ c.toNat ≤ 57 := Char.isDigit_iff_toNat.mp hDigit
  omega

theorem punctuation_of_isBlank {c : Char} (h : isBlank c = true) (cs : List Char) :
    punctuation c cs = ⟨.plain .punctuation, [c]⟩ := by
  have hNone : longPunctuation.find? (fun p => p.toList.isPrefixOf (c :: cs)) = none := by
    rw [List.find?_eq_none]
    intro p hp hPrefix
    have hMarks : ∀ q ∈ longPunctuation, (q.toList.head?.any fun d => !isBlank d) = true := by
      decide +kernel
    have hMark := hMarks p hp
    cases hChars : p.toList with
    | nil => simp [hChars] at hMark
    | cons d ds =>
      rw [hChars, List.isPrefixOf_cons_cons, Bool.and_eq_true, beq_iff_eq] at hPrefix
      simp [hChars, hPrefix.1, h] at hMark
  rw [punctuation, hNone]

theorem token_of_isBlank {c : Char} (h : isBlank c = true) (cs : List Char) :
    token c cs = .ok ⟨.plain .punctuation, [c]⟩ := by
  have hPoint : (c == '.') = false := beq_eq_false_iff_ne.mpr (ne_of_isBlank h (by decide))
  have hQuote : isQuote c = false := by
    simp [isQuote, ne_of_isBlank h (by decide : isBlank '"' = false),
      ne_of_isBlank h (by decide : isBlank '\'' = false)]
  rw [token, not_isNameStart_of_isBlank h, not_isDigit_of_isBlank h, hPoint, hQuote,
    punctuation_of_isBlank h]
  simp

theorem next_of_isBlank {atLineStart : Bool} {c : Char} {cs : List Char} {l : Lexeme}
    (h : isBlank c = true) (hBreak : c ≠ '\n') (hNext : next atLineStart c cs = .ok l) :
    l.chars = [c] ∧ l.IsWordless := by
  unfold next at hNext
  split at hNext
  · exact absurd rfl hBreak
  · exact absurd h (by decide)
  · exact absurd h (by decide)
  · exact absurd h (by decide)
  · split at hNext
    · cases hNext
      exact ⟨rfl, isWordless_of_role (by simp) (by simp)⟩
    · have hHash : (c = '#' && atLineStart) = false := by
        simp [ne_of_isBlank h (by decide : isBlank '#' = false)]
      rw [hHash, token_of_isBlank h] at hNext
      cases hNext
      exact ⟨rfl, isWordless_of_single _ hBreak⟩

theorem next_comment (atLineStart : Bool) {more : List Char} (hMore : '\n' ∉ more)
    {rest : List Char} (hEnd : rest.head?.all (· = '\n')) :
    next atLineStart '/' ('/' :: (more ++ rest)) = .ok ⟨.comment, '/' :: '/' :: more⟩ := by
  have hLine : lineRest ('/' :: (more ++ rest)) = '/' :: more := by
    have hAll : ∀ c ∈ '/' :: more, decide (c ≠ '\n') = true := by
      intro c hc
      rcases List.mem_cons.mp hc with rfl | hc
      · decide
      · have hOther : c ≠ '\n' := by
          rintro rfl
          exact hMore hc
        simpa using hOther
    rw [lineRest, ← List.cons_append, List.takeWhile_append_of_pos hAll]
    cases rest with
    | nil => simp
    | cons c rest => simp_all
  rw [next, hLine]

end Lexeme

namespace Token

def Passes (chars rest : List Char) (ls : List Lexeme) : Prop :=
  ∃ passed later atLineStart, ls = passed ++ later ∧ passed.flatMap (·.chars) = chars ∧
    (∀ l ∈ passed, l.IsWordless) ∧ Tiled atLineStart rest later

theorem Passes.trans {first second rest : List Char} {ls : List Lexeme}
    (h : Passes first (second ++ rest) ls)
    (hNext : ∀ atLineStart later, Tiled atLineStart (second ++ rest) later →
      Passes second rest later) :
    Passes (first ++ second) rest ls := by
  obtain ⟨passed, later, atLineStart, rfl, rfl, hWordless, hTiled⟩ := h
  obtain ⟨more, rest', atLineStart', rfl, rfl, hMore, hRest⟩ := hNext atLineStart later hTiled
  refine ⟨passed ++ more, rest', atLineStart', ?_, ?_, ?_, hRest⟩
  · rw [List.append_assoc]
  · rw [List.flatMap_append]
  · intro l hl
    rcases List.mem_append.mp hl with hl | hl
    · exact hWordless l hl
    · exact hMore l hl

theorem passes_of_step {atLineStart : Bool} {c : Char} {cs chars rest : List Char}
    {ls : List Lexeme} (hTiled : Tiled atLineStart (c :: cs) ls)
    (hNext : ∀ l, Lexeme.next atLineStart c cs = .ok l → l.chars = chars ∧ l.IsWordless)
    (hCut : c :: cs = chars ++ rest) : Passes chars rest ls := by
  cases hTiled with
  | @step _ _ _ rest' l later hLexeme hChars hRest =>
    obtain ⟨rfl, hWordless⟩ := hNext l hLexeme
    obtain rfl := List.append_cancel_left (hCut.symm.trans hChars)
    exact ⟨[l], later, _, rfl, by simp, by simpa using hWordless, hRest⟩

theorem passes_blanks {blanks : List Char}
    (hBlanks : ∀ c ∈ blanks, isBlank c = true ∧ c ≠ '\n') {rest : List Char} {atLineStart : Bool}
    {ls : List Lexeme} (hTiled : Tiled atLineStart (blanks ++ rest) ls) :
    Passes blanks rest ls := by
  induction blanks generalizing atLineStart ls with
  | nil => exact ⟨[], ls, atLineStart, rfl, rfl, by simp, hTiled⟩
  | cons c blanks ih =>
    obtain ⟨hBlank, hBreak⟩ := hBlanks c List.mem_cons_self
    have hFirst : Passes [c] (blanks ++ rest) ls :=
      passes_of_step hTiled (fun l => Lexeme.next_of_isBlank hBlank hBreak) rfl
    exact hFirst.trans fun _ _ => ih fun d hd => hBlanks d (List.mem_cons_of_mem c hd)

theorem passes_comment {more rest : List Char} (hMore : '\n' ∉ more)
    (hEnd : rest.head?.all (· = '\n')) {atLineStart : Bool} {ls : List Lexeme}
    (hTiled : Tiled atLineStart ('/' :: '/' :: (more ++ rest)) ls) :
    Passes ('/' :: '/' :: more) rest ls := by
  refine passes_of_step hTiled ?_ rfl
  intro l hNext
  rw [Lexeme.next_comment atLineStart hMore hEnd] at hNext
  cases hNext
  exact ⟨rfl, Lexeme.isWordless_of_role (by simp) (by simp)⟩

theorem passes_break {rest : List Char} {atLineStart : Bool} {ls : List Lexeme}
    (hTiled : Tiled atLineStart ('\n' :: rest) ls) : Passes ['\n'] rest ls := by
  refine passes_of_step hTiled ?_ rfl
  intro l hNext
  cases hNext
  exact ⟨rfl, Lexeme.isWordless_of_role (by simp) (by simp)⟩

theorem exists_of_isCommentLine {line : List Char} (h : Generation.isCommentLine line = true) :
    ∃ blanks more, line = blanks ++ '/' :: '/' :: more ∧ ∀ c ∈ blanks, isBlank c = true := by
  rw [Generation.isCommentLine, trimLeft, List.isPrefixOf_iff_prefix] at h
  obtain ⟨more, hMore⟩ := h
  refine ⟨line.takeWhile isBlank, more, ?_, fun c hc => List.all_eq_true.mp List.all_takeWhile c hc⟩
  have hSplit := (List.takeWhile_append_dropWhile (p := isBlank) (l := line)).symm
  rw [← hMore] at hSplit
  exact hSplit

theorem passes_commentLine {line rest : List Char} (hLine : '\n' ∉ line)
    (hComment : Generation.isCommentLine line = true) (hEnd : rest.head?.all (· = '\n'))
    {atLineStart : Bool} {ls : List Lexeme} (hTiled : Tiled atLineStart (line ++ rest) ls) :
    Passes line rest ls := by
  obtain ⟨blanks, more, rfl, hBlanks⟩ := exists_of_isCommentLine hComment
  have hParts : '\n' ∉ blanks ∧ '\n' ∉ more := by simpa using hLine
  rw [List.append_assoc] at hTiled
  have hFirst : Passes blanks ('/' :: '/' :: more ++ rest) ls := by
    refine passes_blanks (fun c hc => ⟨hBlanks c hc, ?_⟩) hTiled
    rintro rfl
    exact hParts.1 hc
  exact hFirst.trans fun _ _ hComment => passes_comment hParts.2 hEnd hComment

theorem isCommentLine_of_break {line : List Char}
    (h : Generation.isCommentLine (line ++ ['\n']) = true) :
    Generation.isCommentLine line = true := by
  obtain ⟨blanks, more, hCut, hBlanks⟩ := exists_of_isCommentLine h
  have hLine : ∃ more', line = blanks ++ '/' :: '/' :: more' := by
    rcases List.eq_nil_or_concat more with rfl | ⟨more', last, rfl⟩
    · have hLast := congrArg List.getLast? hCut
      simp at hLast
    · refine ⟨more', ?_⟩
      rw [List.concat_eq_append, ← List.cons_append, ← List.cons_append, ← List.append_assoc] at hCut
      exact (List.append_inj' hCut rfl).1
  obtain ⟨more', rfl⟩ := hLine
  rw [Generation.isCommentLine, trimLeft, List.dropWhile_append_of_pos hBlanks]
  rfl

theorem passes_lead {lead rest : List (List Char)} (hLined : Lined (lead ++ rest))
    (hComment : ∀ line ∈ lead, Generation.isCommentLine line = true) {atLineStart : Bool}
    {ls : List Lexeme} (hTiled : Tiled atLineStart (lead ++ rest).flatten ls) :
    Passes lead.flatten rest.flatten ls := by
  induction lead generalizing atLineStart ls with
  | nil => exact ⟨[], ls, atLineStart, rfl, rfl, by simp, hTiled⟩
  | cons line lead ih =>
    have hFirst := hComment line List.mem_cons_self
    have hOthers : ∀ line ∈ lead, Generation.isCommentLine line = true := fun other hOther =>
      hComment other (List.mem_cons_of_mem line hOther)
    rw [List.cons_append] at hLined hTiled
    -- only the last line of the text may end without a line feed
    generalize hAll : lead ++ rest = all at hLined hTiled
    rw [List.flatten_cons] at hTiled
    rw [List.flatten_cons]
    cases hLined with
    | last _ hLine =>
      obtain ⟨rfl, rfl⟩ := List.append_eq_nil_iff.mp hAll
      simpa using passes_commentLine hLine hFirst rfl hTiled
    | @whole body _ hLine hRest =>
      subst hAll
      rw [List.append_assoc, List.singleton_append] at hTiled
      have hBody := passes_commentLine hLine (isCommentLine_of_break hFirst) rfl hTiled
      have hWhole : Passes (body ++ ['\n']) (lead ++ rest).flatten ls :=
        hBody.trans fun _ _ => passes_break
      rw [List.flatten_append] at hWhole
      refine hWhole.trans fun _ _ hLater => ?_
      rw [← List.flatten_append] at hLater
      exact ih hRest hOthers hLater

theorem ofLexemes_append (file offset line : Nat) (ls more : List Lexeme) :
    ofLexemes file offset line (ls ++ more) = ofLexemes file offset line ls ++
      ofLexemes file (offset + byteLength (ls.flatMap (·.chars)))
        (line + (ls.map (·.lines)).sum) more := by
  induction ls generalizing offset line with
  | nil => rfl
  | cons l ls ih =>
    rw [List.cons_append, ofLexemes, ih, ofLexemes, List.append_assoc, List.flatMap_cons,
      byteLength_append, List.map_cons, List.sum_cons, Nat.add_assoc, Nat.add_assoc]

theorem sum_lines_of_wordless {ls : List Lexeme} (h : ∀ l ∈ ls, l.IsWordless) :
    (ls.map (·.lines)).sum = (ls.flatMap (·.chars)).count '\n' := by
  induction ls with
  | nil => rfl
  | cons l ls ih =>
    rw [List.map_cons, List.sum_cons, List.flatMap_cons, List.count_append,
      (h l List.mem_cons_self).lines_eq, ih fun m hm => h m (List.mem_cons_of_mem l hm)]

theorem short_of_mem_ofLexemes {file offset line : Nat} {ls : List Lexeme}
    (h : ∀ l ∈ ls, l.IsWordless) {t : Token} (ht : t ∈ ofLexemes file offset line ls) :
    t.text.toList.length = 1 := by
  obtain ⟨before, after, hTokens⟩ := List.append_of_mem ht
  obtain ⟨passed, l, rest, rfl, -, hToken⟩ := exists_of_ofLexemes hTokens
  exact (h l (by simp)).short _ _ _ t hToken

theorem le_line_of_mem_ofLexemes {file offset line : Nat} {ls : List Lexeme} {t : Token}
    (ht : t ∈ ofLexemes file offset line ls) : line ≤ t.line := by
  obtain ⟨before, after, hTokens⟩ := List.append_of_mem ht
  obtain ⟨passed, l, rest, -, -, hToken⟩ := exists_of_ofLexemes hTokens
  rw [(span_of_toToken? hToken).2]
  exact Nat.le_add_right _ _

theorem leadingCommentLength_le {file : Source.File} {ts : List Token}
    (hLex : lex file.id file.path file.text = .ok ts) {t : Token} (ht : t ∈ ts)
    (hWord : t.text.toList.length ≠ 1) :
    Generation.leadingCommentLength file.text.toList ≤ file.lineStart t.line := by
  obtain ⟨ls, hTiled, rfl⟩ := lex_eq_ok hLex
  let lines := linesWithBreaks file.text.toList
  let lead := lines.takeWhile Generation.isCommentLine
  let rest := lines.dropWhile Generation.isCommentLine
  have hLines : lead ++ rest = lines := List.takeWhile_append_dropWhile
  have hLined : Lined (lead ++ rest) := hLines ▸ lined_linesWithBreaks _
  have hText : file.text.toList = (lead ++ rest).flatten := by
    rw [hLines]
    exact (flatten_linesWithBreaks _).symm
  have hComment : ∀ line ∈ lead, Generation.isCommentLine line = true := fun line hLine =>
    List.all_eq_true.mp List.all_takeWhile line hLine
  rw [hText] at hTiled
  obtain ⟨passed, later, atLineStart, rfl, hChars, hWordless, hLater⟩ :=
    passes_lead hLined hComment hTiled
  have hPassed := sum_lines_of_wordless hWordless
  rw [hChars] at hPassed
  rw [ofLexemes_append] at ht
  rcases List.mem_append.mp ht with ht | ht
  · exact absurd (short_of_mem_ofLexemes hWordless ht) hWord
  · have hSome : rest ≠ [] := by
      intro hNone
      rw [hNone, List.flatten_nil] at hLater
      cases hLater
      cases ht
    have hLine := le_line_of_mem_ofLexemes ht
    rw [hPassed, hLined.count_flatten hSome] at hLine
    have hLead : lines.take lead.length = lead := by rw [← hLines, List.take_left]
    have hPrefix : lines.take lead.length <+: lines.take (t.line - 1) :=
      List.take_prefix_take_left (by omega)
    obtain ⟨more, hMore⟩ := hPrefix
    rw [Source.File.lineStart, lineStart_eq_byteLength_take, Generation.leadingCommentLength]
    show byteLength lead.flatten ≤ byteLength (lines.take (t.line - 1)).flatten
    rw [← hMore, hLead, List.flatten_append, byteLength_append]
    exact Nat.le_add_right _ _

end Token

end SkeletonWeave
