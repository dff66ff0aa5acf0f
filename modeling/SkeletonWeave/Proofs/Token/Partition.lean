import SkeletonWeave.Proofs.Token.ByteReader
import SkeletonWeave.Proofs.Token.Retiling

/-!
# Texts as tokens and what is between them

Tokens stand one after the other between characters of the text, and each has
the text that it covers, or is a directive. What no token covers is white space,
a continued line or a comment.
-/

set_option autoImplicit false

namespace SkeletonWeave

namespace Lexeme

open Text

inductive Skipped : List Char → List Char → Prop
  | blank {c : Char} (hBlank : c ∈ [' ', '\t', '\r', '\n', '\x0b', '\x0c']) (rest : List Char) :
    Skipped [c] rest
  | joint (rest : List Char) : Skipped ['\\', '\n'] rest
  | line {body rest : List Char} (hBody : '\n' ∉ body) (hEnd : ∀ c ∈ rest.head?, c = '\n') :
    Skipped ('/' :: '/' :: body) rest
  | block {body : List Char} (hFirst : ¬['*', '/'] <:+: body ++ ['*']) (rest : List Char) :
    Skipped ('/' :: '*' :: (body ++ ['*', '/'])) rest

/-- What is read of a lexeme before the rest of a text: a token, a directive from its mark on, or
nothing. -/
inductive Reads (l : Lexeme) (rest : List Char) : Prop
  | token {kind : TokenKind} (hRole : l.role = .plain kind)
  | directive {text part : List Char} (hRole : l.role = .directive text)
    (hChars : l.chars = '#' :: part)
  | nothing (hNone : ∀ file offset line, l.toToken? file offset line = none)
    (hSkipped : Skipped l.chars rest)

theorem blockRestOnto?_eq_first {taken cs result : List Char}
    (h : blockRestOnto? taken cs = some result) :
    ∃ body rest, result = (body ++ ['*', '/']).reverse ++ taken ∧ cs = body ++ ['*', '/'] ++ rest ∧
      ¬['*', '/'] <:+: body ++ ['*'] := by
  fun_induction blockRestOnto? taken cs with
  | case1 => cases h
  | case2 taken rest =>
    cases h
    exact ⟨[], rest, rfl, rfl, by decide⟩
  | case3 taken c cs hOpen ih =>
    obtain ⟨body, rest, hResult, rfl, hFirst⟩ := ih h
    refine ⟨c :: body, rest, by simp [hResult], rfl, ?_⟩
    rw [List.cons_append, List.infix_cons_iff, not_or]
    refine ⟨fun hPrefix => ?_, hFirst⟩
    obtain ⟨hStar, hSlash⟩ := List.cons_prefix_cons.mp hPrefix
    cases body with
    | nil => exact absurd hSlash (by decide)
    | cons d body =>
      obtain ⟨rfl, -⟩ := List.cons_prefix_cons.mp hSlash
      exact hOpen _ hStar.symm rfl

theorem exists_kind_of_token {c : Char} {cs : List Char} {l : Lexeme} (h : token c cs = .ok l) :
    ∃ kind, l.role = .plain kind := by
  have hLiteral (hRole : l.role = .plain .string ∨ l.role = .plain .character) :
      ∃ kind, l.role = .plain kind :=
    hRole.elim (fun h => ⟨_, h⟩) (fun h => ⟨_, h⟩)
  unfold token at h
  split at h
  · rcases (word_eq_ok h).2 with rfl | hRole
    · exact ⟨_, rfl⟩
    · exact hLiteral hRole
  · split at h
    · cases h
      exact ⟨_, rfl⟩
    · split at h
      · obtain ⟨_, _, -, -, hRole⟩ := literal_eq_ok h
        exact hLiteral hRole
      · cases h
        exact ⟨_, (punctuation_eq c cs).2.1⟩

theorem reads_of_next {atLineStart : Bool} {c : Char} {cs rest : List Char} {l : Lexeme}
    (h : next atLineStart c cs = .ok l) (hCut : c :: cs = l.chars ++ rest) : l.Reads rest := by
  unfold next at h
  split at h
  · cases h
    exact .nothing (fun _ _ _ => rfl) (.blank (by decide) rest)
  · cases h
    exact .nothing (fun _ _ _ => rfl) (.joint rest)
  · next tail =>
    cases h
    obtain ⟨after, hTail, hBody, hEnd, -⟩ := lineRest_cut tail
    have hSame : rest = after := by
      have hRest : tail = lineRest tail ++ rest := (List.cons.inj (List.cons.inj hCut).2).2
      exact List.append_cancel_left (hRest.symm.trans hTail)
    exact .nothing (fun _ _ _ => rfl) (.line hBody (hSame ▸ hEnd))
  · split at h
    · next body hBody =>
      cases h
      obtain ⟨reversed, hFound, rfl⟩ := Option.map_eq_some_iff.mp hBody
      obtain ⟨inside, after, rfl, -, hFirst⟩ := blockRestOnto?_eq_first hFound
      refine .nothing (fun _ _ _ => rfl) ?_
      rw [List.append_nil, List.reverse_reverse]
      exact .block hFirst rest
    · cases h
  · split at h
    · next hBlank =>
      cases h
      refine .nothing (fun _ _ _ => rfl) (.blank ?_ rest)
      simp only [isBlankInLine, Bool.or_eq_true, beq_iff_eq] at hBlank
      simp only [List.mem_cons, List.not_mem_nil, or_false]
      tauto
    · split at h
      · obtain ⟨⟨part, -, hChars, -⟩, text, hRole⟩ := directiveLine_eq_ok h
        exact .directive hRole hChars
      · obtain ⟨kind, hRole⟩ := exists_kind_of_token h
        exact .token hRole

end Lexeme

namespace Token

open Text
open Lexeme (Skipped)

theorem Tiled.reads {atLineStart : Bool} {cs : List Char} {ls more : List Lexeme} {l : Lexeme}
    (h : Tiled atLineStart cs (ls ++ l :: more)) :
    cs = charsOf ls ++ (l.chars ++ charsOf more) ∧ l.Reads (charsOf more) := by
  obtain ⟨rest, hText, hStep⟩ := h.cut_append
  cases hStep with
  | step hNext hCut hRest =>
    have hMore : _ = charsOf more := hRest.flatMap_chars
    rw [hCut, hMore] at hText
    rw [hMore] at hCut
    exact ⟨hText, Lexeme.reads_of_next hNext hCut⟩

/-- Whether a token covers some bytes of a text, from one boundary to another, and has the text of
them, or is a directive from its mark on. -/
structure Covers (text : List Char) (t : Token) : Prop where
  starts : IsBoundary text t.span.start
  stops : IsBoundary text t.span.stop
  start_lt_stop : t.span.start < t.span.stop
  stop_le : t.span.stop ≤ byteLength text
  plain : t.kind ≠ .directive → slice? text t.span.start t.span.stop = some t.text.toList
  directive : t.kind = .directive →
    ∃ line, slice? text t.span.start t.span.stop = some ('#' :: line)

theorem covers_of_tiled {file : Nat} {text : List Char} {ls : List Lexeme}
    (h : Tiled true text ls) {t : Token} (ht : t ∈ ofLexemes file 0 1 ls) : t.Covers text := by
  obtain ⟨before, after, hTokens⟩ := List.append_of_mem ht
  obtain ⟨passed, l, more, rfl, -, hToken⟩ := exists_of_ofLexemes hTokens
  obtain ⟨hSound, hSome⟩ := h.sound l (by simp)
  obtain ⟨hText, hReads⟩ := h.reads
  have hSlice := slice?_append (charsOf passed) l.chars (charsOf more)
  rw [← hText] at hSlice
  have hSpan := (span_of_toToken? hToken).1
  rw [Nat.zero_add] at hSpan
  have hPos := byteLength_pos hSome
  have hStop : IsBoundary text t.span.stop := by
    refine ⟨charsOf passed ++ l.chars, charsOf more, ?_, ?_⟩
    · rw [hText, List.append_assoc]
    · rw [hSpan, byteLength_append]
      rfl
  refine ⟨⟨charsOf passed, _, hText, by rw [hSpan]; rfl⟩, hStop, ?_, hStop.le_byteLength, ?_, ?_⟩
  · rw [hSpan]
    exact Nat.lt_add_of_pos_right hPos
  · intro hKind
    rw [hSpan, Lexeme.text_of_toToken? hToken hKind]
    exact hSlice
  · intro hKind
    cases hReads with
    | @token kind hRole =>
      simp only [Lexeme.toToken?, hRole] at hToken
      cases hToken
      exact absurd (hRole.trans (congrArg LexemeRole.plain hKind)) hSound.notDirective
    | @directive _ part _ hChars =>
      refine ⟨part, ?_⟩
      rw [hSpan, ← hChars]
      exact hSlice
    | nothing hNone =>
      rw [hNone] at hToken
      cases hToken

theorem exists_lexeme_at {ls : List Lexeme} {position : Nat} (h : position < byteLength (charsOf ls)) :
    ∃ passed l more, ls = passed ++ l :: more ∧ byteLength (charsOf passed) ≤ position ∧
      position < byteLength (charsOf passed) + byteLength l.chars := by
  induction ls generalizing position with
  | nil => cases h
  | cons l ls ih =>
    by_cases hFirst : position < byteLength l.chars
    · exact ⟨[], l, ls, rfl, Nat.zero_le _, by simpa using hFirst⟩
    · rw [charsOf_cons, byteLength_append] at h
      obtain ⟨passed, m, more, rfl, hStart, hStop⟩ := ih (Nat.sub_lt_left_of_lt_add (Nat.le_of_not_lt hFirst) h)
      refine ⟨l :: passed, m, more, rfl, ?_, ?_⟩
      · rw [charsOf_cons, byteLength_append]
        omega
      · rw [charsOf_cons, byteLength_append]
        omega

theorem stop_le_of_mem_ofLexemes {file : Nat} {ls : List Lexeme} {t : Token}
    (ht : t ∈ ofLexemes file 0 1 ls) : t.span.stop ≤ byteLength (charsOf ls) := by
  obtain ⟨before, after, hTokens⟩ := List.append_of_mem ht
  obtain ⟨passed, l, more, rfl, -, hToken⟩ := exists_of_ofLexemes hTokens
  rw [(span_of_toToken? hToken).1, charsOf_append, charsOf_cons, byteLength_append, byteLength_append,
    Nat.zero_add, ← Nat.add_assoc]
  exact Nat.le_add_right _ _

/-- Whether a part of a text is left out between tokens, and which part it is. -/
structure Omits (text : List Char) (ts : List Token) (before chars after : List Char) : Prop where
  text_eq : text = before ++ (chars ++ after)
  skipped : Skipped chars after
  apart : ∀ t ∈ ts, t.span.stop ≤ byteLength before ∨ byteLength before + byteLength chars ≤ t.span.start

theorem exists_omitted {file : Nat} {text : List Char} {ls : List Lexeme} (h : Tiled true text ls)
    {position : Nat} (hPosition : position < byteLength text)
    (hOutside : ∀ t ∈ ofLexemes file 0 1 ls, ¬(t.span.start ≤ position ∧ position < t.span.stop)) :
    ∃ before chars after, Omits text (ofLexemes file 0 1 ls) before chars after ∧
      byteLength before ≤ position ∧ position < byteLength before + byteLength chars := by
  have hText : text = charsOf ls := h.flatMap_chars
  rw [hText] at hPosition
  obtain ⟨passed, l, more, rfl, hStart, hStop⟩ := exists_lexeme_at hPosition
  obtain ⟨hCut, hReads⟩ := h.reads
  have hTokens := ofLexemes_append file 0 1 passed (l :: more)
  rw [ofLexemes, Nat.zero_add] at hTokens
  cases hToken : l.toToken? file (byteLength (passed.flatMap (·.chars)))
    (1 + (passed.map (·.lines)).sum) with
  | some t =>
    have ht : t ∈ ofLexemes file 0 1 (passed ++ l :: more) := by
      rw [hTokens, hToken]
      simp
    have hSpan := (span_of_toToken? hToken).1
    refine absurd ⟨?_, ?_⟩ (hOutside t ht)
    · rw [hSpan]
      exact hStart
    · rw [hSpan]
      exact hStop
  | none =>
    have hSkipped : Skipped l.chars (charsOf more) := by
      cases hReads with
      | token hRole =>
        rw [Lexeme.toToken?, hRole] at hToken
        cases hToken
      | directive hRole =>
        rw [Lexeme.toToken?, hRole] at hToken
        cases hToken
      | nothing _ hSkipped => exact hSkipped
    rw [hToken, Option.toList_none, List.nil_append] at hTokens
    refine ⟨charsOf passed, l.chars, charsOf more, ⟨hCut, hSkipped, fun t ht => ?_⟩, hStart, hStop⟩
    rw [hTokens] at ht
    rcases List.mem_append.mp ht with ht | ht
    · exact .inl (stop_le_of_mem_ofLexemes ht)
    · exact .inr (le_start_of_mem_ofLexemes ht)

/-- Every text is read to its end, or to a failure, in no more steps than it has bytes; and reading
byte by byte cuts out parts between characters only. The tokens of a text cover parts of it that do
not overlap, one after the other, and each has the text of its part, or is a directive from its mark
on. Every byte that no token covers belongs to white space, a continued line or a comment. -/
theorem tokens_partition_text (file : Nat) (name text : String) :
    (∃ result, ByteReader.lex? file text = some result ∧
      lex file name text = result.mapError fun flaw =>
        .located flaw.cause name flaw.start flaw.length) ∧
    ∀ ts, lex file name text = .ok ts →
      (∀ t ∈ ts, t.span.file = file ∧ t.Covers text.toList) ∧
      ts.Pairwise (fun t u => t.span.stop ≤ u.span.start) ∧
      ∀ position < byteLength text.toList,
        (∀ t ∈ ts, ¬(t.span.start ≤ position ∧ position < t.span.stop)) →
        ∃ before chars after, Omits text.toList ts before chars after ∧
          byteLength before ≤ position ∧ position < byteLength before + byteLength chars := by
  refine ⟨⟨_, ByteReader.lex?_eq file text, rfl⟩, fun ts hLex => ?_⟩
  have hFile := file_of_lex hLex
  have hApart := pairwise_of_lex hLex
  obtain ⟨ls, hTiled, rfl⟩ := lex_eq_ok hLex
  exact ⟨fun t ht => ⟨hFile t ht, covers_of_tiled hTiled ht⟩, hApart,
    fun position hPosition hOutside => exists_omitted hTiled hPosition hOutside⟩

/-- A backslash before a character of two bytes takes the reader into the middle of it. -/
example : (ByteReader.lex? 0 "\"\\é\" // x").map Except.toOption =
    some (some [⟨.string, "\"\\é\"", ⟨0, 0, 5⟩, 1⟩]) := by
  decide +kernel

end Token

end SkeletonWeave
