import SkeletonWeave.Proofs.Token.Commenting

/-!
# Tokens without their surroundings

What a token takes of a text is the same token when nothing follows it. So the
tokens of a text without directives can be written with a blank between
neighbours and are read as they were: white space and comments say no more than
that tokens are apart.
-/

set_option autoImplicit false

namespace SkeletonWeave

namespace Lexeme

theorem numberRest_numberRest (previous : Char) (cs : List Char) :
    numberRest previous (numberRest previous cs) = numberRest previous cs := by
  fun_induction numberRest previous cs with
  | case1 => rfl
  | case2 previous c cs isSign hPart ih => rw [numberRest, if_pos hPart, ih]
  | case3 => rfl

/-- A literal ends at its quote and a name before what is no part of it, so neither needs what
follows. -/
theorem word_alone {c : Char} {cs part : List Char} {l : Lexeme} (h : word c cs = .ok l)
    (hChars : l.chars = c :: part) : word c part = .ok l := by
  have hName : ∀ d ∈ cs.takeWhile isNamePart, isNamePart d = true := fun d hd =>
    List.all_eq_true.mp List.all_takeWhile d hd
  generalize hTake : cs.takeWhile isNamePart = name at h hName
  have hAlone : word c name = .ok ⟨.plain .identifier, c :: name⟩ := by
    have hEnd : ∀ d ∈ ([] : List Char).head?, isNamePart d = false := nofun
    obtain ⟨hSame, hNone⟩ := takeWhile_name hName hEnd
    rw [List.append_nil] at hSame hNone
    simp only [word, hSame, hNone]
  simp only [word, hTake] at h
  split at h
  · next quote rest _ =>
    split at h
    · next hMark =>
      obtain ⟨body, after, hLiteral, -, -, -, hRead⟩ := literal_cut h
      rw [hLiteral, List.cons_append] at hChars
      obtain ⟨-, rfl⟩ := List.cons.inj hChars
      obtain ⟨hSame, hRest⟩ := @takeWhile_name name (quote :: body) hName
        (by simpa using isNamePart_of_isQuote (Bool.and_eq_true_iff.mp hMark).1)
      simp only [word, hSame, hRest, if_pos hMark]
      simpa using hRead []
    · cases h
      obtain ⟨-, rfl⟩ := List.cons.inj hChars
      exact hAlone
  · cases h
    obtain ⟨-, rfl⟩ := List.cons.inj hChars
    exact hAlone

theorem punctuation_alone {c : Char} {part rest : List Char}
    (h : (punctuation c (part ++ rest)).chars = c :: part) :
    punctuation c part = punctuation c (part ++ rest) := by
  have hLonger {p : String} (hNot : ¬p.toList.isPrefixOf (c :: (part ++ rest)) = true) :
      ¬p.toList.isPrefixOf (c :: part) = true := by
    rw [List.isPrefixOf_iff_prefix] at hNot ⊢
    exact fun hPrefix => hNot (hPrefix.trans (List.prefix_append (c :: part) rest))
  unfold punctuation at h ⊢
  cases hFound : longPunctuation.find? fun p => p.toList.isPrefixOf (c :: (part ++ rest)) with
  | none =>
    rw [List.find?_eq_none] at hFound
    rw [List.find?_eq_none.mpr fun p hp => hLonger (hFound p hp)]
  | some p =>
    rw [hFound] at h
    have hText : p.toList = c :: part := h
    obtain ⟨-, before, after, hMarks, hNone⟩ := List.find?_eq_some_iff_append.mp hFound
    have hSame : (longPunctuation.find? fun p => p.toList.isPrefixOf (c :: part)) = some p := by
      refine List.find?_eq_some_iff_append.mpr ⟨?_, before, after, hMarks, fun q hq => ?_⟩
      · exact List.isPrefixOf_iff_prefix.mpr ⟨[], by rw [List.append_nil, hText]⟩
      · have hNot := hNone q hq
        rw [Bool.not_eq_true', ← Bool.not_eq_true] at hNot ⊢
        exact hLonger hNot
    rw [hSame]

abbrev StartsNumber (c : Char) (cs : List Char) : Prop :=
  (c.isDigit || (c == '.' && cs.head?.any Char.isDigit)) = true

theorem startsNumber_of_append {c : Char} {part rest : List Char}
    (h : StartsNumber c (part ++ rest)) (hPart : numberRest c (part ++ rest) = part) :
    StartsNumber c part := by
  cases part with
  | cons d part => exact h
  | nil =>
    cases rest with
    | nil => exact h
    | cons d rest =>
      have hOther : ¬d.isDigit = true := by
        intro hDigit
        rw [List.nil_append, numberRest, if_pos (by simp [Char.isAlphanum, hDigit])] at hPart
        cases hPart
      simpa [StartsNumber, hOther] using h

theorem StartsNumber.append {c : Char} {part : List Char} (h : StartsNumber c part)
    (rest : List Char) : StartsNumber c (part ++ rest) := by
  cases part with
  | cons d part => exact h
  | nil =>
    have hDigit : c.isDigit = true := by simpa [StartsNumber] using h
    simp [StartsNumber, hDigit]

theorem token_alone {c : Char} {part rest : List Char} {l : Lexeme}
    (h : token c (part ++ rest) = .ok l) (hChars : l.chars = c :: part) : token c part = .ok l := by
  unfold token at h ⊢
  split at h
  · next hStart =>
    rw [if_pos hStart]
    exact word_alone h hChars
  · next hStart =>
    rw [if_neg hStart]
    split at h
    · next hNumber =>
      cases h
      have hPart : numberRest c (part ++ rest) = part := (List.cons.inj hChars).2
      have hAlone : numberRest c part = part := by
        conv_lhs => rw [← hPart, numberRest_numberRest, hPart]
      rw [if_pos (startsNumber_of_append hNumber hPart), hPart, hAlone]
    · next hNumber =>
      rw [if_neg fun hPart => hNumber (StartsNumber.append hPart rest)]
      split at h
      · next hQuote =>
        rw [if_pos hQuote]
        obtain ⟨body, after, hLiteral, -, -, -, hRead⟩ := literal_cut h
        rw [hLiteral, List.nil_append] at hChars
        obtain ⟨-, rfl⟩ := List.cons.inj hChars
        simpa using hRead []
      · next hQuote =>
        rw [if_neg hQuote]
        cases h
        rw [punctuation_alone hChars]

theorem StartsToken.of_append {c : Char} {part rest : List Char}
    (h : StartsToken c (part ++ rest)) : StartsToken c part where
  not_break := h.not_break
  not_blank := h.not_blank
  not_joint := by
    intro hc
    cases part with
    | nil => simp
    | cons d part => exact h.not_joint hc
  not_comment := by
    intro hc
    cases part with
    | nil => simp
    | cons d part => exact h.not_comment hc

theorem ne_hash_of_plain {c : Char} {cs chars : List Char} {kind : TokenKind}
    (h : next true c cs = .ok ⟨.plain kind, chars⟩) : c ≠ '#' := by
  rintro rfl
  have hStarts := startsToken_of_plain (Token.next_of_plain h nofun false)
  rw [next_of_starts hStarts, if_pos (by decide)] at h
  obtain ⟨_, _, -, -, -, ⟨text, hRole⟩, -⟩ := directiveLine_cut h
  cases hRole

theorem next_alone {atLineStart : Bool} {c : Char} {part rest : List Char} {kind : TokenKind}
    (h : next atLineStart c (part ++ rest) = .ok ⟨.plain kind, c :: part⟩) :
    next false c part = .ok ⟨.plain kind, c :: part⟩ := by
  have hInner : next false c (part ++ rest) = .ok ⟨.plain kind, c :: part⟩ := by
    cases atLineStart with
    | false => exact h
    | true => exact Token.next_of_plain h nofun false
  have hStarts := startsToken_of_plain hInner
  rw [next_eq_token hStarts false nofun] at hInner
  rw [next_eq_token hStarts.of_append false nofun]
  exact token_alone hInner rfl

end Lexeme

namespace Token

theorem role_of_toToken? {l : Lexeme} {file offset line : Nat} {t : Token}
    (h : l.toToken? file offset line = some t) (hKind : t.kind ≠ .directive) :
    l.role = .plain t.kind := by
  unfold Lexeme.toToken? at h
  split at h
  · next hRole =>
    cases h
    exact hRole
  · cases h
    exact absurd rfl hKind
  · cases h

/-- A token that is no directive is read alone as it was, and does not start with the mark of one if
no token stands before it. -/
theorem isToken_of_lex {file : Nat} {name text : String} {before after : List Token} {t : Token}
    (hLex : lex file name text = .ok (before ++ t :: after)) (hKind : t.kind ≠ .directive) :
    t.word.isToken = true ∧ (before = [] → t.text.toList.head? ≠ some '#') := by
  obtain ⟨ls, hTiled, hTokens⟩ := lex_eq_ok hLex
  obtain ⟨passed, l, more, rfl, rfl, hToken⟩ := exists_of_ofLexemes hTokens.symm
  obtain ⟨cs, -, hRest⟩ := hTiled.cut_append
  obtain ⟨c, part, rest, hChars, -, -, -, hRead⟩ := hRest.exists_step
  have hText : t.text.toList = c :: part := (Lexeme.text_of_toToken? hToken hKind).trans hChars
  have hLexeme : l = ⟨.plain t.kind, c :: part⟩ := by
    rw [← hChars, ← role_of_toToken? hToken hKind]
  have hNext := hRead rest ⟨rfl, fun _ => rfl⟩
  rw [hLexeme] at hNext
  constructor
  · have hWord : t.word.text.toList = c :: part := hText
    simp only [Word.isToken, hWord, Lexeme.next_alone hNext]
    exact beq_self_eq_true _
  · intro hFirst
    rw [(silent_of_ofLexemes hFirst).lineStartAfter_eq] at hNext
    rw [hText]
    simpa using Lexeme.ne_hash_of_plain hNext

/-- The tokens of a text without directives, written with a blank between neighbours, are read again
with their kinds and texts. -/
theorem lex_of_joined_tokens {file : Nat} {name text : String} {ts : List Token}
    (hLex : lex file name text = .ok ts) (hPlain : ∀ t ∈ ts, t.kind ≠ .directive)
    (file' : Nat) (name' : String) :
    ∃ us, lex file' name' (" ".intercalate (ts.map (·.text))) = .ok us ∧
      us.map (fun u => (u.kind, u.text)) = ts.map fun t => (t.kind, t.text) := by
  have hWords : ∀ w ∈ ts.map word, w.isToken = true := by
    intro w hw
    obtain ⟨t, ht, rfl⟩ := List.mem_map.mp hw
    obtain ⟨before, after, rfl⟩ := List.append_of_mem ht
    exact (isToken_of_lex hLex (hPlain t ht)).1
  have hStart : ∀ w ∈ (ts.map word).head?, w.text.toList.head? ≠ some '#' := by
    intro w hw
    cases ts with
    | nil => cases hw
    | cons t ts =>
      obtain rfl : t.word = w := Option.some.inj hw
      have hFirst : lex file name text = .ok ([] ++ t :: ts) := hLex
      exact (isToken_of_lex hFirst (hPlain t List.mem_cons_self)).2 rfl
  obtain ⟨us, hRead, hSame⟩ := Word.exists_lex_print hWords hStart file' name'
  refine ⟨us, ?_, ?_⟩
  · simpa [Word.print, Function.comp_def, word] using hRead
  · have hPairs := congrArg (List.map fun w : Word => (w.kind, w.text)) hSame
    simpa [Function.comp_def, word] using hPairs

theorem joined_marks_and_literals :
    let text := "x # 1e+5/* c */L\"\\\"\"../**/."
    let words := [(TokenKind.identifier, "x"), (.punctuation, "#"), (.number, "1e+5"),
      (.string, "L\"\\\"\""), (.punctuation, "."), (.punctuation, "."), (.punctuation, ".")]
    ∃ ts, lex 0 "a.h" text = .ok ts ∧ (∀ t ∈ ts, t.kind ≠ .directive) ∧
      ts.map (fun t => (t.kind, t.text)) = words ∧
      " ".intercalate (ts.map (·.text)) = "x # 1e+5 L\"\\\"\" . . ." ∧
      ∃ us, lex 1 "b.h" (" ".intercalate (ts.map (·.text))) = .ok us ∧
        us.map (fun u => (u.kind, u.text)) = ts.map fun t => (t.kind, t.text) := by
  intro text words
  have hFound : ((lex 0 "a.h" text).toOption.map fun ts =>
      (ts.map (fun t => (t.kind, t.text)), ts.all (·.kind ≠ .directive),
        " ".intercalate (ts.map (·.text)))) =
      some (words, true, "x # 1e+5 L\"\\\"\" . . .") := by
    decide +kernel
  obtain ⟨ts, hLexed, hKept⟩ := Option.map_eq_some_iff.mp hFound
  obtain ⟨hWords, hRest⟩ := Prod.mk.inj hKept
  obtain ⟨hAll, hJoined⟩ := Prod.mk.inj hRest
  have hLex := eq_ok_of_toOption hLexed
  have hPlain : ∀ t ∈ ts, t.kind ≠ .directive := by simpa using hAll
  exact ⟨ts, hLex, hPlain, hWords, hJoined, lex_of_joined_tokens hLex hPlain 1 "b.h"⟩

end Token

end SkeletonWeave
