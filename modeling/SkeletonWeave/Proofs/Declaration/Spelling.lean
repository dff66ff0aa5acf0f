import Mathlib.Data.List.Chain
import SkeletonWeave.Proofs.Declaration.SharedBase
import SkeletonWeave.Proofs.Token.Adjoining

/-!
# Types that are read again

The spelling of a type has a blank just where two of its tokens would be read as
one, or as others, but for two ampersands. So a type without adjacent ampersands
is read from its spelling as it was, and from a cast to it.
-/

set_option autoImplicit false

namespace SkeletonWeave

namespace Grammar

def isAmpersand (w : Word) : Bool :=
  w = mark "&" || w = mark "&&"

def AmpersandsApart (ws : List Word) : Prop :=
  ws.IsChain fun a b => ¬(isAmpersand a = true ∧ isAmpersand b = true)

theorem gap_eq_blank (previous? : Option Word) (w : Word) :
    ∀ c ∈ (gap previous? w).toList, c = ' ' := by
  cases previous? with
  | none => exact fun c hc => absurd hc List.not_mem_nil
  | some a =>
    rw [gap]
    split
    · exact fun c hc => List.mem_singleton.mp hc
    · exact fun c hc => absurd hc List.not_mem_nil

theorem stops_blank (a : Word) : a.stops ' ' = true := by
  unfold Word.stops
  split
  · decide
  · decide
  · exact Bool.or_true _

/-- The first character of a mark, which ends every identifier and every number. -/
theorem exists_head_of_mark {text : String} (h : text ∈ Word.marksInTypes) :
    ∃ c cs, text.toList = c :: cs ∧ c ∈ [':', '<', '>', ',', '*', '&', '(', ')'] ∧
      (c = '&' → isAmpersand (mark text) = true) := by
  simp only [Word.marksInTypes, List.mem_cons, List.not_mem_nil, or_false] at h
  rcases h with rfl | rfl | rfl | rfl | rfl | rfl | rfl | rfl | rfl
  all_goals exact ⟨_, _, rfl, by decide, by decide⟩

theorem stops_of_isWord {a : Word} (h : (bare a).isWord = true) {d : Char}
    (hd : d ∈ [':', '<', '>', ',', '*', '&', '(', ')']) : a.stops d = true := by
  obtain ⟨kind, text⟩ := a
  cases kind with
  | identifier =>
    have hAll : [':', '<', '>', ',', '*', '&', '(', ')'].all
        (fun c => !Lexeme.isNamePart c && !Lexeme.isQuote c) = true := by decide
    exact List.all_eq_true.mp hAll d hd
  | number =>
    have hAll : [':', '<', '>', ',', '*', '&', '(', ')'].all
        (fun c => !c.isAlphanum && !(['.', '\'', '+', '-'].contains c)) = true := by decide
    exact List.all_eq_true.mp hAll d hd
  | _ => cases h

theorem isWord_or_mark {w : Word} (h : w.isOfType = true) :
    (bare w).isWord = true ∨ ∃ text ∈ Word.marksInTypes, w = mark text := by
  obtain ⟨kind, text⟩ := w
  cases kind with
  | identifier => exact .inl rfl
  | number => exact .inl rfl
  | punctuation => exact .inr ⟨text, by simpa [Word.isOfType] using h, rfl⟩
  | _ => cases h

theorem stops_closing {a : Word} (h : a.isOfType = true) : a.stops ')' = true := by
  rcases isWord_or_mark h with hWord | ⟨text, -, rfl⟩
  · exact stops_of_isWord hWord (by decide)
  · exact Bool.or_true _

theorem stops_neighbour {a b : Word} (ha : a.isOfType = true) (hb : b.isOfType = true)
    (hApart : ¬(isAmpersand a = true ∧ isAmpersand b = true)) (rest : List Char) :
    ∀ d ∈ ((gap (some a) b).toList ++ (b.text.toList ++ rest)).head?, a.stops d = true := by
  intro d hd
  rw [gap] at hd
  split at hd
  · obtain rfl : ' ' = d := Option.some.inj hd
    exact stops_blank a
  · next hClose =>
    rw [Token.needsSpace, Bool.or_eq_true, not_or, Bool.and_eq_true, Bool.or_eq_true, not_and_or,
      not_or] at hClose
    obtain ⟨-, hClose⟩ := hClose
    rcases isWord_or_mark hb with hWord | ⟨text, hText, rfl⟩
    · -- a word follows without a blank only after a mark that it cannot go on
      obtain ⟨hMark, hOther⟩ := hClose.resolve_left (not_not.mpr hWord)
      obtain ⟨text, -, rfl⟩ := (isWord_or_mark ha).resolve_left hMark
      have hText : text ≠ "&" := by
        rintro rfl
        exact hOther (by decide)
      simp [Word.stops, mark, hText]
    · obtain ⟨c, cs, hChars, hHead, hAmpersand⟩ := exists_head_of_mark hText
      have hFirst : d = c := by
        rw [show (mark text).text = text from rfl, hChars] at hd
        exact (Option.some.inj hd).symm
      subst hFirst
      rcases isWord_or_mark ha with hWord | ⟨other, -, rfl⟩
      · exact stops_of_isWord hWord hHead
      · by_cases hDouble : other = "&" ∧ d = '&'
        · obtain ⟨rfl, hd⟩ := hDouble
          exact absurd ⟨by decide, hAmpersand hd⟩ hApart
        · rw [not_and_or] at hDouble
          simpa [Word.stops, mark] using hDouble

theorem worded_spellAfter {ws : List Word} (hWords : ∀ w ∈ ws, w.isOfType = true)
    (hApart : AmpersandsApart ws) {rest : List Char} {more : List Word}
    (hEnd : ∀ w ∈ ws.getLast?, ∀ d ∈ rest.head?, w.stops d = true)
    (hRest : Token.Worded rest more) (previous? : Option Word) :
    Token.Worded ((spellAfter previous? ws).toList ++ rest) (ws ++ more) := by
  induction ws generalizing previous? with
  | nil => exact hRest
  | cons w ws ih =>
    obtain ⟨hWord, hLater⟩ := List.forall_mem_cons.mp hWords
    have hStops : ∀ d ∈ ((spellAfter (some w) ws).toList ++ rest).head?, w.stops d = true := by
      cases ws with
      | nil => exact hEnd w rfl
      | cons v ws =>
        have hPair := (List.isChain_cons_cons.mp hApart).1
        have hNext := stops_neighbour hWord (hLater v List.mem_cons_self) hPair
          ((spellAfter (some v) ws).toList ++ rest)
        simpa [spellAfter] using hNext
    have hLast : ∀ v ∈ ws.getLast?, v ∈ (w :: ws).getLast? := by
      intro v hv
      rw [List.getLast?_cons, Option.mem_def.mp hv]
      rfl
    have hTail := ih hLater hApart.tail (fun v hv => hEnd v (hLast v hv)) (some w)
    have hHere := (Token.Worded.ofType hWord hStops hTail).blanks fun c hc =>
      gap_eq_blank previous? w c hc ▸ rfl
    simpa [spellAfter] using hHere

end Grammar

open Grammar

theorem TypeExpr.spelling_ofTokens (ts : List Token) :
    (TypeExpr.ofTokens ts).spelling = Token.spell ts := by
  unfold TypeExpr.ofTokens
  cases ts.length <;> rfl

theorem TypeExpr.ofTokens_congr {ts us : List Token} (h : us.map Token.word = ts.map Token.word) :
    TypeExpr.ofTokens us = TypeExpr.ofTokens ts := by
  rw [ofTokens_eq_typeOf, h, ← ofTokens_eq_typeOf]

section

variable {ts : List Token} (hWords : ∀ t ∈ ts, t.word.isOfType = true)
  (hApart : AmpersandsApart (ts.map Token.word)) (file : Nat) (name : String)

include hWords hApart

theorem exists_lex_spell :
    ∃ us, Token.lex file name (Token.spell ts) = .ok us ∧
      us.map Token.word = ts.map Token.word := by
  have hAll : ∀ w ∈ ts.map Token.word, w.isOfType = true := by simpa using hWords
  have hEnd : ∀ w ∈ (ts.map Token.word).getLast?, ∀ d ∈ [].head?, w.stops d = true := by simp
  have hWorded := worded_spellAfter hAll hApart hEnd .nil none
  rw [List.append_nil, List.append_nil] at hWorded
  rw [spell_eq, ← String.ofList_toList (s := spellAfter none (ts.map Token.word))]
  exact hWorded.exists_lex file name

theorem exists_lex_cast :
    ∃ opening us closing,
      Token.lex file name ("(" ++ Token.spell ts ++ ")") = .ok (opening :: (us ++ [closing])) ∧
      opening.word = mark "(" ∧ closing.word = mark ")" ∧
      us.map Token.word = ts.map Token.word := by
  have hAll : ∀ w ∈ ts.map Token.word, w.isOfType = true := by simpa using hWords
  have hEnd : ∀ w ∈ (ts.map Token.word).getLast?, ∀ d ∈ [')'].head?, w.stops d = true := by
    intro w hw d hd
    obtain rfl : ')' = d := Option.some.inj hd
    exact stops_closing (hAll w (List.mem_of_getLast? hw))
  have hClosing : Token.Worded [')'] [mark ")"] :=
    .ofType (w := mark ")") (by decide) (by simp) .nil
  have hInside := worded_spellAfter hAll hApart hEnd hClosing none
  have hCast := Token.Worded.ofType (w := mark "(") (by decide) (fun _ _ => rfl) hInside
  have hText : String.ofList ((mark "(").text.toList ++
      ((spellAfter none (ts.map Token.word)).toList ++ [')'])) = "(" ++ Token.spell ts ++ ")" := by
    rw [← String.toList_inj, spell_eq]
    simp [mark]
  obtain ⟨all, hLex, hSame⟩ := hCast.exists_lex file name
  -- the tokens between the parentheses are told by their words
  obtain ⟨opening, inner, rfl, hOpening, hSame⟩ := List.map_eq_cons_iff.mp hSame
  obtain ⟨us, rest, rfl, hUs, hRest⟩ := List.map_eq_append_iff.mp hSame
  obtain ⟨closing, _, rfl, hWord, hNone⟩ := List.map_eq_cons_iff.mp hRest
  rw [List.map_eq_nil_iff.mp hNone, hText] at hLex
  exact ⟨opening, us, closing, hLex, hOpening, hWord, hUs⟩

/-- A type whose tokens are identifiers, numbers and marks, with no ampersands adjacent, is read from
its spelling, and from a cast to it: the tokens are those of the type, and so is the type. -/
theorem type_read_from_spelling :
    (∃ us, Token.lex file name (TypeExpr.ofTokens ts).spelling = .ok us ∧
      us.map Token.word = ts.map Token.word ∧ TypeExpr.ofTokens us = TypeExpr.ofTokens ts) ∧
    ∃ opening us closing,
      Token.lex file name ("(" ++ (TypeExpr.ofTokens ts).spelling ++ ")") =
        .ok (opening :: (us ++ [closing])) ∧
      opening.word = mark "(" ∧ closing.word = mark ")" ∧
      us.map Token.word = ts.map Token.word ∧ TypeExpr.ofTokens us = TypeExpr.ofTokens ts := by
  rw [TypeExpr.spelling_ofTokens]
  obtain ⟨us, hLex, hSame⟩ := exists_lex_spell hWords hApart file name
  obtain ⟨opening, vs, closing, hCast, hOpening, hClosing, hInside⟩ :=
    exists_lex_cast hWords hApart file name
  exact ⟨⟨us, hLex, hSame, TypeExpr.ofTokens_congr hSame⟩,
    opening, vs, closing, hCast, hOpening, hClosing, hInside, TypeExpr.ofTokens_congr hInside⟩

end

theorem nested_type_read_from_spelling :
    ∃ ts : List Token, (TypeExpr.ofTokens ts).spelling = "map<int, V<const char*>> const&" ∧
      (∃ us, Token.lex 0 "t.cpp" (TypeExpr.ofTokens ts).spelling = .ok us ∧
        us.map Token.word = ts.map Token.word ∧ TypeExpr.ofTokens us = TypeExpr.ofTokens ts) ∧
      ∃ opening us closing,
        Token.lex 0 "t.cpp" ("(" ++ (TypeExpr.ofTokens ts).spelling ++ ")") =
          .ok (opening :: (us ++ [closing])) ∧
        opening.word = mark "(" ∧ closing.word = mark ")" ∧
        us.map Token.word = ts.map Token.word ∧ TypeExpr.ofTokens us = TypeExpr.ofTokens ts := by
  refine ⟨[word "map", mark "<", word "int", mark ",", word "V", mark "<", word "const",
    word "char", mark "*", mark ">", mark ">", word "const", mark "&"].map bare, ?_,
    type_read_from_spelling ?_ ?_ 0 "t.cpp"⟩
  · decide +kernel
  · decide +kernel
  · rw [AmpersandsApart]
    decide +kernel

end SkeletonWeave
