import Mathlib.Data.List.Find
import SkeletonWeave.Proofs.Results
import SkeletonWeave.Token.Lexer

/-!
# Tokens with a blank between them

No token goes on past a blank, so tokens that are written with a blank between
them are read as they were written.
-/

set_option autoImplicit false

namespace SkeletonWeave

structure Word where
  kind : TokenKind
  text : String
  deriving DecidableEq, Repr

def Token.word (t : Token) : Word := ⟨t.kind, t.text⟩

theorem Token.word_mem {ts : List Token} {ws : List Word} (hWords : ts.map Token.word = ws)
    {t : Token} (ht : t ∈ ts) : t.word ∈ ws := by
  rw [← hWords]
  exact List.mem_map_of_mem ht

namespace Word

/-- Whether the text of a word, after some token on the same line, is one token of its kind. -/
def isToken (w : Word) : Bool :=
  match w.text.toList with
  | [] => false
  | c :: cs => (Lexeme.next false c cs).toOption == some ⟨.plain w.kind, c :: cs⟩

theorem exists_of_isToken {w : Word} (h : w.isToken = true) :
    ∃ c cs, w.text.toList = c :: cs ∧ Lexeme.next false c cs = .ok ⟨.plain w.kind, c :: cs⟩ := by
  unfold isToken at h
  split at h
  · cases h
  · next c cs hText => exact ⟨c, cs, hText, eq_ok_of_toOption (beq_iff_eq.mp h)⟩

def print (ws : List Word) : String :=
  " ".intercalate (ws.map (·.text))

end Word

namespace Lexeme

theorem literalRestOnto_cons {quote c : Char} (hBreak : c ≠ '\n') (hPlain : c ≠ '\\')
    (taken : List Char) (bytes : Nat) (cs : List Char) :
    literalRestOnto quote taken bytes (c :: cs) =
      if c = quote then .ok (c :: taken)
      else literalRestOnto quote (c :: taken) (bytes + c.utf8Size) cs := by
  rw [literalRestOnto.eq_def]
  split <;> simp_all

theorem ne_backslash {c : Char} {cs : List Char} (hEnd : c = '\\' → cs = [] → False)
    (hPair : ∀ d tail, c = '\\' → cs = d :: tail → False) : c ≠ '\\' := by
  intro hEscape
  cases cs with
  | nil => exact hEnd hEscape rfl
  | cons d tail => exact hPair d tail hEscape rfl

theorem literalRestOnto_append {quote : Char} {taken cs result : List Char} {bytes : Nat}
    (h : literalRestOnto quote taken bytes cs = .ok result) (more : List Char) :
    literalRestOnto quote taken bytes (cs ++ more) = .ok result := by
  fun_induction literalRestOnto quote taken bytes cs with
  | case1 => cases h
  | case2 => cases h
  | case3 => cases h
  | case4 taken bytes c cs ih =>
    simp only [List.cons_append, literalRestOnto]
    exact ih h
  | case5 taken bytes cs hBreak hEnd hPair =>
    have hPlain : quote ≠ '\\' := ne_backslash hEnd hPair
    rw [List.cons_append, literalRestOnto_cons hBreak hPlain, if_pos rfl]
    exact h
  | case6 taken bytes c cs hBreak hEnd hPair hOther ih =>
    have hPlain : c ≠ '\\' := ne_backslash hEnd hPair
    rw [List.cons_append, literalRestOnto_cons hBreak hPlain, if_neg hOther]
    exact ih h

theorem literal_append {mark cs : List Char} {quote : Char} {l : Lexeme}
    (h : literal mark quote cs = .ok l) (more : List Char) :
    literal mark quote (cs ++ more) = .ok l := by
  simp only [literal] at h ⊢
  split at h
  · next rest hRest =>
    obtain ⟨reversed, hFound, rfl⟩ := map_eq_ok
      (show (literalRestOnto quote [] (Text.byteLength mark + 1) cs).map List.reverse = .ok rest
        from hRest)
    rw [literalRest, literalRestOnto_append hFound]
    exact h
  · cases h

theorem numberRest_append_blank (previous : Char) (cs more : List Char) :
    numberRest previous (cs ++ ' ' :: more) = numberRest previous cs := by
  induction cs generalizing previous with
  | nil => simp [numberRest]
  | cons c cs ih => simp only [List.cons_append, numberRest, ih]

theorem word_append_blank {c : Char} {cs : List Char} {l : Lexeme} (h : word c cs = .ok l)
    (more : List Char) : word c (cs ++ ' ' :: more) = .ok l := by
  have hBlank : isNamePart ' ' = false := by decide
  have hTake : (cs ++ ' ' :: more).takeWhile isNamePart = cs.takeWhile isNamePart := by
    rw [List.takeWhile_append]
    split
    · next hAll => simpa [hBlank] using ((List.takeWhile_prefix isNamePart).eq_of_length hAll).symm
    · rfl
  simp only [word, hTake] at h ⊢
  cases hRest : cs.dropWhile isNamePart with
  | nil =>
    rw [hRest] at h
    rw [List.dropWhile_append, hRest]
    simpa [hBlank, isQuote] using h
  | cons quote rest =>
    rw [hRest] at h
    rw [List.dropWhile_append, hRest]
    simp only [List.isEmpty_cons, Bool.false_eq_true, if_false, List.cons_append] at h ⊢
    split at h
    · next hMark =>
      rw [if_pos hMark]
      exact literal_append h _
    · next hMark =>
      rw [if_neg hMark]
      exact h

theorem isPrefixOf_append_blank {p : List Char} (hBlank : ' ' ∉ p) (cs more : List Char) :
    p.isPrefixOf (cs ++ ' ' :: more) = p.isPrefixOf cs := by
  induction p generalizing cs with
  | nil => simp
  | cons c p ih =>
    simp only [List.mem_cons, not_or] at hBlank
    cases cs with
    | nil => simp [List.isPrefixOf, Ne.symm hBlank.1]
    | cons d cs => simp [List.isPrefixOf, ih hBlank.2]

theorem punctuation_append_blank (c : Char) (cs more : List Char) :
    punctuation c (cs ++ ' ' :: more) = punctuation c cs := by
  have hPrefix : ∀ p ∈ longPunctuation,
      p.toList.isPrefixOf (c :: (cs ++ ' ' :: more)) = p.toList.isPrefixOf (c :: cs) := by
    intro p hMem
    have hNone : ∀ p ∈ longPunctuation, ' ' ∉ p.toList := by decide
    exact isPrefixOf_append_blank (hNone p hMem) (c :: cs) more
  simp only [punctuation]
  rw [List.find?_congr hPrefix]

theorem token_append_blank {c : Char} {cs : List Char} {l : Lexeme} (h : token c cs = .ok l)
    (more : List Char) : token c (cs ++ ' ' :: more) = .ok l := by
  have hDigit : (cs ++ ' ' :: more).head?.any Char.isDigit = cs.head?.any Char.isDigit := by
    cases cs <;> simp
  simp only [token, hDigit, numberRest_append_blank, punctuation_append_blank] at h ⊢
  by_cases hName : isNameStart c = true
  · rw [if_pos hName] at h ⊢
    exact word_append_blank h more
  · rw [if_neg hName] at h ⊢
    split at h
    · next hNumber => rwa [if_pos hNumber]
    · next hNumber =>
      rw [if_neg hNumber]
      split at h
      · next hQuote =>
        rw [if_pos hQuote]
        exact literal_append h _
      · next hQuote => rwa [if_neg hQuote]

structure StartsToken (c : Char) (cs : List Char) : Prop where
  not_break : c ≠ '\n'
  not_blank : isBlankInLine c = false
  not_joint : c = '\\' → cs.head? ≠ some '\n'
  not_comment : c = '/' → cs.head? ≠ some '/' ∧ cs.head? ≠ some '*'

theorem StartsToken.append_blank {c : Char} {cs : List Char} (h : StartsToken c cs)
    (more : List Char) : StartsToken c (cs ++ ' ' :: more) where
  not_break := h.not_break
  not_blank := h.not_blank
  not_joint := by
    intro hc
    cases cs with
    | nil => simp
    | cons d cs => exact h.not_joint hc
  not_comment := by
    intro hc
    cases cs with
    | nil => simp
    | cons d cs => exact h.not_comment hc

theorem next_eq_token {c : Char} {cs : List Char} (h : StartsToken c cs) (atLineStart : Bool)
    (hStart : atLineStart = true → c ≠ '#') : next atLineStart c cs = token c cs := by
  unfold next
  split
  · exact absurd rfl h.not_break
  · exact absurd rfl (h.not_joint rfl)
  · exact absurd rfl (h.not_comment rfl).1
  · exact absurd rfl (h.not_comment rfl).2
  · rw [if_neg (by rw [h.not_blank]; exact Bool.false_ne_true), if_neg]
    simpa [and_comm] using hStart

theorem startsToken_of_plain {c : Char} {cs chars : List Char} {kind : TokenKind}
    (h : next false c cs = .ok ⟨.plain kind, chars⟩) :
    StartsToken c cs := by
  unfold next at h
  split at h
  · cases h
  · cases h
  · cases h
  · split at h <;> cases h
  · next hBreak hJoint hLine hBlock =>
    split at h
    · cases h
    · next hBlank =>
      refine ⟨hBreak, Bool.eq_false_iff.mpr hBlank, ?_, ?_⟩
      · intro hc hHead
        obtain ⟨tail, hTail⟩ := List.head?_eq_some_iff.mp hHead
        exact hJoint tail hc hTail
      · intro hc
        refine ⟨?_, ?_⟩ <;> intro hHead
        · obtain ⟨tail, hTail⟩ := List.head?_eq_some_iff.mp hHead
          exact hLine tail hc hTail
        · obtain ⟨tail, hTail⟩ := List.head?_eq_some_iff.mp hHead
          exact hBlock tail hc hTail

theorem next_append_blank {c : Char} {cs chars : List Char} {kind : TokenKind}
    (h : next false c cs = .ok ⟨.plain kind, chars⟩) {atLineStart : Bool}
    (hStart : atLineStart = true → c ≠ '#') (more : List Char) :
    next atLineStart c (cs ++ ' ' :: more) = .ok ⟨.plain kind, chars⟩ := by
  have hToken := startsToken_of_plain h
  rw [next_eq_token hToken false nofun] at h
  rw [next_eq_token (hToken.append_blank more) atLineStart hStart]
  exact token_append_blank h more

end Lexeme

namespace Token

theorem lexOnto_blank (taken : List Token) (file : Nat) (atLineStart : Bool) (offset line : Nat)
    (cs : List Char) :
    lexOnto taken file atLineStart offset line (' ' :: cs) =
      lexOnto taken file atLineStart (offset + 1) line cs := by
  have hNext : Lexeme.next atLineStart ' ' cs = .ok ⟨.blank, [' ']⟩ := by
    simp [Lexeme.next, Lexeme.isBlankInLine]
  rw [lexOnto, hNext]
  rfl

theorem exists_lexOnto_word {w : Word} (hWord : w.isToken = true) {atLineStart : Bool}
    (hStart : atLineStart = true → w.text.toList.head? ≠ some '#') {rest : List Char}
    (hRest : rest = [] ∨ rest.head? = some ' ') (taken : List Token) (file offset line : Nat) :
    ∃ t offset', t.word = w ∧
      lexOnto taken file atLineStart offset line (w.text.toList ++ rest) =
        lexOnto (t :: taken) file false offset' line rest := by
  obtain ⟨c, cs, hText, hAlone⟩ := Word.exists_of_isToken hWord
  have hFirst : atLineStart = true → c ≠ '#' := by simpa [hText] using hStart
  have hNext : Lexeme.next atLineStart c (cs ++ rest) = .ok ⟨.plain w.kind, c :: cs⟩ := by
    obtain rfl | hBlank := hRest
    · have hToken := Lexeme.startsToken_of_plain hAlone
      rw [List.append_nil, Lexeme.next_eq_token hToken atLineStart hFirst,
        ← Lexeme.next_eq_token hToken false nofun]
      exact hAlone
    · obtain ⟨more, rfl⟩ := List.head?_eq_some_iff.mp hBlank
      exact Lexeme.next_append_blank hAlone hFirst more
  let span : Source.Span := ⟨file, offset, offset + Text.byteLength (c :: cs)⟩
  refine ⟨⟨w.kind, String.ofList (c :: cs), span, line⟩, offset + Text.byteLength (c :: cs), ?_, ?_⟩
  · simp [word, ← hText]
  · rw [hText, List.cons_append, lexOnto, hNext]
    simp [Lexeme.toToken?, Lexeme.keepsLineStart, Lexeme.lines, span]

end Token

namespace Word

theorem exists_lexOnto_print {ws : List Word} (hWords : ∀ w ∈ ws, w.isToken = true)
    (atLineStart : Bool)
    (hStart : atLineStart = true → ∀ w ∈ ws.head?, w.text.toList.head? ≠ some '#')
    (taken : List Token) (file offset line : Nat) :
    ∃ ts : List Token, ts.map Token.word = ws ∧
      Token.lexOnto taken file atLineStart offset line (print ws).toList =
        .ok (ts.reverse ++ taken) := by
  induction ws generalizing taken atLineStart offset with
  | nil => exact ⟨[], rfl, by simp [print, Token.lexOnto]⟩
  | cons w ws ih =>
    obtain ⟨hWord, hLater⟩ := List.forall_mem_cons.mp hWords
    have hFirst : atLineStart = true → w.text.toList.head? ≠ some '#' :=
      fun h => hStart h w rfl
    cases ws with
    | nil =>
      obtain ⟨t, _, rfl, hRead⟩ :=
        Token.exists_lexOnto_word hWord hFirst (.inl rfl) taken file offset line
      refine ⟨[t], rfl, ?_⟩
      simpa [print, Token.lexOnto] using hRead
    | cons w' ws =>
      let rest := ' ' :: (print (w' :: ws)).toList
      have hBlank : rest = [] ∨ rest.head? = some ' ' := .inr rfl
      obtain ⟨t, after, rfl, hRead⟩ :=
        Token.exists_lexOnto_word hWord hFirst hBlank taken file offset line
      obtain ⟨ts, hTokens, hRest⟩ := ih hLater false (absurd · Bool.false_ne_true) (t :: taken) (after + 1)
      refine ⟨t :: ts, by rw [List.map_cons, hTokens], ?_⟩
      have hText : (print (t.word :: w' :: ws)).toList =
          t.word.text.toList ++ ' ' :: (print (w' :: ws)).toList := by
        simp [print]
      rw [hText, hRead, Token.lexOnto_blank, hRest, List.reverse_cons, List.append_assoc]
      rfl

theorem exists_lex_print {ws : List Word} (hWords : ∀ w ∈ ws, w.isToken = true)
    (hStart : ∀ w ∈ ws.head?, w.text.toList.head? ≠ some '#') (file : Nat) (name : String) :
    ∃ ts, Token.lex file name (print ws) = .ok ts ∧ ts.map Token.word = ws := by
  obtain ⟨ts, hTokens, hRead⟩ := exists_lexOnto_print hWords true (fun _ => hStart) [] file 0 1
  refine ⟨ts, ?_, hTokens⟩
  rw [Token.lex, Token.lexChars, hRead]
  simp [Except.map, Except.mapError]

end Word

end SkeletonWeave
