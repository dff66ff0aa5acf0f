import SkeletonWeave.Proofs.Token.Retiling

/-!
# Tokens without a blank between them

An identifier, a number and the marks that stand in types end before every
character that cannot go on them. Words that are laid out with or without
blanks, so that each ends before what follows it, are read as they are.
-/

set_option autoImplicit false

namespace SkeletonWeave

namespace Word

def marksInTypes : List String :=
  ["::", "<", ">", ",", "*", "&", "&&", "(", ")"]

def isOfType (w : Word) : Bool :=
  match w.kind with
  | .identifier | .number => w.isToken
  | .punctuation => marksInTypes.contains w.text
  | _ => false

/-- Whether a word of a type ends before a character. -/
def stops (w : Word) (d : Char) : Bool :=
  match w.kind with
  | .identifier => !Lexeme.isNamePart d && !Lexeme.isQuote d
  | .number => !d.isAlphanum && !(['.', '\'', '+', '-'].contains d)
  | _ => w.text != "&" || d != '&'

end Word

namespace Lexeme

theorem token_cases {c : Char} {cs : List Char} {l : Lexeme} (h : token c cs = .ok l) :
    (isNameStart c = true ∧ l = ⟨.plain .identifier, c :: cs.takeWhile isNamePart⟩) ∨
      (¬isNameStart c = true ∧ (c.isDigit || (c == '.' && cs.head?.any Char.isDigit)) = true ∧
        l = ⟨.plain .number, c :: numberRest c cs⟩) ∨
      l.role = .plain .string ∨ l.role = .plain .character ∨ l.role = .plain .punctuation := by
  unfold token at h
  split at h
  · next hStart =>
    rcases (word_eq_ok h).2 with hName | hString | hCharacter
    · exact .inl ⟨hStart, hName⟩
    · exact .inr (.inr (.inl hString))
    · exact .inr (.inr (.inr (.inl hCharacter)))
  · next hStart =>
    split at h
    · next hNumber => exact .inr (.inl ⟨hStart, hNumber, (Except.ok.inj h).symm⟩)
    · split at h
      · obtain ⟨_, _, -, -, hString | hCharacter⟩ := literal_eq_ok h
        · exact .inr (.inr (.inl hString))
        · exact .inr (.inr (.inr (.inl hCharacter)))
      · rw [← Except.ok.inj h]
        exact .inr (.inr (.inr (.inr (punctuation_eq c cs).2.1)))

theorem next_of_wordStart {c : Char} (h : (isNameStart c || c.isDigit || c == '.') = true)
    (atLineStart : Bool) (cs : List Char) : next atLineStart c cs = token c cs := by
  have hNot {d : Char} (hd : (isNameStart d || d.isDigit || d == '.') = false) : c ≠ d := by
    rintro rfl
    rw [hd] at h
    cases h
  have hStarts : StartsToken c cs := by
    refine ⟨hNot (by decide), ?_, fun hc => absurd hc (hNot (by decide)),
      fun hc => absurd hc (hNot (by decide))⟩
    exact (isPlain_of_test (fun c => isNameStart c || c.isDigit || c == '.') (by decide) h).1
  exact next_eq_token hStarts atLineStart fun _ => hNot (by decide)

theorem next_identifier {c : Char} {part rest : List Char} (hStart : isNameStart c = true)
    (hPart : ∀ d ∈ part, isNamePart d = true)
    (hRest : ∀ d ∈ rest.head?, isNamePart d = false ∧ isQuote d = false) (atLineStart : Bool) :
    next atLineStart c (part ++ rest) = .ok ⟨.plain .identifier, c :: part⟩ := by
  obtain ⟨hTake, hDrop⟩ := takeWhile_name hPart fun d hd => (hRest d hd).1
  rw [next_name hStart, word, hTake, hDrop]
  cases rest with
  | nil => rfl
  | cons d rest => simp [(hRest d rfl).2]

theorem next_of_identifier {c : Char} {cs rest : List Char}
    (h : next false c cs = .ok ⟨.plain .identifier, c :: cs⟩)
    (hRest : ∀ d ∈ rest.head?, isNamePart d = false ∧ isQuote d = false) (atLineStart : Bool) :
    next atLineStart c (cs ++ rest) = .ok ⟨.plain .identifier, c :: cs⟩ := by
  rw [next_eq_token (startsToken_of_plain h) false nofun] at h
  rcases token_cases h with ⟨hStart, hName⟩ | ⟨-, -, ⟨⟩⟩ | ⟨⟨⟩⟩ | ⟨⟨⟩⟩ | ⟨⟨⟩⟩
  have hSame : cs = cs.takeWhile isNamePart := by simpa using hName
  have hPart : ∀ d ∈ cs, isNamePart d = true := by
    rw [hSame]
    exact List.all_eq_true.mp List.all_takeWhile
  exact next_identifier hStart hPart hRest atLineStart

theorem numberRest_append {previous : Char} {cs rest : List Char}
    (h : numberRest previous cs = cs)
    (hRest : ∀ d ∈ rest.head?, d.isAlphanum = false ∧ d ∉ ['.', '\'', '+', '-']) :
    numberRest previous (cs ++ rest) = cs := by
  induction cs generalizing previous with
  | nil =>
    cases rest with
    | nil => rfl
    | cons d rest =>
      obtain ⟨hPlain, hMarks⟩ := hRest d rfl
      simp only [List.mem_cons, List.not_mem_nil, or_false, not_or] at hMarks
      rw [List.nil_append, numberRest, if_neg]
      simp [hPlain, hMarks]
  | cons c cs ih =>
    rw [numberRest] at h
    split at h
    · next hPart => rw [List.cons_append, numberRest, if_pos hPart, ih (List.cons.inj h).2]
    · cases h

theorem next_of_number {c : Char} {cs rest : List Char}
    (h : next false c cs = .ok ⟨.plain .number, c :: cs⟩)
    (hRest : ∀ d ∈ rest.head?, d.isAlphanum = false ∧ d ∉ ['.', '\'', '+', '-'])
    (atLineStart : Bool) : next atLineStart c (cs ++ rest) = .ok ⟨.plain .number, c :: cs⟩ := by
  rw [next_eq_token (startsToken_of_plain h) false nofun] at h
  rcases token_cases h with ⟨-, ⟨⟩⟩ | ⟨hStart, hNumber, hDigits⟩ | ⟨⟨⟩⟩ | ⟨⟨⟩⟩ | ⟨⟨⟩⟩
  have hSame : numberRest c cs = cs := by simpa using hDigits.symm
  have hWord : (isNameStart c || c.isDigit || c == '.') = true := by
    simp only [Bool.or_eq_true, Bool.and_eq_true] at hNumber ⊢
    exact hNumber.elim (fun h => .inl (.inr h)) fun h => .inr h.1
  -- a point needs a digit after it, so that digit is among the characters
  have hNumber : (c.isDigit || (c == '.' && (cs ++ rest).head?.any Char.isDigit)) = true := by
    cases cs with
    | nil =>
      have hDigit : c.isDigit = true := by simpa using hNumber
      rw [hDigit, Bool.true_or]
    | cons d cs => exact hNumber
  rw [next_of_wordStart hWord, token, if_neg hStart, if_pos hNumber, numberRest_append hSame hRest]

theorem next_ampersand {rest : List Char} (h : ∀ d ∈ rest.head?, d ≠ '&') (atLineStart : Bool) :
    next atLineStart '&' rest = .ok ⟨.plain .punctuation, ['&']⟩ := by
  cases rest with
  | nil => cases atLineStart <;> rfl
  | cons d rest =>
    have hOther : ('&' == d) = false := beq_eq_false_iff_ne.mpr (Ne.symm (h d rfl))
    have hPunctuation : punctuation '&' (d :: rest) = ⟨.plain .punctuation, ['&']⟩ := by
      simp [punctuation, longPunctuation, List.isPrefixOf, hOther]
    have hStarts : StartsToken '&' (d :: rest) := by
      refine ⟨by decide, by decide, fun hJoint => ?_, fun hComment => ?_⟩
      · exact absurd hJoint (by decide)
      · exact absurd hComment (by decide)
    rw [next_eq_token hStarts atLineStart (by simp), ← hPunctuation]
    rfl

theorem next_mark {text : String} (hText : text ∈ Word.marksInTypes) {rest : List Char}
    (hRest : ∀ d ∈ rest.head?, text = "&" → d ≠ '&') :
    ∃ c cs, text.toList = c :: cs ∧
      ∀ st, next st c (cs ++ rest) = .ok ⟨.plain .punctuation, c :: cs⟩ := by
  simp only [Word.marksInTypes, List.mem_cons, List.not_mem_nil, or_false] at hText
  rcases hText with rfl | rfl | rfl | rfl | rfl | rfl | rfl | rfl | rfl
  all_goals refine ⟨_, _, rfl, fun st => ?_⟩
  case inr.inr.inr.inr.inr.inl => exact next_ampersand (fun d hd => hRest d hd rfl) st
  all_goals cases st <;> rfl

theorem next_of_stops {w : Word} (hWord : w.isOfType = true) {rest : List Char}
    (hRest : ∀ d ∈ rest.head?, w.stops d = true) :
    ∃ c cs, w.text.toList = c :: cs ∧
      ∀ st, next st c (cs ++ rest) = .ok ⟨.plain w.kind, c :: cs⟩ := by
  obtain ⟨kind, text⟩ := w
  cases kind with
  | identifier =>
    obtain ⟨c, cs, hText, hAlone⟩ := Word.exists_of_isToken hWord
    refine ⟨c, cs, hText, next_of_identifier hAlone fun d hd => ?_⟩
    simpa [Word.stops] using hRest d hd
  | number =>
    obtain ⟨c, cs, hText, hAlone⟩ := Word.exists_of_isToken hWord
    refine ⟨c, cs, hText, next_of_number hAlone fun d hd => ?_⟩
    simpa [Word.stops] using hRest d hd
  | punctuation =>
    refine next_mark (by simpa [Word.isOfType] using hWord) fun d hd hMark => ?_
    have hStops := hRest d hd
    rw [show text = "&" from hMark] at hStops
    exact bne_iff_ne.mp hStops
  | string => cases hWord
  | character => cases hWord
  | directive => cases hWord

end Lexeme

namespace Token

/-- A text as the words that are read from it wherever it starts on a line. -/
inductive Worded : List Char → List Word → Prop
  | nil : Worded [] []
  | blank {c : Char} {cs : List Char} {ws : List Word} (h : Lexeme.isBlankInLine c = true)
    (hRest : Worded cs ws) : Worded (c :: cs) ws
  | word {w : Word} {c : Char} {part rest : List Char} {ws : List Word}
    (hText : w.text.toList = c :: part)
    (hNext : ∀ st, Lexeme.next st c (part ++ rest) = .ok ⟨.plain w.kind, c :: part⟩)
    (hRest : Worded rest ws) : Worded (w.text.toList ++ rest) (w :: ws)

namespace Worded

variable {cs rest : List Char} {ws : List Word}

theorem blanks {gap : List Char} (hGap : ∀ c ∈ gap, Lexeme.isBlankInLine c = true)
    (h : Worded cs ws) : Worded (gap ++ cs) ws := by
  induction gap with
  | nil => exact h
  | cons c gap ih =>
    obtain ⟨hBlank, hLater⟩ := List.forall_mem_cons.mp hGap
    exact .blank hBlank (ih hLater)

theorem ofType {w : Word} (hWord : w.isOfType = true)
    (hStops : ∀ d ∈ rest.head?, w.stops d = true) (hRest : Worded rest ws) :
    Worded (w.text.toList ++ rest) (w :: ws) := by
  obtain ⟨c, part, hText, hNext⟩ := Lexeme.next_of_stops hWord hStops
  exact .word hText hNext hRest

theorem exists_tiled (h : Worded cs ws) (atLineStart : Bool) :
    ∃ ls, Tiled atLineStart cs ls ∧
      ∀ file offset line, (ofLexemes file offset line ls).map Token.word = ws := by
  induction h generalizing atLineStart with
  | nil => exact ⟨[], .done atLineStart, fun _ _ _ => rfl⟩
  | blank hBlank _ ih =>
    obtain ⟨ls, hTiled, hWords⟩ := ih atLineStart
    exact ⟨_, .step (Lexeme.next_blank hBlank _ _) rfl hTiled, fun _ _ _ => hWords _ _ _⟩
  | @word w c part rest ws hText hNext _ ih =>
    obtain ⟨ls, hTiled, hWords⟩ := ih false
    rw [hText]
    refine ⟨_, .step (hNext atLineStart) rfl hTiled, fun file offset line => ?_⟩
    rw [ofLexemes, List.map_append, hWords, ← hText]
    show [⟨w.kind, String.ofList w.text.toList⟩] ++ ws = w :: ws
    rw [String.ofList_toList, List.singleton_append]

theorem exists_lex (h : Worded cs ws) (file : Nat) (name : String) :
    ∃ ts, lex file name (String.ofList cs) = .ok ts ∧ ts.map Token.word = ws := by
  obtain ⟨ls, hTiled, hWords⟩ := h.exists_tiled true
  exact ⟨_, lex_of_tiled hTiled file name, hWords file 0 1⟩

end Worded

end Token

end SkeletonWeave
