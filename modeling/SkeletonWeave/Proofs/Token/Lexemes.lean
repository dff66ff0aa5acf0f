import SkeletonWeave.Proofs.Results
import SkeletonWeave.Proofs.Text.Cut
import SkeletonWeave.Token.Lexer

/-!
# Texts as lexemes

Each lexeme takes its first character and some of what follows, so a text that
is read to its end is its lexemes one after the other. The tokens are those of
the lexemes, at the bytes and lines that the lexemes before them take.
-/

set_option autoImplicit false

namespace SkeletonWeave

namespace Lexeme

open Text

/-- Whether a lexeme that starts with a character takes it and then a start of what follows. -/
def Takes (c : Char) (cs : List Char) (l : Lexeme) : Prop :=
  ∃ taken rest, l.chars = c :: taken ∧ cs = taken ++ rest

theorem exists_of_lineRest (cs : List Char) :
    ∃ rest, cs = lineRest cs ++ rest ∧ '\n' ∉ lineRest cs := by
  refine ⟨cs.dropWhile (· ≠ '\n'), (List.takeWhile_append_dropWhile).symm, ?_⟩
  intro hMem
  have := List.all_eq_true.mp List.all_takeWhile _ hMem
  simp at this

theorem blockRestOnto?_eq_some {taken cs result : List Char}
    (h : blockRestOnto? taken cs = some result) :
    ∃ body rest, result = body.reverse ++ taken ∧ cs = body ++ rest := by
  fun_induction blockRestOnto? taken cs with
  | case1 => cases h
  | case2 taken rest =>
    cases h
    exact ⟨['*', '/'], rest, rfl, rfl⟩
  | case3 taken c cs _ ih =>
    obtain ⟨body, rest, hResult, rfl⟩ := ih h
    refine ⟨c :: body, rest, ?_, rfl⟩
    rw [hResult, List.reverse_cons, List.append_assoc]
    rfl

theorem blockRest?_eq_some {cs body : List Char} (h : blockRest? cs = some body) :
    ∃ rest, cs = body ++ rest := by
  obtain ⟨reversed, hFound, rfl⟩ := Option.map_eq_some_iff.mp h
  obtain ⟨body, rest, rfl, hCut⟩ := blockRestOnto?_eq_some hFound
  exact ⟨rest, by rw [List.append_nil, List.reverse_reverse, hCut]⟩

theorem literalRestOnto_eq_ok {quote : Char} {taken cs result : List Char} {bytes : Nat}
    (h : literalRestOnto quote taken bytes cs = .ok result) :
    ∃ body rest, result = body.reverse ++ taken ∧ cs = body ++ rest := by
  fun_induction literalRestOnto quote taken bytes cs with
  | case1 => cases h
  | case2 => cases h
  | case3 => cases h
  | case4 taken bytes c cs ih =>
    obtain ⟨body, rest, hResult, rfl⟩ := ih h
    refine ⟨'\\' :: c :: body, rest, ?_, rfl⟩
    rw [hResult, List.reverse_cons, List.reverse_cons, List.append_assoc, List.append_assoc]
    rfl
  | case5 taken bytes cs =>
    cases h
    exact ⟨[quote], cs, rfl, rfl⟩
  | case6 taken bytes c cs _ _ _ _ ih =>
    obtain ⟨body, rest, hResult, rfl⟩ := ih h
    refine ⟨c :: body, rest, ?_, rfl⟩
    rw [hResult, List.reverse_cons, List.append_assoc]
    rfl

theorem literalRest_eq_ok {quote : Char} {cs body : List Char} {bytes : Nat}
    (h : literalRest quote bytes cs = .ok body) : ∃ rest, cs = body ++ rest := by
  rw [literalRest] at h
  obtain ⟨reversed, hFound, rfl⟩ := map_eq_ok h
  obtain ⟨body, rest, rfl, hCut⟩ := literalRestOnto_eq_ok hFound
  rw [List.append_nil, List.reverse_reverse]
  exact ⟨rest, hCut⟩

theorem literal_eq_ok {mark cs : List Char} {quote : Char} {l : Lexeme}
    (h : literal mark quote cs = .ok l) :
    ∃ body rest, l.chars = mark ++ quote :: body ∧ cs = body ++ rest ∧
      (l.role = .plain .string ∨ l.role = .plain .character) := by
  simp only [literal] at h
  split at h
  · next hRest =>
    obtain ⟨rest, hCut⟩ := literalRest_eq_ok hRest
    cases h
    refine ⟨_, rest, rfl, hCut, ?_⟩
    by_cases hQuote : quote = '"' <;> simp [hQuote]
  · cases h

theorem exists_of_numberRest (previous : Char) (cs : List Char) :
    ∃ rest, cs = numberRest previous cs ++ rest ∧ '\n' ∉ numberRest previous cs := by
  fun_induction numberRest previous cs with
  | case1 => exact ⟨[], rfl, by simp⟩
  | case2 previous c cs isSign hPart ih =>
    obtain ⟨rest, hCut, hBreak⟩ := ih
    refine ⟨rest, by rw [List.cons_append, ← hCut], ?_⟩
    rw [List.mem_cons, not_or]
    refine ⟨?_, hBreak⟩
    rintro rfl
    simp [isSign] at hPart
  | case3 previous c cs => exact ⟨c :: cs, rfl, by simp⟩

theorem word_eq_ok {c : Char} {cs : List Char} {l : Lexeme} (h : word c cs = .ok l) :
    Takes c cs l ∧
      (l = ⟨.plain .identifier, c :: cs.takeWhile isNamePart⟩ ∨
        l.role = .plain .string ∨ l.role = .plain .character) := by
  have hCut : cs = cs.takeWhile isNamePart ++ cs.dropWhile isNamePart :=
    List.takeWhile_append_dropWhile.symm
  simp only [word] at h
  split at h
  · next quote rest hRest =>
    split at h
    · obtain ⟨body, rest', hChars, hBody, hRole⟩ := literal_eq_ok h
      refine ⟨⟨cs.takeWhile isNamePart ++ quote :: body, rest', hChars, ?_⟩, .inr hRole⟩
      rw [List.append_assoc, List.cons_append, ← hBody, ← hRest, ← hCut]
    · cases h
      exact ⟨⟨_, _, rfl, hCut⟩, .inl rfl⟩
  · cases h
    exact ⟨⟨_, _, rfl, hCut⟩, .inl rfl⟩

theorem punctuation_eq (c : Char) (cs : List Char) :
    Takes c cs (punctuation c cs) ∧ (punctuation c cs).role = .plain .punctuation ∧
      ((punctuation c cs).chars = [c] ∨ String.ofList (punctuation c cs).chars ∈ longPunctuation) := by
  rw [punctuation]
  cases hFound : longPunctuation.find? fun p => p.toList.isPrefixOf (c :: cs) with
  | none => exact ⟨⟨[], cs, rfl, rfl⟩, rfl, .inl rfl⟩
  | some p =>
    have hMem := List.mem_of_find?_eq_some hFound
    have hPrefix := List.find?_some hFound
    obtain ⟨rest, hCut⟩ := List.isPrefixOf_iff_prefix.mp hPrefix
    show Takes c cs ⟨.plain .punctuation, p.toList⟩ ∧ _ ∧ _
    refine ⟨?_, rfl, .inr (by rw [String.ofList_toList]; exact hMem)⟩
    cases hChars : p.toList with
    | nil =>
      have hEmpty : ∀ q ∈ longPunctuation, q.toList ≠ [] := by decide +kernel
      exact absurd hChars (hEmpty p hMem)
    | cons d taken =>
      rw [hChars, List.cons_append] at hCut
      obtain ⟨rfl, hRest⟩ := List.cons.inj hCut
      exact ⟨taken, rest, rfl, hRest.symm⟩

theorem exists_of_fileNameRest (close : Char) (cs : List Char) :
    ∃ rest, cs = fileNameRest close cs ++ rest := by
  fun_induction fileNameRest close cs with
  | case1 => exact ⟨[], rfl⟩
  | case2 => exact ⟨_, rfl⟩
  | case3 => exact ⟨_, rfl⟩
  | case4 c cs _ _ ih =>
    obtain ⟨rest, hCut⟩ := ih
    exact ⟨rest, by rw [List.cons_append, ← hCut]⟩

theorem directivePiece?_eq_some {text cs : List Char} {c : Char} {piece : Piece}
    (h : directivePiece? text c cs = some piece) :
    ∃ taken rest, piece.chars = c :: taken ∧ cs = taken ++ rest := by
  unfold directivePiece? at h
  split at h
  · cases h
    exact ⟨['\n'], _, rfl, rfl⟩
  · cases h
    exact ⟨['\r', '\n'], _, rfl, rfl⟩
  · next tail =>
    cases h
    obtain ⟨rest, hCut, -⟩ := exists_of_lineRest ('/' :: tail)
    exact ⟨_, rest, rfl, hCut⟩
  · obtain ⟨body, hBody, rfl⟩ := Option.map_eq_some_iff.mp h
    obtain ⟨rest, hCut⟩ := blockRest?_eq_some hBody
    exact ⟨'*' :: body, rest, rfl, by rw [hCut, List.cons_append]⟩
  · split at h
    · cases h
      obtain ⟨rest, hCut⟩ := exists_of_fileNameRest (if c = '"' then '"' else '>') cs
      exact ⟨_, rest, rfl, hCut⟩
    · cases h
      exact ⟨[], cs, rfl, rfl⟩

theorem directiveRestOnto_eq_ok {taken text cs : List Char} {offset : Nat}
    {result : List Char × List Char} (h : directiveRestOnto taken text offset cs = .ok result) :
    ∃ body rest, result.1 = body.reverse ++ taken ∧ cs = body ++ rest := by
  fun_induction directiveRestOnto taken text offset cs with
  | case1 =>
    cases h
    exact ⟨[], [], rfl, rfl⟩
  | case2 =>
    cases h
    exact ⟨[], _, rfl, rfl⟩
  | case3 => cases h
  | case4 taken text offset c cs _ piece hPiece ih =>
    obtain ⟨body, rest, hResult, hRest⟩ := ih h
    obtain ⟨part, after, hChars, rfl⟩ := directivePiece?_eq_some hPiece
    rw [hChars, List.length_cons, Nat.add_sub_cancel, List.drop_left] at hRest
    refine ⟨c :: part ++ body, rest, ?_, ?_⟩
    · rw [hResult, hChars, List.reverse_append, List.append_assoc]
    · rw [hRest, List.cons_append, List.cons_append, List.append_assoc]

theorem directiveLine_eq_ok {cs : List Char} {l : Lexeme} (h : directiveLine cs = .ok l) :
    Takes '#' cs l ∧ ∃ text, l.role = .directive text := by
  unfold directiveLine at h
  split at h
  · next taken text hFound =>
    cases h
    obtain ⟨body, rest, hTaken, hCut⟩ := directiveRestOnto_eq_ok hFound
    refine ⟨⟨body, rest, ?_, hCut⟩, _, rfl⟩
    simp only at hTaken
    rw [hTaken, List.reverse_append, List.reverse_reverse]
    rfl
  · cases h

/-- What the role of a lexeme says about its characters. -/
structure Sound (l : Lexeme) : Prop where
  notDirective : l.role ≠ .plain .directive
  noBreak : ∀ kind, l.role = .plain kind → kind ≠ .string → kind ≠ .character → '\n' ∉ l.chars
  name : l.role = .plain .identifier → ∀ c ∈ l.chars, isNamePart c = true

theorem sound_of_not_plain {l : Lexeme} (h : ∀ kind, l.role ≠ .plain kind) : l.Sound where
  notDirective := h _
  noBreak kind hRole := absurd hRole (h kind)
  name hRole := absurd hRole (h _)

theorem sound_of_literal {l : Lexeme}
    (h : l.role = .plain .string ∨ l.role = .plain .character) : l.Sound where
  notDirective := by rcases h with h | h <;> rw [h] <;> simp
  noBreak kind hRole hString hCharacter := by
    rcases h with h | h <;> rw [h] at hRole <;> cases hRole <;> contradiction
  name hRole := by rcases h with h | h <;> rw [h] at hRole <;> cases hRole

theorem isNamePart_of_isNameStart {c : Char} (h : isNameStart c = true) : isNamePart c = true := by
  simp only [isNameStart, isNamePart, Char.isAlphanum, Bool.or_eq_true] at *
  rcases h with (h | h) | h
  · exact .inl (.inl (.inl h))
  · exact .inl (.inr h)
  · exact .inr h

theorem not_isNamePart_break : isNamePart '\n' = false := by decide

theorem token_eq_ok {c : Char} {cs : List Char} {l : Lexeme} (hBreak : c ≠ '\n')
    (h : token c cs = .ok l) : Takes c cs l ∧ l.Sound := by
  unfold token at h
  split at h
  · next hStart =>
    obtain ⟨hTakes, rfl | hLiteral⟩ := word_eq_ok h
    · have hName : ∀ d ∈ c :: cs.takeWhile isNamePart, isNamePart d = true := by
        intro d hd
        rcases List.mem_cons.mp hd with rfl | hd
        · exact isNamePart_of_isNameStart hStart
        · exact List.all_eq_true.mp List.all_takeWhile d hd
      refine ⟨hTakes, by simp, ?_, fun _ => hName⟩
      intro _ _ _ _ hMem
      rw [← Bool.not_eq_false, ← not_isNamePart_break] at *
      exact absurd (hName '\n' hMem) (by simp [not_isNamePart_break])
    · exact ⟨hTakes, sound_of_literal hLiteral⟩
  · split at h
    · cases h
      obtain ⟨rest, hCut, hRest⟩ := exists_of_numberRest c cs
      refine ⟨⟨_, rest, rfl, hCut⟩, by simp, ?_, by simp⟩
      intro _ _ _ _ hMem
      rcases List.mem_cons.mp hMem with hFirst | hMem
      · exact hBreak hFirst.symm
      · exact hRest hMem
    · split at h
      · obtain ⟨body, rest, hChars, hCut, hRole⟩ := literal_eq_ok h
        exact ⟨⟨body, rest, hChars, hCut⟩, sound_of_literal hRole⟩
      · cases h
        obtain ⟨hTakes, hRole, hChars⟩ := punctuation_eq c cs
        refine ⟨hTakes, by rw [hRole]; simp, ?_, by rw [hRole]; simp⟩
        intro _ _ _ _ hMem
        rcases hChars with hSingle | hLong
        · rw [hSingle, List.mem_singleton] at hMem
          exact hBreak hMem.symm
        · have hLongs : ∀ q ∈ longPunctuation, '\n' ∉ q.toList := by decide +kernel
          have := hLongs _ hLong
          rw [String.toList_ofList] at this
          exact this hMem

theorem next_eq_ok {atLineStart : Bool} {c : Char} {cs : List Char} {l : Lexeme}
    (h : next atLineStart c cs = .ok l) : Takes c cs l ∧ l.Sound := by
  unfold next at h
  split at h
  · cases h
    exact ⟨⟨[], cs, rfl, rfl⟩, sound_of_not_plain (by simp)⟩
  · cases h
    exact ⟨⟨['\n'], _, rfl, rfl⟩, sound_of_not_plain (by simp)⟩
  · next tail =>
    cases h
    obtain ⟨rest, hCut, -⟩ := exists_of_lineRest ('/' :: tail)
    exact ⟨⟨_, rest, rfl, hCut⟩, sound_of_not_plain (by simp)⟩
  · split at h
    · next body hBody =>
      cases h
      obtain ⟨rest, hCut⟩ := blockRest?_eq_some hBody
      exact ⟨⟨'*' :: body, rest, rfl, by rw [hCut, List.cons_append]⟩,
        sound_of_not_plain (by simp)⟩
    · cases h
  · next hBreak _ _ _ =>
    split at h
    · cases h
      exact ⟨⟨[], cs, rfl, rfl⟩, sound_of_not_plain (by simp)⟩
    · split at h
      · next hHash =>
        obtain ⟨hTakes, text, hRole⟩ := directiveLine_eq_ok h
        rw [Bool.and_eq_true, decide_eq_true_eq] at hHash
        rw [hHash.1]
        exact ⟨hTakes, sound_of_not_plain (by rw [hRole]; simp)⟩
      · exact token_eq_ok (fun hEq => hBreak hEq) h

end Lexeme

namespace Token

open Text

/-- A text as the lexemes that reading takes from it one after the other. -/
inductive Tiled : Bool → List Char → List Lexeme → Prop
  | done (atLineStart : Bool) : Tiled atLineStart [] []
  | step {atLineStart : Bool} {c : Char} {cs rest : List Char} {l : Lexeme} {ls : List Lexeme} :
    Lexeme.next atLineStart c cs = .ok l → c :: cs = l.chars ++ rest →
    Tiled (l.keepsLineStart atLineStart) rest ls → Tiled atLineStart (c :: cs) (l :: ls)

def ofLexemes (file offset line : Nat) : List Lexeme → List Token
  | [] => []
  | l :: ls =>
    (l.toToken? file offset line).toList ++
      ofLexemes file (offset + byteLength l.chars) (line + l.lines) ls

theorem lexOnto_eq_ok {taken ts : List Token} {file offset line : Nat} {atLineStart : Bool}
    {cs : List Char} (h : lexOnto taken file atLineStart offset line cs = .ok ts) :
    ∃ ls, Tiled atLineStart cs ls ∧ ts = (ofLexemes file offset line ls).reverse ++ taken := by
  fun_induction lexOnto taken file atLineStart offset line cs with
  | case1 taken atLineStart =>
    cases h
    exact ⟨[], .done atLineStart, rfl⟩
  | case2 => cases h
  | case3 taken atLineStart offset line c cs l hNext ih =>
    obtain ⟨ls, hTiled, hTokens⟩ := ih h
    obtain ⟨part, rest, hChars, rfl⟩ := (Lexeme.next_eq_ok hNext).1
    have hCut : c :: (part ++ rest) = l.chars ++ rest := by rw [hChars, List.cons_append]
    rw [hChars, List.length_cons, Nat.add_sub_cancel, List.drop_left] at hTiled
    refine ⟨l :: ls, .step hNext hCut hTiled, ?_⟩
    have hOne : (l.toToken? file offset line).toList.reverse =
        (l.toToken? file offset line).toList := by
      cases l.toToken? file offset line <;> rfl
    rw [hTokens, ofLexemes, List.reverse_append, hOne, List.append_assoc]

theorem lexChars_eq_ok {file : Nat} {cs : List Char} {ts : List Token}
    (h : lexChars file cs = .ok ts) : ∃ ls, Tiled true cs ls ∧ ts = ofLexemes file 0 1 ls := by
  rw [lexChars] at h
  obtain ⟨reversed, hRead, rfl⟩ := map_eq_ok h
  obtain ⟨ls, hTiled, rfl⟩ := lexOnto_eq_ok hRead
  rw [List.append_nil, List.reverse_reverse]
  exact ⟨ls, hTiled, rfl⟩

theorem lex_eq_ok {file : Nat} {name text : String} {ts : List Token}
    (h : lex file name text = .ok ts) :
    ∃ ls, Tiled true text.toList ls ∧ ts = ofLexemes file 0 1 ls := by
  rw [lex] at h
  exact lexChars_eq_ok (mapError_eq_ok h)

namespace Tiled

theorem flatMap_chars {atLineStart : Bool} {cs : List Char} {ls : List Lexeme}
    (h : Tiled atLineStart cs ls) : cs = ls.flatMap (·.chars) := by
  induction h with
  | done => rfl
  | step _ hCut _ ih => rw [hCut, List.flatMap_cons, ← ih]

theorem sound {atLineStart : Bool} {cs : List Char} {ls : List Lexeme}
    (h : Tiled atLineStart cs ls) : ∀ l ∈ ls, l.Sound ∧ l.chars ≠ [] := by
  induction h with
  | done => simp
  | step hNext _ _ ih =>
    intro l' hMem
    rcases List.mem_cons.mp hMem with rfl | hMem
    · obtain ⟨⟨part, rest, hChars, -⟩, hSound⟩ := Lexeme.next_eq_ok hNext
      exact ⟨hSound, by rw [hChars]; simp⟩
    · exact ih l' hMem

end Tiled

end Token

end SkeletonWeave
