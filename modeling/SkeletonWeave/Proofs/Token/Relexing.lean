import SkeletonWeave.Proofs.Token.Lead
import SkeletonWeave.Proofs.Token.Spacing

/-!
# Lexemes before other texts

The reader of a lexeme looks at the characters that it takes, at the next one,
and at one more where that is a point or a carriage return. So a lexeme is read
as it was before every text that starts alike.
-/

set_option autoImplicit false

namespace SkeletonWeave

namespace Lexeme

open Text

/-- Whether two texts look alike to the reader of what stands before them. -/
structure LooksLike (rest rest' : List Char) : Prop where
  head : rest'.head? = rest.head?
  second : rest.head? = some '.' ∨ rest.head? = some '\r' → rest'.tail.head? = rest.tail.head?

namespace LooksLike

variable {rest rest' : List Char}

theorem append (h : LooksLike rest rest') (kept : List Char) :
    LooksLike (kept ++ rest) (kept ++ rest') := by
  cases kept with
  | nil => exact h
  | cons c kept =>
    refine ⟨rfl, fun _ => ?_⟩
    cases kept with
    | nil => exact h.head
    | cons d kept => rfl

theorem of_cons {d : Char} (hPoint : d ≠ '.') (hReturn : d ≠ '\r') (rest rest' : List Char) :
    LooksLike (d :: rest) (d :: rest') := by
  refine ⟨rfl, ?_⟩
  rintro (hHead | hHead)
  · exact absurd (Option.some.inj hHead) hPoint
  · exact absurd (Option.some.inj hHead) hReturn

theorem eq_nil (h : LooksLike [] rest') : rest' = [] :=
  List.head?_eq_none_iff.mp h.head

end LooksLike

/-- What a reader takes of a text that starts with `c`, which it reads alike before all texts that
look alike. -/
def Cuts {α : Type} (read : List Char → α) (result : α) (c : Char) (chars cs : List Char) : Prop :=
  ∃ part rest, chars = c :: part ∧ cs = part ++ rest ∧
    ∀ rest', LooksLike rest rest' → read (part ++ rest') = result

inductive Ends (l : Lexeme) (rest : List Char) : Prop
  | newline : l = ⟨.newline, ['\n']⟩ → Ends l rest
  | joint : l = ⟨.joint, ['\\', '\n']⟩ → Ends l rest
  | blank {c : Char} : isBlankInLine c = true → l = ⟨.blank, [c]⟩ → Ends l rest
  | line : l.role = .comment → '\n' ∉ l.chars → (∀ c ∈ rest.head?, c = '\n') → Ends l rest
  | block : l.role = .comment → l.chars.getLast? = some '/' → Ends l rest
  | literal {kind : TokenKind} {quote : Char} : l.role = .plain kind → isQuote quote = true →
    l.chars.getLast? = some quote → Ends l rest
  | token {kind : TokenKind} : l.role = .plain kind →
    (∀ c ∈ l.chars, isBlankInLine c = false ∧ c ≠ '\n') → Ends l rest
  | directive {text : List Char} : l.role = .directive text → (∀ c ∈ rest.head?, c = '\n') → Ends l rest

theorem isPlain_of_test (test : Char → Bool)
    (hTest : [' ', '\t', '\r', '\x0c', '\x0b', '\n'].any test = false) {c : Char}
    (h : test c = true) : isBlankInLine c = false ∧ c ≠ '\n' := by
  have hOther : c ∉ [' ', '\t', '\r', '\x0c', '\x0b', '\n'] := fun hMem =>
    List.any_eq_false.mp hTest c hMem h
  simpa [isBlankInLine, and_assoc] using hOther

theorem blockRestOnto?_cons (taken : List Char) (c : Char) (cs : List Char) :
    blockRestOnto? taken (c :: cs) =
      if c = '*' ∧ cs.head? = some '/' then some ('/' :: '*' :: taken)
      else blockRestOnto? (c :: taken) cs := by
  split
  · next hEnd =>
    obtain ⟨rfl, hSlash⟩ := hEnd
    obtain ⟨rest, rfl⟩ := List.head?_eq_some_iff.mp hSlash
    rfl
  · next hGoes =>
    rw [blockRestOnto?.eq_def]
    split
    · next hNone => cases hNone
    · next hEnd =>
      cases hEnd
      exact absurd ⟨rfl, rfl⟩ hGoes
    · next hCut =>
      cases hCut
      rfl

theorem blockRestOnto?_cut {taken cs result : List Char} (h : blockRestOnto? taken cs = some result) :
    ∃ body rest, result = body.reverse ++ taken ∧ cs = body ++ rest ∧
      body.getLast? = some '/' ∧ ∀ rest', blockRestOnto? taken (body ++ rest') = some result := by
  induction cs generalizing taken with
  | nil => cases h
  | cons c cs ih =>
    rw [blockRestOnto?_cons] at h
    split at h
    · next hEnd =>
      cases h
      obtain ⟨rfl, hSlash⟩ := hEnd
      obtain ⟨rest, rfl⟩ := List.head?_eq_some_iff.mp hSlash
      exact ⟨['*', '/'], rest, rfl, rfl, rfl, fun _ => rfl⟩
    · next hGoes =>
      obtain ⟨body, rest, rfl, rfl, hLast, hRead⟩ := ih h
      refine ⟨c :: body, rest, by simp, rfl, ?_, fun rest' => ?_⟩
      · rw [List.getLast?_cons, hLast]
        rfl
      · cases body with
        | nil => cases hLast
        | cons d body =>
          have hGoes' : ¬(c = '*' ∧ (d :: (body ++ rest')).head? = some '/') := hGoes
          rw [List.cons_append, List.cons_append, blockRestOnto?_cons, if_neg hGoes']
          exact hRead rest'

theorem blockRest?_cut {cs body : List Char} (h : blockRest? cs = some body) :
    ∃ rest, cs = body ++ rest ∧ body.getLast? = some '/' ∧
      ∀ rest', blockRest? (body ++ rest') = some body := by
  obtain ⟨reversed, hFound, rfl⟩ := Option.map_eq_some_iff.mp h
  obtain ⟨body, rest, rfl, rfl, hLast, hRead⟩ := blockRestOnto?_cut hFound
  rw [List.append_nil, List.reverse_reverse]
  refine ⟨rest, rfl, hLast, fun rest' => ?_⟩
  rw [blockRest?, hRead, Option.map_some, List.append_nil, List.reverse_reverse]

theorem literalRestOnto_cut {quote : Char} {taken cs result : List Char} {bytes : Nat}
    (h : literalRestOnto quote taken bytes cs = .ok result) :
    ∃ body rest, result = body.reverse ++ taken ∧ cs = body ++ rest ∧
      body.getLast? = some quote ∧ literalRestOnto quote taken bytes body = .ok result := by
  fun_induction literalRestOnto quote taken bytes cs with
  | case1 => cases h
  | case2 => cases h
  | case3 => cases h
  | case4 taken bytes c cs ih =>
    obtain ⟨body, rest, rfl, rfl, hLast, hRead⟩ := ih h
    refine ⟨'\\' :: c :: body, rest, by simp, rfl, ?_, by rw [literalRestOnto, hRead]⟩
    rw [List.getLast?_cons, List.getLast?_cons, hLast]
    rfl
  | case5 taken bytes cs hBreak hEnd hPair =>
    cases h
    refine ⟨[quote], cs, rfl, rfl, rfl, ?_⟩
    rw [literalRestOnto_cons hBreak (ne_backslash hEnd hPair), if_pos rfl]
  | case6 taken bytes c cs hBreak hEnd hPair hOther ih =>
    obtain ⟨body, rest, rfl, rfl, hLast, hRead⟩ := ih h
    refine ⟨c :: body, rest, by simp, rfl, ?_, ?_⟩
    · rw [List.getLast?_cons, hLast]
      rfl
    · rw [literalRestOnto_cons hBreak (ne_backslash hEnd hPair), if_neg hOther, hRead]

theorem literal_cut {mark cs : List Char} {quote : Char} {l : Lexeme}
    (h : literal mark quote cs = .ok l) :
    ∃ body rest, l.chars = mark ++ quote :: body ∧ cs = body ++ rest ∧
      (∃ kind, l.role = .plain kind) ∧ l.chars.getLast? = some quote ∧
      ∀ rest', literal mark quote (body ++ rest') = .ok l := by
  simp only [literal] at h
  split at h
  · next rest hRest =>
    obtain ⟨reversed, hFound, rfl⟩ := map_eq_ok
      (show (literalRestOnto quote [] (Text.byteLength mark + 1) cs).map List.reverse = .ok rest
        from hRest)
    obtain ⟨body, after, rfl, rfl, hLast, hRead⟩ := literalRestOnto_cut hFound
    cases h
    refine ⟨body, after, by simp, rfl, ⟨_, rfl⟩, ?_, fun rest' => literal_append ?_ rest'⟩
    · simp [List.getLast?_cons, hLast]
    · rw [literal, literalRest, hRead]
      rfl
  · cases h

theorem numberRest_cut (previous : Char) (cs : List Char) :
    ∃ part rest, numberRest previous cs = part ∧ cs = part ++ rest ∧
      ∀ rest', LooksLike rest rest' → numberRest previous (part ++ rest') = part := by
  fun_induction numberRest previous cs with
  | case1 previous =>
    refine ⟨[], [], rfl, rfl, fun rest' hLike => ?_⟩
    rw [hLike.eq_nil]
    rfl
  | case2 previous c cs isSign hPart ih =>
    obtain ⟨part, rest, hRest, rfl, hRead⟩ := ih
    refine ⟨c :: part, rest, by rw [hRest], rfl, fun rest' hLike => ?_⟩
    rw [List.cons_append, numberRest, if_pos hPart, hRead rest' hLike]
  | case3 previous c cs isSign hOther =>
    refine ⟨[], c :: cs, rfl, rfl, fun rest' hLike => ?_⟩
    obtain ⟨rest, rfl⟩ := List.head?_eq_some_iff.mp hLike.head
    rw [List.nil_append, numberRest, if_neg hOther]

theorem isNamePart_of_isQuote {quote : Char} (h : isQuote quote = true) : isNamePart quote = false := by
  simp only [isQuote, Bool.or_eq_true, beq_iff_eq] at h
  rcases h with rfl | rfl
  · decide
  · decide

theorem takeWhile_name {part rest : List Char} (hPart : ∀ c ∈ part, isNamePart c = true)
    (hRest : ∀ c ∈ rest.head?, isNamePart c = false) :
    (part ++ rest).takeWhile isNamePart = part ∧ (part ++ rest).dropWhile isNamePart = rest := by
  rw [List.takeWhile_append_of_pos hPart, List.dropWhile_append_of_pos hPart]
  cases rest with
  | nil => exact ⟨List.append_nil part, rfl⟩
  | cons c rest =>
    have hOther := hRest c rfl
    rw [List.takeWhile_cons_of_neg (by simp [hOther]), List.dropWhile_cons_of_neg (by simp [hOther])]
    exact ⟨List.append_nil part, rfl⟩

theorem word_cut {c : Char} {cs : List Char} {l : Lexeme} (hStart : isNameStart c = true)
    (h : word c cs = .ok l) : Cuts (word c) (.ok l) c l.chars cs ∧ ∀ rest, l.Ends rest := by
  have hCut : cs = cs.takeWhile isNamePart ++ cs.dropWhile isNamePart :=
    List.takeWhile_append_dropWhile.symm
  have hPart : ∀ d ∈ cs.takeWhile isNamePart, isNamePart d = true := fun d hd =>
    List.all_eq_true.mp List.all_takeWhile d hd
  have hHead : ∀ d ∈ (cs.dropWhile isNamePart).head?, isNamePart d = false := by
    intro d hd
    have hNot := List.head?_dropWhile_not isNamePart cs
    rw [Option.mem_def.mp hd] at hNot
    simpa using hNot
  generalize hName : cs.takeWhile isNamePart = name at hCut hPart
  generalize hAfter : cs.dropWhile isNamePart = after at hCut hHead
  simp only [word, hName, hAfter] at h
  have hName {d : Char} (hd : d ∈ c :: name) : isBlankInLine d = false ∧ d ≠ '\n' := by
    refine isPlain_of_test isNamePart (by decide) ?_
    rcases List.mem_cons.mp hd with rfl | hd
    · exact isNamePart_of_isNameStart hStart
    · exact hPart d hd
  have hWord {rest' : List Char} (hLike : LooksLike after rest') :
      (name ++ rest').takeWhile isNamePart = name ∧ (name ++ rest').dropWhile isNamePart = rest' :=
    takeWhile_name hPart (by rw [hLike.head]; exact hHead)
  cases after with
  | nil =>
    cases h
    refine ⟨⟨name, [], rfl, hCut, fun rest' hLike => ?_⟩, fun _ => .token rfl fun _ => hName⟩
    obtain ⟨hTake, hDrop⟩ := hWord hLike
    rw [hLike.eq_nil] at hTake hDrop ⊢
    simp only [word, hTake, hDrop]
  | cons quote rest =>
    simp only at h
    split at h
    · next hMark =>
      obtain ⟨body, rest, hChars, rfl, ⟨kind, hRole⟩, hLast, hRead⟩ := literal_cut h
      refine ⟨⟨name ++ quote :: body, rest, by rw [hChars]; rfl, by rw [hCut]; simp, fun rest' _ => ?_⟩,
        fun _ => .literal hRole (Bool.and_eq_true_iff.mp hMark).1 hLast⟩
      have hQuote := isNamePart_of_isQuote (Bool.and_eq_true_iff.mp hMark).1
      obtain ⟨hTake, hDrop⟩ := @takeWhile_name name (quote :: (body ++ rest')) hPart
        (by simpa using hQuote)
      rw [List.append_assoc, List.cons_append]
      simp only [word, hTake, hDrop, if_pos hMark]
      exact hRead rest'
    · next hMark =>
      cases h
      refine ⟨⟨name, quote :: rest, rfl, hCut, fun rest' hLike => ?_⟩, fun _ => .token rfl fun _ => hName⟩
      obtain ⟨hTake, hDrop⟩ := hWord hLike
      obtain ⟨rest', rfl⟩ := List.head?_eq_some_iff.mp hLike.head
      simp only [word, hTake, hDrop, if_neg hMark]

theorem isPrefixOf_looksLike {p : String} (hp : p ∈ longPunctuation) (c : Char)
    {cs cs' : List Char} (h : LooksLike cs cs') :
    p.toList.isPrefixOf (c :: cs') = p.toList.isPrefixOf (c :: cs) := by
  have hMarks : ∀ q ∈ longPunctuation, q.toList.length = 2 ∨ q.toList = ['.', '.', '.'] := by
    decide +kernel
  obtain ⟨hHead, hSecond⟩ := h
  rcases hMarks p hp with hTwo | hThree
  · obtain ⟨a, b, hChars⟩ : ∃ a b, p.toList = [a, b] := by
      match hList : p.toList with
      | [a, b] => exact ⟨a, b, rfl⟩
      | [] | [_] | _ :: _ :: _ :: _ => simp [hList] at hTwo
    rw [hChars]
    cases cs with
    | nil =>
      rw [List.head?_eq_none_iff.mp hHead]
    | cons d cs =>
      obtain ⟨cs', rfl⟩ := List.head?_eq_some_iff.mp hHead
      simp [List.isPrefixOf]
  · rw [hThree]
    cases cs with
    | nil =>
      rw [List.head?_eq_none_iff.mp hHead]
    | cons d cs =>
      obtain ⟨cs', rfl⟩ := List.head?_eq_some_iff.mp hHead
      by_cases hPoint : d = '.'
      · have hNext := hSecond (.inl (by rw [hPoint]; rfl))
        simp only [List.tail_cons] at hNext
        cases cs with
        | nil =>
          rw [List.head?_eq_none_iff.mp hNext]
        | cons e cs =>
          obtain ⟨cs', rfl⟩ := List.head?_eq_some_iff.mp hNext
          simp [List.isPrefixOf]
      · have hOther : ('.' == d) = false := beq_eq_false_iff_ne.mpr (Ne.symm hPoint)
        simp [List.isPrefixOf, hOther]

theorem punctuation_looksLike (c : Char) {cs cs' : List Char} (h : LooksLike cs cs') :
    punctuation c cs' = punctuation c cs := by
  simp only [punctuation]
  rw [List.find?_congr fun p hp => isPrefixOf_looksLike hp c h]

theorem isPlain_of_numberRest (previous : Char) (cs : List Char) :
    ∀ c ∈ numberRest previous cs, isBlankInLine c = false ∧ c ≠ '\n' := by
  fun_induction numberRest previous cs with
  | case1 => simp
  | case2 previous c cs isSign hPart ih =>
    intro d hd
    rcases List.mem_cons.mp hd with rfl | hd
    · exact isPlain_of_test (fun c => c.isAlphanum || c == '.' || c == '\'' ||
        ((c == '+' || c == '-') && ['e', 'E', 'p', 'P'].contains previous)) rfl hPart
    · exact ih d hd
  | case3 => simp

theorem isPlain_of_punctuation {c : Char} (hBlank : isBlankInLine c = false) (hBreak : c ≠ '\n')
    (cs : List Char) : ∀ d ∈ (punctuation c cs).chars, isBlankInLine d = false ∧ d ≠ '\n' := by
  intro d hd
  obtain ⟨-, -, hSingle | hLong⟩ := punctuation_eq c cs
  · rw [hSingle, List.mem_singleton] at hd
    rw [hd]
    exact ⟨hBlank, hBreak⟩
  · have hLongs : ∀ q ∈ longPunctuation,
        q.toList.all (fun c => !isBlankInLine c && c != '\n') = true := by decide +kernel
    have hPlain := hLongs _ hLong
    rw [String.toList_ofList] at hPlain
    simpa using List.all_eq_true.mp hPlain d hd

theorem token_cut {c : Char} {cs : List Char} {l : Lexeme} (hBlank : isBlankInLine c = false)
    (hBreak : c ≠ '\n') (h : token c cs = .ok l) :
    Cuts (token c) (.ok l) c l.chars cs ∧ ∀ rest, l.Ends rest := by
  unfold token at h
  split at h
  · next hStart =>
    obtain ⟨⟨part, rest, hChars, rfl, hRead⟩, hEnds⟩ := word_cut hStart h
    refine ⟨⟨part, rest, hChars, rfl, fun rest' hLike => ?_⟩, hEnds⟩
    rw [token, if_pos hStart]
    exact hRead rest' hLike
  · next hStart =>
    split at h
    · next hNumber =>
      cases h
      obtain ⟨part, rest, hRest, rfl, hRead⟩ := numberRest_cut c cs
      refine ⟨⟨part, rest, by rw [hRest], rfl, fun rest' hLike => ?_⟩, fun _ => .token rfl ?_⟩
      rotate_left
      · intro d hd
        rcases List.mem_cons.mp hd with rfl | hd
        · exact ⟨hBlank, hBreak⟩
        · exact isPlain_of_numberRest c _ d hd
      have hHead := (hLike.append part).head
      rw [token, if_neg hStart, hHead, if_pos hNumber, hRead rest' hLike, hRest]
    · next hNumber =>
      split at h
      · next hQuote =>
        obtain ⟨body, rest, hChars, rfl, ⟨kind, hRole⟩, hLast, hRead⟩ := literal_cut h
        refine ⟨⟨body, rest, hChars, rfl, fun rest' hLike => ?_⟩, fun _ => .literal hRole hQuote hLast⟩
        have hHead := (hLike.append body).head
        rw [token, if_neg hStart, hHead, if_neg hNumber, if_pos hQuote]
        exact hRead rest'
      · next hQuote =>
        cases h
        obtain ⟨part, rest, hChars, rfl⟩ := (punctuation_eq c cs).1
        refine ⟨⟨part, rest, hChars, rfl, fun rest' hLike => ?_⟩,
          fun _ => .token (punctuation_eq c _).2.1 (isPlain_of_punctuation hBlank hBreak _)⟩
        have hHead := (hLike.append part).head
        rw [token, if_neg hStart, hHead, if_neg hNumber, if_neg hQuote,
          punctuation_looksLike c (hLike.append part)]

theorem lineRest_append {part rest : List Char} (hPart : '\n' ∉ part)
    (hRest : ∀ c ∈ rest.head?, c = '\n') : lineRest (part ++ rest) = part := by
  have hAll : ∀ c ∈ part, decide (c ≠ '\n') = true := by
    intro c hc
    have hOther : c ≠ '\n' := by
      rintro rfl
      exact hPart hc
    simpa using hOther
  rw [lineRest, List.takeWhile_append_of_pos hAll]
  cases rest with
  | nil => exact List.append_nil part
  | cons c rest =>
    rw [hRest c rfl, List.takeWhile_cons_of_neg (by simp)]
    exact List.append_nil part

theorem lineRest_cut (cs : List Char) :
    ∃ rest, cs = lineRest cs ++ rest ∧ '\n' ∉ lineRest cs ∧ (∀ c ∈ rest.head?, c = '\n') ∧
      ∀ rest', LooksLike rest rest' → lineRest (lineRest cs ++ rest') = lineRest cs := by
  have hHead : ∀ c ∈ (cs.dropWhile (· ≠ '\n')).head?, c = '\n' := by
    intro c hc
    have hNot := List.head?_dropWhile_not (fun c => decide (c ≠ '\n')) cs
    rw [Option.mem_def.mp hc] at hNot
    simpa using hNot
  obtain ⟨_, -, hPart⟩ := exists_of_lineRest cs
  refine ⟨cs.dropWhile (· ≠ '\n'), (List.takeWhile_append_dropWhile).symm, hPart, hHead,
    fun rest' hLike => lineRest_append hPart ?_⟩
  rw [hLike.head]
  exact hHead

theorem fileNameRest_cut {close : Char} (hClose : close ≠ '\n') (cs : List Char) :
    ∃ part rest, fileNameRest close cs = part ∧ cs = part ++ rest ∧ '\n' ∉ part ∧
      ∀ rest', LooksLike rest rest' → fileNameRest close (part ++ rest') = part := by
  fun_induction fileNameRest close cs with
  | case1 =>
    refine ⟨[], [], rfl, rfl, by simp, fun rest' hLike => ?_⟩
    rw [hLike.eq_nil]
    rfl
  | case2 cs =>
    refine ⟨[], '\n' :: cs, rfl, rfl, by simp, fun rest' hLike => ?_⟩
    obtain ⟨rest, rfl⟩ := List.head?_eq_some_iff.mp hLike.head
    rw [List.nil_append, fileNameRest, if_pos rfl]
  | case3 cs hBreak =>
    refine ⟨[close], cs, rfl, rfl, by simpa using Ne.symm hClose, fun rest' _ => ?_⟩
    rw [List.singleton_append, fileNameRest, if_neg hBreak, if_pos rfl]
  | case4 c cs hBreak hOther ih =>
    obtain ⟨part, rest, hRest, rfl, hPart, hRead⟩ := ih
    refine ⟨c :: part, rest, by rw [hRest], rfl, by simp [hPart, Ne.symm hBreak], fun rest' hLike => ?_⟩
    rw [List.cons_append, fileNameRest, if_neg hBreak, if_neg hOther, hRead rest' hLike]

structure StartsPiece (c : Char) (cs : List Char) : Prop where
  not_joint : c = '\\' → cs.head? ≠ some '\n' ∧
    (cs.head? = some '\r' → cs.tail.head? ≠ some '\n')
  not_comment : c = '/' → cs.head? ≠ some '/' ∧ cs.head? ≠ some '*'

theorem directivePiece?_of_starts {c : Char} {cs : List Char} (h : StartsPiece c cs)
    (text : List Char) :
    directivePiece? text c cs =
      if (c = '"' || c = '<') && namesFile text then
        some ⟨c :: fileNameRest (if c = '"' then '"' else '>') cs,
          (c :: fileNameRest (if c = '"' then '"' else '>') cs).flatMap byteChars⟩
      else some ⟨[c], byteChars c⟩ := by
  unfold directivePiece?
  split
  · exact absurd rfl (h.not_joint rfl).1
  · exact absurd rfl ((h.not_joint rfl).2 rfl)
  · exact absurd rfl (h.not_comment rfl).1
  · exact absurd rfl (h.not_comment rfl).2
  · rfl

theorem StartsPiece.of_unlike {c : Char} {cs : List Char}
    (hJoint : ∀ rest, c = '\\' → cs = '\n' :: rest → False)
    (hReturn : ∀ rest, c = '\\' → cs = '\r' :: '\n' :: rest → False)
    (hLine : ∀ rest, c = '/' → cs = '/' :: rest → False)
    (hBlock : ∀ rest, c = '/' → cs = '*' :: rest → False) : StartsPiece c cs where
  not_joint := by
    intro hc
    refine ⟨fun hHead => ?_, fun hHead hNext => ?_⟩
    · obtain ⟨rest, hRest⟩ := List.head?_eq_some_iff.mp hHead
      exact hJoint rest hc hRest
    · obtain ⟨tail, rfl⟩ := List.head?_eq_some_iff.mp hHead
      obtain ⟨rest, hRest⟩ := List.head?_eq_some_iff.mp hNext
      rw [List.tail_cons] at hRest
      exact hReturn rest hc (by rw [hRest])
  not_comment := by
    intro hc
    refine ⟨fun hHead => ?_, fun hHead => ?_⟩
    · obtain ⟨rest, hRest⟩ := List.head?_eq_some_iff.mp hHead
      exact hLine rest hc hRest
    · obtain ⟨rest, hRest⟩ := List.head?_eq_some_iff.mp hHead
      exact hBlock rest hc hRest

theorem StartsPiece.looksLike {c : Char} {cs cs' : List Char} (h : StartsPiece c cs)
    (hLike : LooksLike cs cs') : StartsPiece c cs' where
  not_joint := by
    intro hc
    obtain ⟨hBreak, hReturn⟩ := h.not_joint hc
    rw [hLike.head]
    refine ⟨hBreak, fun hHead => ?_⟩
    rw [hLike.second (.inr hHead)]
    exact hReturn hHead
  not_comment := by
    rw [hLike.head]
    exact h.not_comment

/-- A piece of a directive line is read alike, and one that ends a line before every text. -/
theorem directivePiece?_cut {text cs : List Char} {c : Char} {piece : Piece} (hBreak : c ≠ '\n')
    (h : directivePiece? text c cs = some piece) :
    Cuts (directivePiece? text c) (some piece) c piece.chars cs ∧
      (piece.chars.getLast? = some '\n' → ∃ part rest, piece.chars = c :: part ∧ cs = part ++ rest ∧
        ∀ rest', directivePiece? text c (part ++ rest') = some piece) := by
  by_cases hStarts : StartsPiece c cs
  · rw [directivePiece?_of_starts hStarts] at h
    split at h
    · next hFile =>
      cases h
      have hClose : (if c = '"' then '"' else '>') ≠ '\n' := by split <;> decide
      obtain ⟨part, rest, hPart, rfl, hLine, hRead⟩ := fileNameRest_cut hClose cs
      rw [hPart]
      refine ⟨⟨part, rest, rfl, rfl, fun rest' hLike => ?_⟩, fun hLast => ?_⟩
      · rw [directivePiece?_of_starts (hStarts.looksLike (hLike.append part)), if_pos hFile,
          hRead rest' hLike]
      · have hMem := List.mem_of_getLast? hLast
        simp [hLine, Ne.symm hBreak] at hMem
    · next hFile =>
      cases h
      refine ⟨⟨[], cs, rfl, rfl, fun rest' hLike => ?_⟩, fun hLast => ?_⟩
      · rw [List.nil_append, directivePiece?_of_starts (hStarts.looksLike hLike), if_neg hFile]
      · simp only [List.getLast?_singleton, Option.some.injEq] at hLast
        exact absurd hLast hBreak
  · unfold directivePiece? at h
    split at h
    · next rest =>
      cases h
      exact ⟨⟨['\n'], rest, rfl, rfl, fun _ _ => rfl⟩, fun _ => ⟨['\n'], rest, rfl, rfl, fun _ => rfl⟩⟩
    · next rest =>
      cases h
      exact ⟨⟨['\r', '\n'], rest, rfl, rfl, fun _ _ => rfl⟩,
        fun _ => ⟨['\r', '\n'], rest, rfl, rfl, fun _ => rfl⟩⟩
    · next tail =>
      cases h
      obtain ⟨rest, hCut, hLine, -, hRead⟩ := lineRest_cut ('/' :: tail)
      have hSlash : lineRest ('/' :: tail) = '/' :: lineRest tail := rfl
      refine ⟨⟨lineRest ('/' :: tail), rest, rfl, hCut, fun rest' hLike => ?_⟩, fun hLast => ?_⟩
      · have hAgain := hRead rest' hLike
        rw [hSlash, List.cons_append] at hAgain ⊢
        rw [directivePiece?, hAgain]
      · have hMem := List.mem_of_getLast? hLast
        rw [List.mem_cons] at hMem
        rcases hMem with hMem | hMem
        · cases hMem
        · exact absurd hMem hLine
    · next tail =>
      obtain ⟨body, hBody, rfl⟩ := Option.map_eq_some_iff.mp h
      obtain ⟨rest, rfl, hLast, hRead⟩ := blockRest?_cut hBody
      refine ⟨⟨'*' :: body, rest, rfl, rfl, fun rest' _ => ?_⟩, fun hEnd => ?_⟩
      · rw [List.cons_append, directivePiece?, hRead]
        rfl
      · rw [List.getLast?_cons, List.getLast?_cons, hLast] at hEnd
        cases hEnd
    · next hJoint hReturn hLine hBlock =>
      exact absurd (.of_unlike hJoint hReturn hLine hBlock) hStarts

theorem directiveRestOnto_cons {text cs part rest : List Char} {c : Char} {piece : Piece}
    (hBreak : c ≠ '\n') (h : directivePiece? text c cs = some piece) (hChars : piece.chars = c :: part)
    (hCut : cs = part ++ rest) (taken : List Char) (offset : Nat) :
    directiveRestOnto taken text offset (c :: cs) =
      directiveRestOnto (piece.chars.reverse ++ taken) (text ++ piece.text)
        (offset + byteLength piece.chars) rest := by
  rw [directiveRestOnto, if_neg hBreak, h]
  simp only [hChars, List.length_cons, Nat.add_sub_cancel, hCut, List.drop_left]

theorem directiveRestOnto_cut {taken text cs : List Char} {offset : Nat}
    {result : List Char × List Char} (h : directiveRestOnto taken text offset cs = .ok result) :
    ∃ body rest, result.1 = body.reverse ++ taken ∧ cs = body ++ rest ∧
      (∀ c ∈ rest.head?, c = '\n') ∧
      (∀ rest', LooksLike rest rest' →
        directiveRestOnto taken text offset (body ++ rest') = .ok result) := by
  fun_induction directiveRestOnto taken text offset cs with
  | case1 taken text offset =>
    cases h
    refine ⟨[], [], rfl, rfl, by simp, fun rest' hLike => ?_⟩
    rw [hLike.eq_nil, List.append_nil, directiveRestOnto]
  | case2 taken text offset cs =>
    cases h
    refine ⟨[], '\n' :: cs, rfl, rfl, by simp, fun rest' hLike => ?_⟩
    obtain ⟨rest, rfl⟩ := List.head?_eq_some_iff.mp hLike.head
    rw [List.nil_append, directiveRestOnto, if_pos rfl]
  | case3 => cases h
  | case4 taken text offset c cs hBreak piece hPiece ih =>
    obtain ⟨part, after, hChars, rfl, hRead⟩ := (directivePiece?_cut hBreak hPiece).1
    obtain ⟨body, rest, hResult, hRest, hHead, hLater⟩ := ih h
    rw [hChars, List.length_cons, Nat.add_sub_cancel, List.drop_left] at hRest
    subst hRest
    refine ⟨c :: part ++ body, rest, ?_, by simp, hHead, fun rest' hLike => ?_⟩
    · rw [hResult, hChars, List.reverse_append, List.append_assoc]
    · rw [List.append_assoc, List.cons_append, directiveRestOnto_cons hBreak
        (hRead _ (hLike.append body)) hChars rfl]
      exact hLater rest' hLike

theorem looksLike_of_break {cs : List Char} (h : cs.getLast? = some '\n') (more : List Char) :
    LooksLike cs (cs ++ more) := by
  obtain ⟨body, rfl⟩ := List.getLast?_eq_some_iff.mp h
  rw [List.append_assoc, List.singleton_append]
  exact (LooksLike.of_cons (by decide) (by decide) [] more).append body

theorem directiveRestOnto_comment (taken text more : List Char) (offset : Nat) :
    directiveRestOnto taken text offset ('/' :: '/' :: more) =
      .ok ((lineRest ('/' :: '/' :: more)).reverse ++ taken, text) := by
  obtain ⟨rest, hCut, -, hHead, -⟩ := lineRest_cut ('/' :: more)
  have hPiece : directivePiece? text '/' ('/' :: more) = some ⟨'/' :: lineRest ('/' :: more), []⟩ := rfl
  have hEnd {taken text : List Char} {offset : Nat} :
      directiveRestOnto taken text offset rest = .ok (taken, text) := by
    cases rest with
    | nil => rw [directiveRestOnto]
    | cons c rest => rw [directiveRestOnto, if_pos (hHead c rfl)]
  rw [directiveRestOnto_cons (by decide) hPiece rfl hCut, hEnd, List.append_nil]
  rfl

theorem directiveRestOnto_before_comment {taken text cs text' : List Char} {offset : Nat}
    (h : directiveRestOnto taken text offset cs = .ok (cs.reverse ++ taken, text'))
    (hLast : cs.getLast? = some '\n') (more : List Char) :
    directiveRestOnto taken text offset (cs ++ '/' :: '/' :: more) =
      .ok ((cs ++ lineRest ('/' :: '/' :: more)).reverse ++ taken, text') := by
  fun_induction directiveRestOnto taken text offset cs with
  | case1 => cases hLast
  | case2 taken text offset cs =>
    have hLength := congrArg List.length (congrArg Prod.fst (Except.ok.inj h))
    simp only [List.length_append, List.length_reverse, List.length_cons] at hLength
    omega
  | case3 => cases h
  | case4 taken text offset c cs hBreak piece hPiece ih =>
    obtain ⟨⟨part, after, hChars, rfl, hRead⟩, hEnds⟩ := directivePiece?_cut hBreak hPiece
    rw [hChars, List.length_cons, Nat.add_sub_cancel, List.drop_left] at h ih
    have hTaken {part' : List Char} :
        (c :: (part ++ part')).reverse ++ taken = part'.reverse ++ ((c :: part).reverse ++ taken) := by
      simp
    rw [hTaken] at h
    rw [List.cons_append, List.append_assoc, List.cons_append, List.append_assoc, hTaken]
    cases after with
    | nil =>
      rw [List.append_nil] at hLast
      rw [← hChars] at hLast
      obtain ⟨part', rest, hChars', hCut, hBefore⟩ := hEnds hLast
      obtain ⟨-, rfl⟩ := List.cons.inj (hChars.symm.trans hChars')
      rw [directiveRestOnto] at h
      cases h
      rw [List.nil_append, directiveRestOnto_cons hBreak (hBefore _) hChars rfl,
        directiveRestOnto_comment, hChars, List.nil_append]
    | cons d after =>
      rw [← List.cons_append, List.getLast?_append, List.getLast?_cons, Option.some_or,
        ← List.getLast?_cons] at hLast
      rw [directiveRestOnto_cons hBreak (hRead _ (looksLike_of_break hLast _)) hChars rfl, hChars]
      exact ih h hLast

theorem directiveLine_cut {cs : List Char} {l : Lexeme} (h : directiveLine cs = .ok l) :
    ∃ part rest, l.chars = '#' :: part ∧ cs = part ++ rest ∧ (∀ c ∈ rest.head?, c = '\n') ∧
      (∃ text, l.role = .directive text) ∧
      ∀ rest', LooksLike rest rest' → directiveLine (part ++ rest') = .ok l := by
  unfold directiveLine at h
  split at h
  · next taken text hFound =>
    cases h
    obtain ⟨body, rest, hTaken, rfl, hHead, hRead⟩ := directiveRestOnto_cut hFound
    simp only at hTaken
    refine ⟨body, rest, by simp [hTaken], rfl, hHead, ⟨_, rfl⟩, fun rest' hLike => ?_⟩
    rw [directiveLine, hRead rest' hLike]
  · cases h

theorem next_of_starts {c : Char} {cs : List Char} (h : StartsToken c cs) (atLineStart : Bool) :
    next atLineStart c cs = if c = '#' && atLineStart then directiveLine cs else token c cs := by
  unfold next
  split
  · exact absurd rfl h.not_break
  · exact absurd rfl (h.not_joint rfl)
  · exact absurd rfl (h.not_comment rfl).1
  · exact absurd rfl (h.not_comment rfl).2
  · rw [if_neg (by rw [h.not_blank]; exact Bool.false_ne_true)]

theorem next_blank {c : Char} (h : isBlankInLine c = true) (atLineStart : Bool) (cs : List Char) :
    next atLineStart c cs = .ok ⟨.blank, [c]⟩ := by
  unfold next
  split
  · exact absurd h (by decide)
  · exact absurd h (by decide)
  · exact absurd h (by decide)
  · exact absurd h (by decide)
  · rw [if_pos h]

theorem StartsToken.looksLike {c : Char} {cs cs' : List Char} (h : StartsToken c cs)
    (hLike : LooksLike cs cs') : StartsToken c cs' where
  not_break := h.not_break
  not_blank := h.not_blank
  not_joint := by
    rw [hLike.head]
    exact h.not_joint
  not_comment := by
    rw [hLike.head]
    exact h.not_comment

theorem next_name {c : Char} (h : isNameStart c = true) {atLineStart : Bool} {cs : List Char} :
    next atLineStart c cs = word c cs := by
  have hNot {d : Char} (hd : isNameStart d = false) : c ≠ d := by
    rintro rfl
    rw [hd] at h
    cases h
  have hStarts : StartsToken c cs := by
    refine ⟨hNot (by decide), ?_, fun hc => absurd hc (hNot (by decide)),
      fun hc => absurd hc (hNot (by decide))⟩
    exact (isPlain_of_test isNameStart (by decide) h).1
  rw [next_of_starts hStarts, if_neg (by simp [hNot (d := '#') (by decide)]), token, if_pos h]

theorem StartsToken.of_unlike {c : Char} {cs : List Char} (hBreak : c ≠ '\n')
    (hJoint : ∀ rest, c = '\\' → cs = '\n' :: rest → False)
    (hLine : ∀ rest, c = '/' → cs = '/' :: rest → False)
    (hBlock : ∀ rest, c = '/' → cs = '*' :: rest → False) (hBlank : ¬isBlankInLine c = true) :
    StartsToken c cs where
  not_break := hBreak
  not_blank := Bool.eq_false_iff.mpr hBlank
  not_joint := by
    intro hc hHead
    obtain ⟨rest, hRest⟩ := List.head?_eq_some_iff.mp hHead
    exact hJoint rest hc hRest
  not_comment := by
    intro hc
    refine ⟨fun hHead => ?_, fun hHead => ?_⟩
    · obtain ⟨rest, hRest⟩ := List.head?_eq_some_iff.mp hHead
      exact hLine rest hc hRest
    · obtain ⟨rest, hRest⟩ := List.head?_eq_some_iff.mp hHead
      exact hBlock rest hc hRest

theorem next_cut {atLineStart : Bool} {c : Char} {cs : List Char} {l : Lexeme}
    (h : next atLineStart c cs = .ok l) :
    ∃ part rest, l.chars = c :: part ∧ cs = part ++ rest ∧ l.Ends rest ∧
      ∀ rest', LooksLike rest rest' → next atLineStart c (part ++ rest') = .ok l := by
  by_cases hStarts : StartsToken c cs
  · rw [next_of_starts hStarts] at h
    split at h
    · next hHash =>
      obtain ⟨part, rest, hChars, rfl, hHead, ⟨text, hRole⟩, hRead⟩ := directiveLine_cut h
      have hMark : c = '#' := by
        rw [Bool.and_eq_true, decide_eq_true_eq] at hHash
        exact hHash.1
      refine ⟨part, rest, by rw [hChars, hMark], rfl, .directive hRole hHead, fun rest' hLike => ?_⟩
      rw [next_of_starts (hStarts.looksLike (hLike.append part)), if_pos hHash]
      exact hRead rest' hLike
    · next hHash =>
      obtain ⟨⟨part, rest, hChars, rfl, hRead⟩, hEnds⟩ := token_cut hStarts.not_blank hStarts.not_break h
      refine ⟨part, rest, hChars, rfl, hEnds rest, fun rest' hLike => ?_⟩
      rw [next_of_starts (hStarts.looksLike (hLike.append part)), if_neg hHash]
      exact hRead rest' hLike
  · unfold next at h
    split at h
    · cases h
      exact ⟨[], cs, rfl, rfl, .newline rfl, fun _ _ => rfl⟩
    · next rest =>
      cases h
      exact ⟨['\n'], rest, rfl, rfl, .joint rfl, fun _ _ => rfl⟩
    · next tail =>
      cases h
      obtain ⟨rest, hCut, hLine, hHead, hRead⟩ := lineRest_cut ('/' :: tail)
      have hSlash : lineRest ('/' :: tail) = '/' :: lineRest tail := rfl
      refine ⟨lineRest ('/' :: tail), rest, rfl, hCut, .line rfl ?_ hHead, fun rest' hLike => ?_⟩
      · rw [List.mem_cons, not_or]
        exact ⟨by decide, hLine⟩
      · have hAgain := hRead rest' hLike
        rw [hSlash, List.cons_append] at hAgain ⊢
        rw [next, hAgain]
    · next tail =>
      split at h
      · next body hBody =>
        cases h
        obtain ⟨rest, rfl, hLast, hRead⟩ := blockRest?_cut hBody
        refine ⟨'*' :: body, rest, rfl, rfl, .block rfl ?_, fun rest' _ => ?_⟩
        · rw [List.getLast?_cons, List.getLast?_cons, hLast]
          rfl
        · rw [List.cons_append, next, hRead]
      · cases h
    · next hBreak hJoint hLine hBlock =>
      split at h
      · next hBlank =>
        cases h
        exact ⟨[], cs, rfl, rfl, .blank hBlank rfl, fun rest' _ => next_blank hBlank _ _⟩
      · next hBlank =>
        exact absurd (.of_unlike hBreak hJoint hLine hBlock hBlank) hStarts

end Lexeme

end SkeletonWeave
