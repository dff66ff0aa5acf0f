import SkeletonWeave.Proofs.Declaration.Types

/-!
# Reading types that are written

The type that is read of the words of a tree is the one that the tree denotes:
the marks outside of angle brackets are told from the base, and the arguments
are read as types again.
-/

set_option autoImplicit false

namespace SkeletonWeave

namespace TypeExpr

open Grammar

def markTexts : List String :=
  ["<", ">", "const", "volatile", "*", "&", "&&"] ++ Words.elaborating

theorem separate_plain {t : Token} (h : t.text ∉ markTexts) (marks : Marks) (base ts : List Token) :
    separate 0 marks base (t :: ts) = separate 0 marks (t :: base) ts := by
  have hText : ∀ text ∈ markTexts, t.text ≠ text := by
    rintro text hMem rfl
    exact h hMem
  have hPunctuation : ∀ text ∈ markTexts, t.isPunctuation text = false :=
    fun text hMem => Token.isPunctuation_of_ne (hText text hMem)
  have hIdentifier : ∀ text ∈ markTexts, t.isIdentifier text = false :=
    fun text hMem => Token.isIdentifier_of_ne (hText text hMem)
  have hElaborating : t.isOneOf Words.elaborating = false := by
    apply Token.isOneOf_of_notMem
    intro hMem
    exact h (List.mem_append_right _ hMem)
  simp (disch := decide) [separate, hPunctuation, hIdentifier, hElaborating]

theorem separate_path {p : Path} {ts : List Token} (hWords : ts.map Token.word = p.words)
    (marks : Marks) (base rest : List Token) :
    separate 0 marks base (ts ++ rest) = separate 0 marks (ts.reverse ++ base) rest := by
  have hPlain : ∀ t ∈ ts, t.text ∉ markTexts := by
    intro t ht hMem
    have hWord : t.word ∈ p.words := Token.word_mem hWords ht
    have hNone : ∀ text ∈ markTexts, isName text = false ∧ text ≠ "::" := by decide
    rcases p.isBase hWord with ⟨n, hName⟩ | hMark
    · exact n.text_ne (hNone _ hMem).1 (congrArg Word.text hName).symm
    · exact (hNone _ hMem).2 (congrArg Word.text hMark)
  clear hWords
  induction ts generalizing base with
  | nil => rfl
  | cons t ts ih =>
    obtain ⟨hFirst, hRest⟩ := List.forall_mem_cons.mp hPlain
    rw [List.cons_append, separate_plain hFirst, ih _ hRest]
    simp

theorem separate_base {b : BaseSyntax} {ts : List Token} (hWords : ts.map Token.word = b.words)
    (marks : Marks) (base rest : List Token) :
    separate 0 marks base (ts ++ rest) = separate 0 marks (ts.reverse ++ base) rest := by
  cases b with
  | builtin w =>
    obtain ⟨t, rfl, hWord⟩ := List.map_eq_singleton_iff.mp hWords
    have hNone : ∀ text ∈ Words.builtin, text ∉ markTexts := by decide
    have hPlain : t.text ∉ markTexts := by
      rw [show t.text = w from congrArg Word.text hWord]
      exact hNone w w.property
    exact separate_plain hPlain marks base rest
  | named path => exact separate_path hWords marks base rest
  | applied path arguments =>
    obtain ⟨front, ts, rfl, hPath, hWords⟩ := List.map_eq_append_iff.mp hWords
    obtain ⟨opener, ts, rfl, hOpen, hWords⟩ := List.map_eq_cons_iff.mp hWords
    obtain ⟨inside, ts, rfl, hInside, hWords⟩ := List.map_eq_append_iff.mp hWords
    obtain ⟨close, rfl, hClose⟩ := List.map_eq_singleton_iff.mp hWords
    have hAngled : Angled true (separated (argumentWords arguments)) := by
      apply Angled.separated
      intro ws hPart
      rw [argumentWords_eq] at hPart
      obtain ⟨a, -, rfl⟩ := List.mem_map.mp hPart
      exact a.angled
    have hStart : separate 0 marks (front.reverse ++ base) (opener :: (inside ++ close :: rest)) =
        separate 1 marks (opener :: (front.reverse ++ base)) (inside ++ close :: rest) := by
      simp [separate, Token.isPunctuation_of_word hOpen]
    have hPass := (passesAngled_separate marks).pass hAngled hInside 0 (fun _ => .inl rfl)
      (opener :: (front.reverse ++ base)) (close :: rest)
    rw [List.append_assoc, separate_path hPath]
    simp only [List.cons_append, List.append_assoc, List.nil_append]
    rw [hStart, hPass]
    simp [separate, Token.isPunctuation_of_word hClose]

theorem separate_pointers {n : Nat} {ts : List Token}
    (hWords : ts.map Token.word = List.replicate n (mark "*")) {marks : Marks}
    (hDepth : marks.pointerDepth + n ≤ maxPointerDepth) (base rest : List Token) :
    separate 0 marks base (ts ++ rest) =
      separate 0 { marks with pointerDepth := marks.pointerDepth + n } base rest := by
  induction n generalizing ts marks with
  | zero =>
    obtain rfl := List.map_eq_nil_iff.mp hWords
    rfl
  | succ n ih =>
    obtain ⟨t, ts, rfl, hStar, hWords⟩ := List.map_eq_cons_iff.mp hWords
    have hKind : t.kind ≠ .identifier := by
      rw [show t.kind = .punctuation from congrArg Word.kind hStar]
      decide
    have hNext : separate 0 marks base (t :: (ts ++ rest)) =
        separate 0 { marks with pointerDepth := marks.pointerDepth + 1 } base (ts ++ rest) := by
      have hMin : min (marks.pointerDepth + 1) maxPointerDepth = marks.pointerDepth + 1 := by omega
      simp [separate, Token.isPunctuation_of_word hStar, Token.isIdentifier, hKind, hMin]
    rw [List.cons_append, hNext, ih hWords (by simp only; omega)]
    simp only [Nat.add_assoc, Nat.add_comm 1 n]

theorem separate_words {isConst : Bool} {b : BaseSyntax} {pointers : Fin 255} {isReference : Bool}
    {ts : List Token}
    (hWords : ts.map Token.word = (TypeSyntax.mk isConst b pointers isReference).words) :
    ∃ base, base.map Token.word = b.words ∧
      separate 0 ⟨false, 0, false⟩ [] ts = (⟨isConst, pointers, isReference⟩, base) := by
  obtain ⟨ts, last, rfl, hWords, hReference⟩ := List.map_eq_append_iff.mp hWords
  obtain ⟨ts, stars, rfl, hWords, hPointers⟩ := List.map_eq_append_iff.mp hWords
  obtain ⟨first, base, rfl, hConst, hBase⟩ := List.map_eq_append_iff.mp hWords
  refine ⟨base, hBase, ?_⟩
  have hFirst (rest : List Token) : separate 0 ⟨false, 0, false⟩ [] (first ++ rest) =
      separate 0 ⟨isConst, 0, false⟩ [] rest := by
    cases isConst with
    | false =>
      obtain rfl := List.map_eq_nil_iff.mp hConst
      rfl
    | true =>
      obtain ⟨t, rfl, hWord⟩ := List.map_eq_singleton_iff.mp hConst
      obtain ⟨hKind, hText⟩ := Word.mk.inj hWord
      simp [separate, Token.isPunctuation, Token.isIdentifier, hKind, hText]
  have hLast (rest : List Token) (marks : Marks) (hNone : marks.isReference = false) :
      separate 0 marks rest last = ({ marks with isReference := isReference }, rest.reverse) := by
    cases isReference with
    | false =>
      obtain rfl := List.map_eq_nil_iff.mp hReference
      rw [separate, ← hNone]
    | true =>
      obtain ⟨t, rfl, hWord⟩ := List.map_eq_singleton_iff.mp hReference
      obtain ⟨hKind, hText⟩ := Word.mk.inj hWord
      simp [separate, Token.isPunctuation, Token.isIdentifier, hKind, hText]
  have hDepth : 0 + (pointers : Nat) ≤ maxPointerDepth := by
    have := pointers.isLt
    rw [maxPointerDepth]
    omega
  rw [List.append_assoc, List.append_assoc, hFirst, separate_base hBase,
    separate_pointers hPointers hDepth, hLast _ _ rfl]
  simp

theorem splitAtCommas_parts {parts : List (List Word)} (hAngled : ∀ ws ∈ parts, Angled false ws)
    (hParts : ∀ ws ∈ parts, ws ≠ []) {ts : List Token}
    (hWords : ts.map Token.word = separated parts) :
    ((Token.splitAtCommas ts).filter fun part => !part.isEmpty).map (·.map Token.word) = parts := by
  by_cases hNone : parts = []
  · subst hNone
    obtain rfl := List.map_eq_nil_iff.mp hWords
    rfl
  · have hSplit := Token.splitAtCommas_separated hAngled hNone hWords
    rw [List.filter_eq_self.mpr, hSplit]
    intro part hPart
    have hMem : part.map Token.word ∈ parts := by
      rw [← hSplit]
      exact List.mem_map_of_mem hPart
    cases part with
    | nil => exact absurd rfl (hParts _ hMem)
    | cons t part => rfl

theorem dropWhile_path {p : Path} {ts : List Token} (hWords : ts.map Token.word = p.words)
    (rest : List Token) :
    (ts ++ rest).dropWhile (fun t => !t.isPunctuation "<") =
      rest.dropWhile fun t => !t.isPunctuation "<" := by
  apply List.dropWhile_append_of_pos
  intro t ht
  have hWord : t.word ∈ p.words := Token.word_mem hWords ht
  have hNone : t.text ≠ "<" := by
    rcases p.isBase hWord with ⟨n, hName⟩ | hMark
    · rw [show t.text = n.text from congrArg Word.text hName]
      exact n.text_ne (by decide)
    · rw [show t.text = "::" from congrArg Word.text hMark]
      decide
  rw [Token.isPunctuation_of_ne hNone]
  rfl

theorem argumentParts_base {b : BaseSyntax} {base : List Token}
    (hWords : base.map Token.word = b.words) :
    (argumentParts base).map (·.map Token.word) = b.parameters.map TypeSyntax.words := by
  cases b with
  | builtin w =>
    obtain ⟨t, rfl, hWord⟩ := List.map_eq_singleton_iff.mp hWords
    have hKind : t.kind ≠ .punctuation := by
      rw [show t.kind = .identifier from congrArg Word.kind hWord]
      decide
    simp [argumentParts, Token.isPunctuation_of_kind hKind, BaseSyntax.parameters]
  | named path =>
    have hDrop := dropWhile_path hWords []
    rw [List.append_nil, List.dropWhile_nil] at hDrop
    rw [argumentParts, hDrop]
    rfl
  | applied path arguments =>
    obtain ⟨front, ts, rfl, hPath, hWords⟩ := List.map_eq_append_iff.mp hWords
    obtain ⟨opener, ts, rfl, hOpen, hWords⟩ := List.map_eq_cons_iff.mp hWords
    obtain ⟨inside, ts, rfl, hInside, hWords⟩ := List.map_eq_append_iff.mp hWords
    obtain ⟨close, rfl, hClose⟩ := List.map_eq_singleton_iff.mp hWords
    rw [argumentWords_eq] at hInside
    have hAngled : ∀ ws ∈ arguments.map TypeSyntax.words, Angled false ws := by
      intro ws hPart
      obtain ⟨a, -, rfl⟩ := List.mem_map.mp hPart
      exact a.angled
    have hParts : ∀ ws ∈ arguments.map TypeSyntax.words, ws ≠ [] := by
      rintro ws hPart rfl
      obtain ⟨a, -, hNil⟩ := List.mem_map.mp hPart
      obtain ⟨w, ws, hWords, -⟩ := a.exists_words_eq_cons
      rw [hWords] at hNil
      cases hNil
    have hDrop : (front ++ opener :: (inside ++ [close])).dropWhile
        (fun t => !t.isPunctuation "<") = opener :: (inside ++ [close]) := by
      rw [dropWhile_path hPath, List.dropWhile_cons_of_neg]
      simp [Token.isPunctuation_of_word hOpen]
    rw [argumentParts, hDrop]
    simp only [Token.closeGroup?_angled (.separated hAngled) hInside hClose []]
    exact splitAtCommas_parts hAngled hParts hInside

theorem map_eq_of_words {α β : Type} {words : α → List Word} {parts : List (List Token)}
    {as : List α} (hWords : parts.map (·.map Token.word) = as.map words)
    {read : List Token → β} {meaning : α → β}
    (h : ∀ a ∈ as, ∀ part, part.map Token.word = words a → read part = meaning a) :
    parts.map read = as.map meaning := by
  induction as generalizing parts with
  | nil =>
    obtain rfl := List.map_eq_nil_iff.mp hWords
    rfl
  | cons a as ih =>
    obtain ⟨hFirst, hRest⟩ := List.forall_mem_cons.mp h
    obtain ⟨part, parts, rfl, hPart, hWords⟩ := List.map_eq_cons_iff.mp hWords
    rw [List.map_cons, List.map_cons, hFirst part hPart, ih hWords hRest]

theorem filterMap_eq_of_words {α β : Type} {words : α → List Word} {parts : List (List Token)}
    {as : List α} (hWords : parts.map (·.map Token.word) = as.map words)
    {read : List Token → Option β} {meaning : α → β}
    (h : ∀ a ∈ as, ∀ part, part.map Token.word = words a → read part = some (meaning a)) :
    parts.filterMap read = as.map meaning := by
  have hRead : parts.map read = as.map fun a => some (meaning a) := map_eq_of_words hWords h
  have hMap : parts.filterMap read = (parts.map read).filterMap id := by
    rw [List.filterMap_map]
    rfl
  rw [hMap, hRead, List.filterMap_map]
  exact congrFun List.filterMap_eq_map as

theorem ofTokensWithin_words (t : TypeSyntax) {levels : Nat} {ts : List Token}
    (hWords : ts.map Token.word = t.words) (hLevels : ts.length ≤ levels) :
    ofTokensWithin levels ts = t.denotes := by
  induction t using TypeSyntax.induction generalizing levels ts with
  | step isConst b pointers isReference ih =>
    have hLength : (TypeSyntax.mk isConst b pointers isReference).words.length ≤ levels := by
      rw [← hWords, List.length_map]
      exact hLevels
    obtain ⟨w, ws, hCons, -⟩ := TypeSyntax.exists_words_eq_cons (.mk isConst b pointers isReference)
    obtain ⟨levels, rfl⟩ : ∃ n, levels = n + 1 := by
      apply Nat.exists_eq_succ_of_ne_zero
      rintro rfl
      rw [hCons] at hLength
      cases hLength
    obtain ⟨base, hBase, hSeparate⟩ := separate_words hWords
    -- One level is spent here, and each argument has fewer tokens than the whole type.
    have hArguments : (argumentParts base).map (ofTokensWithin levels) =
        b.parameters.map TypeSyntax.denotes := by
      apply map_eq_of_words (argumentParts_base hBase)
      intro a ha part hPart
      apply ih a ha hPart
      have hLess := TypeSyntax.length_parameter_lt isConst pointers isReference ha
      rw [← List.length_map Token.word, hPart]
      omega
    have hDenotes : b.arguments = b.parameters.map TypeSyntax.denotes := by
      cases b with
      | builtin w => rfl
      | named path => rfl
      | applied path arguments => exact argumentTypes_eq arguments
    rw [ofTokensWithin, hSeparate]
    simp only [hArguments, TypeSyntax.denotes, hDenotes,
      (BaseSyntax.spelled fun a _ => a.spelled).spell_eq hBase,
      (TypeSyntax.spelled _).spell_eq hWords]

theorem ofTokens_words {t : TypeSyntax} {ts : List Token} (hWords : ts.map Token.word = t.words) :
    ofTokens ts = t.denotes :=
  ofTokensWithin_words t hWords (Nat.le_refl _)

end TypeExpr

end SkeletonWeave
