import SkeletonWeave.Proofs.Declaration.Grammar

/-!
# Angle brackets that pair up

The angle brackets of a type pair up, and its commas stand between them only.
So every reader that counts open angle brackets passes over a type as a whole,
and parts that are written with commas between them are split into the parts.
-/

set_option autoImplicit false

namespace SkeletonWeave

namespace Grammar

def typeMarks : List String :=
  ["::", "<", ">", ",", "*", "&"]

inductive IsTypeWord : Word → Prop
  | const : IsTypeWord (word "const")
  | builtin {w : String} (h : w ∈ Words.builtin) : IsTypeWord (word w)
  | name (n : Name) : IsTypeWord n.word
  | mark {m : String} (h : m ∈ typeMarks) : IsTypeWord (mark m)

def isForeign (text : String) : Bool :=
  !isName text && text != "const" && !Words.builtin.contains text && !typeMarks.contains text

theorem Name.text_ne (n : Name) {text : String} (h : Grammar.isName text = false) : n.text ≠ text := by
  rintro rfl
  rw [n.isName] at h
  cases h

theorem IsTypeWord.text_ne {w : Word} (h : IsTypeWord w) {text : String}
    (hForeign : isForeign text = true) : w.text ≠ text := by
  simp only [isForeign, Bool.and_eq_true, Bool.not_eq_true', bne_iff_ne, List.contains_eq_mem,
    decide_eq_false_iff_not] at hForeign
  obtain ⟨⟨⟨hName, hConst⟩, hBuiltin⟩, hMark⟩ := hForeign
  cases h with
  | const => exact hConst.symm
  | builtin hWord =>
    rintro rfl
    exact hBuiltin hWord
  | name n => exact n.text_ne hName
  | mark hWord =>
    rintro rfl
    exact hMark hWord

end Grammar

namespace Token

open Grammar

theorem isPunctuation_of_word {t : Token} {m : String} (h : t.word = mark m) (text : String) :
    t.isPunctuation text = (m == text) := by
  obtain ⟨hKind, hText⟩ := Word.mk.inj h
  simp [isPunctuation, hKind, hText]

theorem isPunctuation_iff {t : Token} {text : String} :
    t.isPunctuation text = true ↔ t.word = mark text := by
  constructor
  · intro h
    rw [isPunctuation, Bool.and_eq_true, beq_iff_eq, beq_iff_eq] at h
    rw [word, h.1, h.2]
    rfl
  · intro h
    rw [isPunctuation_of_word h, beq_self_eq_true]

theorem isPunctuation_of_kind {t : Token} (h : t.kind ≠ .punctuation) (text : String) :
    t.isPunctuation text = false := by
  simp [isPunctuation, h]

theorem isPunctuation_of_ne {t : Token} {text : String} (h : t.text ≠ text) :
    t.isPunctuation text = false := by
  simp [isPunctuation, h]

theorem isIdentifier_of_ne {t : Token} {text : String} (h : t.text ≠ text) :
    t.isIdentifier text = false := by
  simp [isIdentifier, h]

theorem isOneOf_of_notMem {t : Token} {words : List String} (h : t.text ∉ words) :
    t.isOneOf words = false := by
  simp [isOneOf, h]

end Token

namespace Grammar

def delimiters : List String :=
  ["(", ")", "[", "]", "\x7b", "\x7d", "<", ">", ","]

/-- Words in which angle brackets pair up and no other delimiter stands. Unless `commas`, a comma
stands between angle brackets only. -/
inductive Angled : Bool → List Word → Prop
  | nil {commas : Bool} : Angled commas []
  | plain {commas : Bool} {w : Word} {ws : List Word} (hWord : w.text ∉ delimiters)
      (h : Angled commas ws) : Angled commas (w :: ws)
  | comma {ws : List Word} (h : Angled true ws) : Angled true (mark "," :: ws)
  | group {commas : Bool} {inside ws : List Word} (hInside : Angled true inside)
      (h : Angled commas ws) : Angled commas (mark "<" :: (inside ++ mark ">" :: ws))

namespace Angled

theorem append {commas : Bool} {ws vs : List Word} (h : Angled commas ws) (h' : Angled commas vs) :
    Angled commas (ws ++ vs) := by
  induction h with
  | nil => exact h'
  | plain hWord _ ih => exact plain hWord (ih h')
  | comma _ ih => exact comma (ih h')
  | group hInside _ _ ih =>
    rw [List.cons_append, List.append_assoc, List.cons_append]
    exact group hInside (ih h')

theorem of_plain {commas : Bool} {ws : List Word} (h : ∀ w ∈ ws, w.text ∉ delimiters) :
    Angled commas ws := by
  induction ws with
  | nil => exact nil
  | cons w ws ih =>
    obtain ⟨hWord, hRest⟩ := List.forall_mem_cons.mp h
    exact plain hWord (ih hRest)

theorem weaken {commas : Bool} {ws : List Word} (h : Angled commas ws) : Angled true ws := by
  induction h with
  | nil => exact nil
  | plain hWord _ ih => exact plain hWord ih
  | comma _ ih => exact comma ih
  | group hInside _ _ ih => exact group hInside ih

theorem separated {parts : List (List Word)} (h : ∀ ws ∈ parts, Angled false ws) :
    Angled true (separated parts) := by
  induction parts with
  | nil => exact nil
  | cons ws parts ih =>
    obtain ⟨hFirst, hRest⟩ := List.forall_mem_cons.mp h
    cases parts with
    | nil => simpa [Grammar.separated] using hFirst.weaken
    | cons vs parts =>
      have hLater : Angled true (mark "," :: Grammar.separated (vs :: parts)) := comma (ih hRest)
      simpa [Grammar.separated] using hFirst.weaken.append hLater

end Angled

/-- Whether a reader that counts the open angle brackets only moves the tokens of a type from what
it has not read to what it has. Outside of all brackets it need not do so with a comma, unless
`outer`. -/
structure PassesAngled {β : Type} (outer : Bool) (read : Nat → List Token → List Token → β) :
    Prop where
  plain : ∀ depth passed t ts, t.text ∉ delimiters →
    read depth passed (t :: ts) = read depth (t :: passed) ts
  comma : ∀ depth passed t ts, outer = true ∨ 0 < depth → t.word = mark "," →
    read depth passed (t :: ts) = read depth (t :: passed) ts
  opens : ∀ depth passed t ts, t.word = mark "<" →
    read depth passed (t :: ts) = read (depth + 1) (t :: passed) ts
  closes : ∀ depth passed t ts, t.word = mark ">" →
    read (depth + 1) passed (t :: ts) = read depth (t :: passed) ts

theorem PassesAngled.pass {β : Type} {outer : Bool} {read : Nat → List Token → List Token → β}
    (hRead : PassesAngled outer read) {commas : Bool} {ws : List Word} (h : Angled commas ws)
    {ts : List Token} (hWords : ts.map Token.word = ws) (depth : Nat)
    (hDepth : commas = true → outer = true ∨ 0 < depth) (passed rest : List Token) :
    read depth passed (ts ++ rest) = read depth (ts.reverse ++ passed) rest := by
  induction h generalizing ts depth passed rest with
  | nil =>
    obtain rfl := List.map_eq_nil_iff.mp hWords
    rfl
  | plain hWord _ ih =>
    obtain ⟨t, ts, rfl, rfl, hRest⟩ := List.map_eq_cons_iff.mp hWords
    rw [List.cons_append, hRead.plain depth passed t _ hWord, ih hRest depth hDepth]
    simp
  | comma _ ih =>
    obtain ⟨t, ts, rfl, hComma, hRest⟩ := List.map_eq_cons_iff.mp hWords
    rw [List.cons_append, hRead.comma depth passed t _ (hDepth rfl) hComma, ih hRest _ hDepth]
    simp
  | group _ _ ihInside ih =>
    -- Between the brackets the depth is positive, which is what allows the commas there.
    obtain ⟨opener, ts, rfl, hOpen, hWords⟩ := List.map_eq_cons_iff.mp hWords
    obtain ⟨inside, ts, rfl, hInside, hWords⟩ := List.map_eq_append_iff.mp hWords
    obtain ⟨closer, ts, rfl, hClose, hRest⟩ := List.map_eq_cons_iff.mp hWords
    rw [List.cons_append, hRead.opens depth passed opener _ hOpen, List.append_assoc,
      ihInside hInside (depth + 1) (fun _ => .inr (Nat.succ_pos depth)), List.cons_append,
      hRead.closes depth _ closer _ hClose, ih hRest depth hDepth]
    simp

end Grammar

namespace Grammar

def rise (w : Word) : Int :=
  if w ∈ ["(", "[", "\x7b", "<"].map mark then 1
  else if w ∈ [")", "]", "\x7d", ">"].map mark then -1
  else 0

def depth : List Word → Int
  | [] => 0
  | w :: ws => rise w + depth ws

def hidesCommas : Int → List Word → Bool
  | _, [] => true
  | d, w :: ws => !(d == 0 && w == mark ",") && hidesCommas (d + rise w) ws

/-- Whether commas between the parts are told from those in them: the parts hide theirs, and all
but the last end at the depth at which they started. -/
structure Separable (parts : List (List Word)) : Prop where
  hidden : ∀ ws ∈ parts, hidesCommas 0 ws = true
  closed : ∀ ws ∈ parts.dropLast, depth ws = 0

@[simp] theorem depth_nil : depth [] = 0 := rfl

@[simp] theorem depth_cons (w : Word) (ws : List Word) : depth (w :: ws) = rise w + depth ws := rfl

@[simp] theorem depth_append (ws vs : List Word) : depth (ws ++ vs) = depth ws + depth vs := by
  induction ws with
  | nil => rw [List.nil_append, depth_nil, Int.zero_add]
  | cons w ws ih => rw [List.cons_append, depth_cons, depth_cons, ih, Int.add_assoc]

theorem hidesCommas_cons {d : Int} {w : Word} {ws : List Word} :
    hidesCommas d (w :: ws) = true ↔
      ¬(d = 0 ∧ w = mark ",") ∧ hidesCommas (d + rise w) ws = true := by
  simp [hidesCommas, imp_iff_not_or]

theorem hidesCommas_append (d : Int) (ws vs : List Word) :
    hidesCommas d (ws ++ vs) = (hidesCommas d ws && hidesCommas (d + depth ws) vs) := by
  induction ws generalizing d with
  | nil => simp [hidesCommas]
  | cons w ws ih =>
    rw [List.cons_append, hidesCommas, hidesCommas, ih, Bool.and_assoc, Int.add_assoc, depth_cons]

theorem rise_of_plain {w : Word} (h : w.text ∉ delimiters) : rise w = 0 := by
  have hNone : ∀ text ∈ delimiters, w ≠ mark text := by
    rintro text hText rfl
    exact h hText
  simp (disch := decide) [rise, hNone]

theorem Angled.hides {commas : Bool} {ws : List Word} (h : Angled commas ws) {d : Int}
    (hDepth : 0 ≤ d) (hCommas : commas = true → 0 < d) :
    hidesCommas d ws = true ∧ depth ws = 0 := by
  induction h generalizing d with
  | nil => exact ⟨rfl, rfl⟩
  | @plain _ w ws hWord _ ih =>
    have hRise := rise_of_plain hWord
    have hNot : w ≠ mark "," := by
      rintro rfl
      exact hWord (by decide)
    obtain ⟨hHides, hZero⟩ := ih hDepth hCommas
    simp [hidesCommas, hRise, hNot, hHides, hZero]
  | comma _ ih =>
    have hRise : rise (mark ",") = 0 := by decide
    have hInside := hCommas rfl
    have hNot : d ≠ 0 := by omega
    obtain ⟨hHides, hZero⟩ := ih hDepth hCommas
    simp [hidesCommas, hRise, hNot, hHides, hZero]
  | @group _ inside ws _ _ ihInside ih =>
    have hOpen : rise (mark "<") = 1 := by decide
    have hClose : rise (mark ">") = -1 := by decide
    obtain ⟨hHides, hZero⟩ := ihInside (d := d + 1) (by omega) (fun _ => by omega)
    obtain ⟨hHides', hZero'⟩ := ih hDepth hCommas
    refine ⟨?_, ?_⟩
    · have hBack : d + 1 + -1 = d := by omega
      rw [hidesCommas_cons, hidesCommas_append, Bool.and_eq_true, hidesCommas_cons, hOpen, hClose,
        hZero, Int.add_zero, hBack]
      exact ⟨by simp [mark], hHides, by simp [mark], hHides'⟩
    · simp [hOpen, hClose, hZero, hZero']

theorem separable_cons {ws vs : List Word} {parts : List (List Word)} :
    Separable (ws :: vs :: parts) ↔
      hidesCommas 0 ws = true ∧ depth ws = 0 ∧ Separable (vs :: parts) := by
  constructor
  · rintro ⟨hHidden, hClosed⟩
    obtain ⟨hFirst, hHidden⟩ := List.forall_mem_cons.mp hHidden
    obtain ⟨hZero, hClosed⟩ := List.forall_mem_cons.mp hClosed
    exact ⟨hFirst, hZero, hHidden, hClosed⟩
  · rintro ⟨hFirst, hZero, hHidden, hClosed⟩
    exact ⟨List.forall_mem_cons.mpr ⟨hFirst, hHidden⟩, List.forall_mem_cons.mpr ⟨hZero, hClosed⟩⟩

end Grammar

namespace Token

open Grammar

theorem rise_word (t : Token) :
    rise t.word = if t.isOpening then 1 else if t.isClosing then -1 else 0 := by
  have hOpening : t.word ∈ ["(", "[", "\x7b", "<"].map mark ↔ t.isOpening = true := by
    simp [isOpening, isPunctuation_iff]
  have hClosing : t.word ∈ [")", "]", "\x7d", ">"].map mark ↔ t.isClosing = true := by
    simp [isClosing, isPunctuation_iff]
  simp only [rise, hOpening, hClosing]

theorem splitTopFrom_cons {d : Int} {t : Token} (h : ¬(d = 0 ∧ t.isPunctuation "," = true))
    (passed ts : List Token) :
    splitTopFrom "," d passed (t :: ts) = splitTopFrom "," (d + rise t.word) (t :: passed) ts := by
  rw [splitTopFrom, if_neg h, rise_word]
  split
  · rfl
  · split
    · rfl
    · rw [Int.add_zero]

theorem splitTopFrom_hidden {d : Int} {ws : List Word} (h : hidesCommas d ws = true)
    {ts : List Token} (hWords : ts.map word = ws) (passed rest : List Token) :
    splitTopFrom "," d passed (ts ++ rest) =
      splitTopFrom "," (d + depth ws) (ts.reverse ++ passed) rest := by
  subst hWords
  induction ts generalizing d passed with
  | nil => simp
  | cons t ts ih =>
    obtain ⟨hFirst, hRest⟩ := hidesCommas_cons.mp h
    rw [← isPunctuation_iff] at hFirst
    rw [List.cons_append, splitTopFrom_cons hFirst, ih _ hRest]
    simp [Int.add_assoc]

theorem splitTopFrom_comma {t : Token} (h : t.word = mark ",") (passed ts : List Token) :
    splitTopFrom "," 0 passed (t :: ts) = passed.reverse :: splitTopFrom "," 0 [] ts := by
  rw [splitTopFrom, if_pos ⟨rfl, isPunctuation_iff.mpr h⟩]

theorem splitAtCommas_separable {parts : List (List Word)} (h : Separable parts)
    (hSome : parts ≠ []) {ts : List Token} (hWords : ts.map word = separated parts) :
    (splitAtCommas ts).map (·.map word) = parts := by
  unfold splitAtCommas
  induction parts generalizing ts with
  | nil => exact absurd rfl hSome
  | cons ws parts ih =>
    cases parts with
    | nil =>
      have hWords : ts.map word = ws := by simpa [separated] using hWords
      have hSplit := splitTopFrom_hidden (h.hidden ws (by simp)) hWords [] []
      rw [List.append_nil] at hSplit
      rw [hSplit, splitTopFrom]
      simp [hWords]
    | cons vs parts =>
      obtain ⟨hFirst, hZero, hRest⟩ := separable_cons.mp h
      have hWords : ts.map word = ws ++ mark "," :: separated (vs :: parts) := by
        simpa [separated] using hWords
      obtain ⟨first, rest, rfl, hWs, hWords⟩ := List.map_eq_append_iff.mp hWords
      obtain ⟨comma, rest, rfl, hComma, hLater⟩ := List.map_eq_cons_iff.mp hWords
      rw [splitTopFrom_hidden hFirst hWs, hZero, Int.add_zero, List.append_nil,
        splitTopFrom_comma hComma, List.map_cons, ih hRest (by simp) hLater, List.reverse_reverse, hWs]

theorem splitAtCommas_separated {parts : List (List Word)} (h : ∀ ws ∈ parts, Angled false ws)
    (hSome : parts ≠ []) {ts : List Token} (hWords : ts.map word = separated parts) :
    (splitAtCommas ts).map (·.map word) = parts := by
  refine splitAtCommas_separable ⟨fun ws hPart => ?_, fun ws hPart => ?_⟩ hSome hWords
  · exact ((h ws hPart).hides (Int.le_refl 0) nofun).1
  · exact ((h ws (List.dropLast_subset parts hPart)).hides (Int.le_refl 0) nofun).2

theorem separable_splitTopFrom {d : Int} {passed : List Token}
    (hDepth : depth (passed.reverse.map word) = d)
    (hHidden : hidesCommas 0 (passed.reverse.map word) = true) (ts : List Token) :
    ∃ part parts, (splitTopFrom "," d passed ts).map (·.map word) = part :: parts ∧
      Separable (part :: parts) := by
  induction ts generalizing d passed with
  | nil => exact ⟨_, [], rfl, by simpa using hHidden, by simp⟩
  | cons t ts ih =>
    by_cases hComma : d = 0 ∧ t.isPunctuation "," = true
    · obtain ⟨rfl, hMark⟩ := hComma
      obtain ⟨part, parts, hSplit, hParts⟩ := @ih 0 [] rfl rfl
      refine ⟨_, part :: parts, ?_, separable_cons.mpr ⟨hHidden, hDepth, hParts⟩⟩
      rw [splitTopFrom_comma (isPunctuation_iff.mp hMark), List.map_cons, hSplit]
    · rw [splitTopFrom_cons hComma]
      have hWords : (t :: passed).reverse.map word = passed.reverse.map word ++ [t.word] := by simp
      refine ih ?_ ?_
      · rw [hWords, depth_append, hDepth]
        simp
      · rw [hWords, hidesCommas_append, hHidden, hDepth, Int.zero_add, Bool.true_and,
          hidesCommas_cons, ← isPunctuation_iff]
        exact ⟨hComma, rfl⟩

theorem splitAtCommas_eq_iff {parts : List (List Word)} (hSome : parts ≠ []) {ts : List Token}
    (hWords : ts.map word = separated parts) :
    (splitAtCommas ts).map (·.map word) = parts ↔ Separable parts := by
  refine ⟨fun hSplit => ?_, fun h => splitAtCommas_separable h hSome hWords⟩
  obtain ⟨part, rest, hParts, hSeparable⟩ := @separable_splitTopFrom 0 [] rfl rfl ts
  rwa [← hSplit, splitAtCommas, hParts]

end Token

namespace Token

open Grammar

theorem isPunctuation_of_plain {t : Token} (h : t.text ∉ delimiters) :
    ∀ text ∈ delimiters, t.isPunctuation text = false := by
  intro text hText
  apply isPunctuation_of_ne
  rintro rfl
  exact h hText

theorem passesAngled_closeGroupFrom? : PassesAngled true fun depth => closeGroupFrom? "<" depth := by
  constructor
  · intro depth passed t ts hPlain
    have hNone := isPunctuation_of_plain hPlain
    simp (disch := decide) [closeGroupFrom?, closer, hNone]
  · intro depth passed t ts _ hComma
    simp [closeGroupFrom?, closer, isPunctuation_of_word hComma]
  · intro depth passed t ts hOpen
    simp [closeGroupFrom?, isPunctuation_of_word hOpen]
  · intro depth passed t ts hClose
    simp [closeGroupFrom?, closer, isPunctuation_of_word hClose]

end Token

theorem TypeExpr.passesAngled_separate (marks : TypeExpr.Marks) :
    Grammar.PassesAngled true fun depth => TypeExpr.separate (depth + 1) marks := by
  constructor
  · intro depth passed t ts hPlain
    have hNone := Token.isPunctuation_of_plain hPlain
    simp (disch := decide) [separate, hNone]
  · intro depth passed t ts _ hComma
    simp [separate, Token.isPunctuation_of_word hComma]
  · intro depth passed t ts hOpen
    simp [separate, Token.isPunctuation_of_word hOpen]
  · intro depth passed t ts hClose
    simp [separate, Token.isPunctuation_of_word hClose]

theorem Declarator.passesAngled_splitAtParams :
    Grammar.PassesAngled true fun depth => Declarator.splitAtParams depth := by
  constructor
  · intro depth passed t ts hPlain
    have hNone := Token.isPunctuation_of_plain hPlain
    simp (disch := decide) [splitAtParams, hNone]
  · intro depth passed t ts _ hComma
    simp [splitAtParams, Token.isPunctuation_of_word hComma]
  · intro depth passed t ts hOpen
    simp [splitAtParams, Token.isPunctuation_of_word hOpen]
  · intro depth passed t ts hClose
    simp [splitAtParams, Token.isPunctuation_of_word hClose]

namespace Token

open Grammar

theorem closeGroup?_angled {ws : List Word} (h : Angled true ws) {ts : List Token} {close : Token}
    (hWords : ts.map word = ws) (hClose : close.word = mark ">") (rest : List Token) :
    closeGroup? "<" (ts ++ close :: rest) = some (ts, close, rest) := by
  have hPass := passesAngled_closeGroupFrom?.pass h hWords 0 (fun _ => .inl rfl) [] (close :: rest)
  rw [closeGroup?, hPass, List.append_nil, closeGroupFrom?]
  simp [isPunctuation_of_word hClose, closer]

end Token

end SkeletonWeave
