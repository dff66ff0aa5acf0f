import SkeletonWeave.Proofs.Declaration.Nesting
import SkeletonWeave.Proofs.Declaration.Places

/-!
# Rewritten tokens

Some bodies of a stream get another content, and functions are inserted before
one keyword. Where no such place is met, the ends of declarations and of groups
are found among the rewritten tokens where they were.
-/

set_option autoImplicit false

namespace SkeletonWeave

/-- Where a stream is rewritten: before the keyword of a class, and inside of bodies. -/
structure Rewrite where
  keyword : Token
  bodies : List Source.Body
  isClassWord : keyword.isOneOf ["class", "struct", "union"] = true

def Words.unlikeFunction : List String :=
  ["namespace", "inline", "extern", "using", "template", "typedef", "enum", "static_assert", "friend",
    "public", "protected", "private", "=", ":", "<"]

namespace Token

inductive IsStub : List Token → Prop
  | intro {head : List Token} {first last opening closing : Token} :
    head.head? = some first → first.text ∉ Words.unlikeFunction → Nested head →
    (∀ t ∈ head, t.isPunctuation ";" = false ∧ t.isPunctuation "\x7b" = false ∧
      t.isPunctuation "\x7d" = false) →
    head.getLast? = some last → last.isPunctuation ")" = true →
    opening.isPunctuation "\x7b" = true → closing.isPunctuation "\x7d" = true →
    IsStub (head ++ [opening, closing])

end Token

open Token (Alike Nested IsStub unplaced)

/-- Whether tokens come from others by a rewriting, in which bodies get a content of some sort, and
what is inserted is of another. -/
inductive Rewritten (w : Rewrite) (Content Added : List Token → Prop) :
    List Token → List Token → Prop
  | nil : Rewritten w Content Added [] []
  | keep {t t' : Token} {ts us : List Token} :
    t.unplaced = t'.unplaced → (∀ b ∈ w.bodies, t.span ≠ b.opening) →
    Rewritten w Content Added ts us → Rewritten w Content Added (t :: ts) (t' :: us)
  | body {b : Source.Body} {opening closing opening' closing' : Token}
    {inside inside' ts us : List Token} :
    b ∈ w.bodies → opening.span = b.opening → closing.span = b.closing →
    opening.isPunctuation "\x7b" = true → closing.isPunctuation "\x7d" = true →
    opening.unplaced = opening'.unplaced → closing.unplaced = closing'.unplaced → Content inside' →
    Rewritten w Content Added ts us →
    Rewritten w Content Added (opening :: (inside ++ closing :: ts))
      (opening' :: (inside' ++ closing' :: us))
  | insert {added ts us : List Token} :
    Added added → Rewritten w Content Added (w.keyword :: ts) us →
    Rewritten w Content Added (w.keyword :: ts) (added ++ us)

def Rewrite.Spares (w : Rewrite) (ts : List Token) : Prop :=
  ∀ t ∈ ts, t ≠ w.keyword ∧ ∀ b ∈ w.bodies, t.span ≠ b.opening

namespace Rewrite

variable {w : Rewrite}

theorem Spares.part {ts us : List Token} (h : w.Spares ts) (hPart : us ⊆ ts) : w.Spares us :=
  fun t ht => h t (hPart ht)

theorem kind_keyword (w : Rewrite) : w.keyword.kind = .identifier := by
  have hWord := w.isClassWord
  rw [Token.isOneOf, Bool.and_eq_true, beq_iff_eq] at hWord
  exact hWord.1

theorem text_keyword (w : Rewrite) : w.keyword.text ∈ ["class", "struct", "union"] := by
  have hWord := w.isClassWord
  rw [Token.isOneOf, Bool.and_eq_true, List.contains_iff_mem] at hWord
  exact hWord.2

theorem isPunctuation_keyword (w : Rewrite) (mark : String) :
    w.keyword.isPunctuation mark = false := by
  rw [Token.isPunctuation, w.kind_keyword]
  rfl

end Rewrite

namespace Token

theorem IsStub.exists_first {ts : List Token} (h : IsStub ts) :
    ∃ first rest, ts = first :: rest ∧ first.text ∉ Words.unlikeFunction ∧
      first.isPunctuation ";" = false ∧ first.isPunctuation "\x7b" = false ∧
      first.isPunctuation "\x7d" = false := by
  cases h with
  | @intro head first _ opening closing hFirst hWord _ hPlain _ _ _ _ =>
    obtain ⟨rest, rfl⟩ := List.head?_eq_some_iff.mp hFirst
    exact ⟨first, rest ++ [opening, closing], rfl, hWord, hPlain first (by simp)⟩

namespace Alike

theorem refl (ts : List Token) : Alike ts ts := rfl

theorem cons {t t' : Token} {ts us : List Token} (h : t.unplaced = t'.unplaced)
    (hRest : Alike ts us) : Alike (t :: ts) (t' :: us) := by
  rw [Alike, List.map_cons, List.map_cons, h, hRest]

theorem append {ts us vs xs : List Token} (h : Alike ts us) (h' : Alike vs xs) :
    Alike (ts ++ vs) (us ++ xs) := by
  rw [Alike, List.map_append, List.map_append, h, h']

theorem eq_nil {us : List Token} (h : Alike [] us) : us = [] :=
  List.map_eq_nil_iff.mp h.symm

theorem exists_cons {t : Token} {ts us : List Token} (h : Alike (t :: ts) us) :
    ∃ u us', us = u :: us' ∧ t.unplaced = u.unplaced ∧ Alike ts us' := by
  obtain ⟨u, us', rfl, hToken, hRest⟩ := List.map_eq_cons_iff.mp h.symm
  exact ⟨u, us', rfl, hToken.symm, hRest.symm⟩

theorem takeWhile {ts us : List Token} (h : Alike ts us) {p : Token → Bool}
    (hp : ∀ t, p t.unplaced = p t) : Alike (ts.takeWhile p) (us.takeWhile p) := by
  rw [Alike, ← takeWhile_unplaced hp, ← takeWhile_unplaced hp, h]

theorem dropWhile {ts us : List Token} (h : Alike ts us) {p : Token → Bool}
    (hp : ∀ t, p t.unplaced = p t) : Alike (ts.dropWhile p) (us.dropWhile p) := by
  rw [Alike, ← dropWhile_unplaced hp, ← dropWhile_unplaced hp, h]

theorem length_eq {ts us : List Token} (h : Alike ts us) : ts.length = us.length := by
  rw [← List.length_map unplaced, h, List.length_map]

end Alike

theorem isPunctuation_of_alike {t t' : Token} (h : t.unplaced = t'.unplaced) (text : String) :
    t'.isPunctuation text = t.isPunctuation text := by
  rw [← isPunctuation_unplaced t', ← h, isPunctuation_unplaced]

theorem kind_of_alike {t t' : Token} (h : t.unplaced = t'.unplaced) : t'.kind = t.kind := by
  rw [← kind_unplaced t', ← h, kind_unplaced]

theorem text_of_alike {t t' : Token} (h : t.unplaced = t'.unplaced) : t'.text = t.text := by
  rw [← text_unplaced t', ← h, text_unplaced]

theorem isIdentifier_of_alike {t t' : Token} (h : t.unplaced = t'.unplaced) (text : String) :
    t'.isIdentifier text = t.isIdentifier text := by
  rw [← isIdentifier_unplaced t', ← h, isIdentifier_unplaced]

theorem isOneOf_of_alike {t t' : Token} (h : t.unplaced = t'.unplaced) (words : List String) :
    t'.isOneOf words = t.isOneOf words := by
  rw [← isOneOf_unplaced t', ← h, isOneOf_unplaced]

theorem file_of_alike {t t' : Token} (h : t.unplaced = t'.unplaced) :
    t'.span.file = t.span.file := by
  have hFile : t.unplaced.span.file = t'.unplaced.span.file := by rw [h]
  exact hFile.symm

theorem any_of_alike {p : Token → Bool} (hp : ∀ t, p t.unplaced = p t) {ts us : List Token}
    (h : Alike ts us) : us.any p = ts.any p := by
  rw [← any_unplaced hp us, ← h, any_unplaced hp]

end Token

open Token (isPunctuation_of_alike)

namespace Rewritten

variable {w : Rewrite} {Content Added : List Token → Prop} {t : Token} {ts us : List Token}

theorem eq_nil (h : Rewritten w Content Added [] us) : us = [] := by
  cases h with
  | nil => rfl

theorem append {ts us vs xs : List Token} (h : Rewritten w Content Added ts us)
    (h' : Rewritten w Content Added vs xs) : Rewritten w Content Added (ts ++ vs) (us ++ xs) := by
  induction h with
  | nil => exact h'
  | keep hToken hNot _ ih => exact .keep hToken hNot ih
  | body hMem hOpening hClosing hOpen hClose hToken hCloseToken hContent _ ih =>
    rw [List.cons_append, List.append_assoc, List.cons_append, List.cons_append, List.append_assoc,
      List.cons_append]
    exact .body hMem hOpening hClosing hOpen hClose hToken hCloseToken hContent ih
  | insert hAdded _ ih =>
    rw [List.append_assoc]
    exact .insert hAdded ih

theorem exists_head (h : Rewritten w Content Added (t :: ts) us) (hKeyword : t ≠ w.keyword) :
    ∃ t' us', us = t' :: us' ∧ t.unplaced = t'.unplaced := by
  cases h with
  | keep hAlike => exact ⟨_, _, rfl, hAlike⟩
  | body _ _ _ _ _ hAlike => exact ⟨_, _, rfl, hAlike⟩
  | insert => exact absurd rfl hKeyword

theorem exists_cons (h : Rewritten w Content Added (t :: ts) us) (hSpares : w.Spares [t]) :
    ∃ t' us', us = t' :: us' ∧ t.unplaced = t'.unplaced ∧ Rewritten w Content Added ts us' := by
  obtain ⟨hKeyword, hBodies⟩ := hSpares t (by simp)
  cases h with
  | keep hAlike _ hRest => exact ⟨_, _, rfl, hAlike, hRest⟩
  | body hMem hOpening => exact absurd hOpening (hBodies _ hMem)
  | insert => exact absurd rfl hKeyword

theorem exists_keep (h : Rewritten w Content Added (t :: ts) us) (hKeyword : t ≠ w.keyword)
    (hBrace : t.isPunctuation "\x7b" = false) :
    ∃ t' us', us = t' :: us' ∧ t.unplaced = t'.unplaced ∧ Rewritten w Content Added ts us' := by
  cases h with
  | keep hAlike _ hRest => exact ⟨_, _, rfl, hAlike, hRest⟩
  | body _ _ _ hOpen =>
    rw [hBrace] at hOpen
    cases hOpen
  | insert => exact absurd rfl hKeyword

theorem isPunctuation_head (hAdded : ∀ added, Added added → IsStub added)
    (h : Rewritten w Content Added (t :: ts) us) (mark : String)
    (hMark : mark ∈ [";", "\x7b", "\x7d", "=", ":", "<"]) :
    ∃ t' us', us = t' :: us' ∧ t'.isPunctuation mark = t.isPunctuation mark := by
  by_cases hKeyword : t = w.keyword
  · have hNot : t.isPunctuation mark = false := by
      rw [hKeyword]
      exact w.isPunctuation_keyword mark
    cases h with
    | keep hAlike => exact ⟨_, _, rfl, isPunctuation_of_alike hAlike mark⟩
    | body _ _ _ _ _ hAlike => exact ⟨_, _, rfl, isPunctuation_of_alike hAlike mark⟩
    | insert hStub =>
      obtain ⟨first, rest, rfl, hWord, hSemicolon, hOpen, hClose⟩ := (hAdded _ hStub).exists_first
      refine ⟨first, _, rfl, ?_⟩
      rw [hNot]
      have hUnlike {text : String} (hText : text ∈ Words.unlikeFunction) :
          first.isPunctuation text = false := by
        rw [Bool.eq_false_iff]
        intro hFirst
        rw [Token.text_of_isPunctuation hFirst] at hWord
        exact hWord hText
      simp only [List.mem_cons, List.not_mem_nil, or_false] at hMark
      rcases hMark with rfl | rfl | rfl | rfl | rfl | rfl
      · exact hSemicolon
      · exact hOpen
      · exact hClose
      · exact hUnlike (by decide)
      · exact hUnlike (by decide)
      · exact hUnlike (by decide)
  · obtain ⟨t', us', rfl, hAlike⟩ := h.exists_head hKeyword
    exact ⟨t', us', rfl, isPunctuation_of_alike hAlike mark⟩

theorem dropSemicolon (hAdded : ∀ added, Added added → IsStub added)
    (h : Rewritten w Content Added ts us) :
    Rewritten w Content Added (Declaration.dropSemicolon ts) (Declaration.dropSemicolon us) := by
  cases ts with
  | nil =>
    rw [h.eq_nil]
    exact .nil
  | cons t ts =>
    obtain ⟨t', us', rfl, hMark⟩ := h.isPunctuation_head hAdded ";" (by simp)
    rw [Declaration.dropSemicolon, Declaration.dropSemicolon, hMark]
    by_cases hSemicolon : t.isPunctuation ";" = true
    · rw [if_pos hSemicolon, if_pos hSemicolon]
      generalize hWhole : t' :: us' = us at h
      cases h with
      | keep _ _ hRest =>
        cases hWhole
        exact hRest
      | body _ _ _ hOpen =>
        rw [Token.isPunctuation_eq_decide hSemicolon] at hOpen
        exact absurd hOpen (by decide)
      | insert =>
        rw [w.isPunctuation_keyword] at hSemicolon
        cases hSemicolon
    · rw [if_neg hSemicolon, if_neg hSemicolon]
      exact h

end Rewritten

namespace Declaration

variable {w : Rewrite} {Content Added : List Token → Prop}

def OpenGroup.unplaced (g : OpenGroup) : OpenGroup := ⟨g.opener.unplaced, g.depth⟩

namespace Extent

def unplaced (e : Extent) : Extent :=
  { e with passed := e.passed.map Token.unplaced, group? := e.group?.map OpenGroup.unplaced }

theorem unplaced_passInside (e : Extent) (g : OpenGroup) (t : Token) :
    (e.passInside g t).unplaced = e.unplaced.passInside g.unplaced t.unplaced := by
  unfold passInside
  simp only [OpenGroup.unplaced, Token.text_unplaced, Token.isPunctuation_unplaced]
  split
  · rfl
  · split
    · cases g.depth <;> rfl
    · rfl

theorem endsAt_unplaced (e : Extent) (t : Token) : e.unplaced.endsAt t.unplaced = e.endsAt t := by
  have hBraces : e.unplaced.bracesInitialize = e.bracesInitialize := by
    unfold bracesInitialize unplaced
    cases e.passed with
    | nil => rfl
    | cons previous passed => rfl
  simp only [endsAt, Token.isPunctuation_unplaced, hBraces]

theorem unplaced_passOutside (e : Extent) (t : Token) :
    (e.passOutside t).unplaced = e.unplaced.passOutside t.unplaced := by
  unfold passOutside
  simp only [Token.isPunctuation_unplaced]
  split
  · rfl
  · rfl

theorem unplaced_next? (e : Extent) (t : Token) :
    (e.next? t).map unplaced = e.unplaced.next? t.unplaced := by
  unfold next?
  cases hGroup : e.group? with
  | some g =>
    have hSame : e.unplaced.group? = some g.unplaced := by rw [unplaced, hGroup, Option.map_some]
    rw [hSame, Option.map_some, unplaced_passInside]
  | none =>
    have hSame : e.unplaced.group? = none := by rw [unplaced, hGroup, Option.map_none]
    rw [hSame]
    simp only [endsAt_unplaced, ← unplaced_passOutside]
    split <;> rfl

section

variable {e e' : Extent} (hAlike : e.unplaced = e'.unplaced)

include hAlike

theorem next?_eq_none_of_alike {t t' : Token} (hToken : t.unplaced = t'.unplaced)
    (hNext : e.next? t = none) : e'.next? t' = none := by
  rw [← Option.map_eq_none_iff, unplaced_next?, ← hAlike, ← hToken, ← unplaced_next?, hNext,
    Option.map_none]

theorem exists_next?_of_alike {t t' : Token} (hToken : t.unplaced = t'.unplaced) {next : Extent}
    (hNext : e.next? t = some next) :
    ∃ next', e'.next? t' = some next' ∧ next.unplaced = next'.unplaced := by
  have hSame : (e'.next? t').map unplaced = some next.unplaced := by
    rw [unplaced_next?, ← hAlike, ← hToken, ← unplaced_next?, hNext, Option.map_some]
  obtain ⟨next', hNext', hUnplaced⟩ := Option.map_eq_some_iff.mp hSame
  exact ⟨next', hNext', hUnplaced.symm⟩

theorem split_end_rewritten {rest us : List Token} (h : e.split rest = .ok (e.passed.reverse, rest))
    (hTokens : Rewritten w Content Added rest us) : e'.split us = .ok (e'.passed.reverse, us) := by
  cases rest with
  | nil =>
    have hGroup : e'.group?.map OpenGroup.unplaced = e.group?.map OpenGroup.unplaced :=
      congrArg Extent.group? hAlike.symm
    rw [hTokens.eq_nil, split]
    rw [split] at h
    cases hOpen : e.group? with
    | some g =>
      rw [hOpen] at h
      cases h
    | none =>
      rw [hOpen, Option.map_none, Option.map_eq_none_iff] at hGroup
      rw [hGroup]
  | cons t rest =>
    rw [split_cons] at h
    cases hNext : e.next? t with
    | some next =>
      rw [hNext] at h
      obtain ⟨taken, hHead, -⟩ := split_eq_ok h
      have hLength := congrArg List.length hHead
      rw [next?_passed hNext] at hLength
      simp only [List.length_append, List.length_reverse, List.length_cons] at hLength
      omega
    | none =>
      have hKeyword : t ≠ w.keyword := by
        rintro rfl
        have hEnds := endsAt_of_next? hNext
        simp [endsAt, w.isPunctuation_keyword] at hEnds
      obtain ⟨t', us', rfl, hToken⟩ := hTokens.exists_head hKeyword
      rw [split_cons, next?_eq_none_of_alike hAlike hToken hNext]

end

theorem split_rewritten {e e' : Extent} (hAlike : e.unplaced = e'.unplaced)
    {head rest us : List Token} (hSpares : w.Spares head)
    (h : e.split (head ++ rest) = .ok (e.passed.reverse ++ head, rest))
    (hTokens : Rewritten w Content Added (head ++ rest) us) :
    ∃ head' rest', us = head' ++ rest' ∧ Alike head head' ∧ Rewritten w Content Added rest rest' ∧
      e'.split us = .ok (e'.passed.reverse ++ head', rest') := by
  induction head generalizing e e' us with
  | nil =>
    rw [List.append_nil, List.nil_append] at h
    refine ⟨[], us, rfl, .refl [], hTokens, ?_⟩
    rw [List.append_nil]
    exact split_end_rewritten hAlike h hTokens
  | cons t head ih =>
    obtain ⟨t', us', rfl, hToken, hRest⟩ := hTokens.exists_cons (hSpares.part (by simp))
    rw [List.cons_append, split_cons] at h
    cases hNext : e.next? t with
    | none =>
      -- the declaration would end before a token of its head
      rw [hNext] at h
      have hLength := congrArg List.length (congrArg Prod.fst (Except.ok.inj h))
      simp only [List.length_append, List.length_cons] at hLength
      omega
    | some next =>
      obtain ⟨next', hNext', hSame⟩ := exists_next?_of_alike hAlike hToken hNext
      have hPassed : next.passed.reverse ++ head = e.passed.reverse ++ t :: head := by
        rw [next?_passed hNext, List.reverse_cons, List.append_assoc]
        rfl
      rw [hNext, ← hPassed] at h
      obtain ⟨head', rest', rfl, hHead, hLater, hSplit'⟩ :=
        ih hSame (hSpares.part (List.subset_cons_self t head)) h hRest
      refine ⟨t' :: head', rest', rfl, .cons hToken hHead, hLater, ?_⟩
      rw [split_cons, hNext']
      simp only
      rw [hSplit', next?_passed hNext', List.reverse_cons, List.append_assoc]
      rfl

end Extent

theorem splitDeclaration_rewritten {head rest ts us : List Token}
    (h : splitDeclaration ts = .ok (head, rest)) (hSpares : w.Spares head)
    (hTokens : Rewritten w Content Added ts us) :
    ∃ head' rest', us = head' ++ rest' ∧ Alike head head' ∧ Rewritten w Content Added rest rest' ∧
      splitDeclaration us = .ok (head', rest') := by
  obtain rfl := splitDeclaration_eq_ok h
  exact Extent.split_rewritten rfl hSpares h hTokens

theorem closeGroupFrom?_rewritten {opener : String} {depth : Nat}
    {passed passed' inside rest us : List Token} {close : Token}
    (h : Token.closeGroupFrom? opener depth passed (inside ++ close :: rest) =
      some (passed.reverse ++ inside, close, rest))
    (hSpares : w.Spares (inside ++ [close]))
    (hTokens : Rewritten w Content Added (inside ++ close :: rest) us) :
    ∃ inside' close' rest', us = inside' ++ close' :: rest' ∧ Alike inside inside' ∧
      close.unplaced = close'.unplaced ∧ Rewritten w Content Added rest rest' ∧
      Token.closeGroupFrom? opener depth passed' us =
        some (passed'.reverse ++ inside', close', rest') := by
  induction inside generalizing depth passed passed' us with
  | nil =>
    obtain ⟨close', rest', rfl, hClose, hRest⟩ := hTokens.exists_cons (hSpares.part (by simp))
    refine ⟨[], close', rest', rfl, .refl [], hClose, hRest, ?_⟩
    have hNot {depth : Nat} (h : Token.closeGroupFrom? opener depth (close :: passed) rest =
        some (passed.reverse ++ [], close, rest)) : False := by
      obtain ⟨_, -, hTaken⟩ := Token.closeGroupFrom?_eq_some h
      have hLength := congrArg List.length hTaken
      simp only [List.length_append, List.length_cons] at hLength
      omega
    simp only [List.nil_append, Token.closeGroupFrom?] at h ⊢
    rw [isPunctuation_of_alike hClose, isPunctuation_of_alike hClose]
    split at h
    · exact (hNot h).elim
    · next hOpens =>
      rw [if_neg hOpens]
      split at h
      · next hCloses =>
        rw [if_pos hCloses]
        cases depth with
        | zero => simp
        | succ depth => exact (hNot h).elim
      · exact (hNot h).elim
  | cons t inside ih =>
    obtain ⟨t', us', rfl, hToken, hRest⟩ := hTokens.exists_cons (hSpares.part (by simp))
    have hStep {depth : Nat}
        (h : Token.closeGroupFrom? opener depth (t :: passed) (inside ++ close :: rest) =
          some (passed.reverse ++ t :: inside, close, rest)) :
        ∃ inside' close' rest', t' :: us' = inside' ++ close' :: rest' ∧
          Alike (t :: inside) inside' ∧ close.unplaced = close'.unplaced ∧
          Rewritten w Content Added rest rest' ∧
          Token.closeGroupFrom? opener depth (t' :: passed') us' =
            some (passed'.reverse ++ inside', close', rest') := by
      have hSame : (t :: passed).reverse ++ inside = passed.reverse ++ t :: inside := by
        rw [List.reverse_cons, List.append_assoc]
        rfl
      rw [← hSame] at h
      obtain ⟨inside', close', rest', rfl, hInside, hClose, hLater, hFound⟩ :=
        @ih depth (t :: passed) (t' :: passed') us' h
          (hSpares.part (List.subset_cons_self t _)) hRest
      refine ⟨t' :: inside', close', rest', rfl, .cons hToken hInside, hClose, hLater, ?_⟩
      rw [hFound, List.reverse_cons, List.append_assoc]
      rfl
    simp only [List.cons_append, Token.closeGroupFrom?] at h ⊢
    rw [isPunctuation_of_alike hToken, isPunctuation_of_alike hToken]
    split at h
    · next hOpens =>
      rw [if_pos hOpens]
      exact hStep h
    · next hOpens =>
      rw [if_neg hOpens]
      split at h
      · next hCloses =>
        rw [if_pos hCloses]
        cases depth with
        | zero =>
          have hLength := congrArg List.length (congrArg Prod.fst (Option.some.inj h))
          simp only [List.length_append, List.length_cons, List.length_reverse] at hLength
          omega
        | succ depth => exact hStep h
      · next hCloses =>
        rw [if_neg hCloses]
        exact hStep h

theorem closeGroup_eq_ok_iff {opener close : Token} {ts inside rest : List Token} :
    closeGroup opener ts = .ok (inside, close, rest) ↔
      Token.closeGroup? opener.text ts = some (inside, close, rest) := by
  unfold closeGroup
  split
  · next hFound =>
    rw [hFound]
    simp
  · next hFound =>
    rw [hFound]
    simp

theorem closeGroup_rewritten {opener opener' close : Token} {ts us inside rest : List Token}
    (hOpener : opener.unplaced = opener'.unplaced)
    (h : closeGroup opener ts = .ok (inside, close, rest)) (hSpares : w.Spares (inside ++ [close]))
    (hTokens : Rewritten w Content Added ts us) :
    ∃ inside' close' rest', us = inside' ++ close' :: rest' ∧ Alike inside inside' ∧
      close.unplaced = close'.unplaced ∧ Rewritten w Content Added rest rest' ∧
      closeGroup opener' us = .ok (inside', close', rest') := by
  obtain rfl := closeGroup_eq_ok h
  rw [closeGroup_eq_ok_iff] at h
  obtain ⟨inside', close', rest', hCut, hInside, hClose, hRest, hFound⟩ :=
    @closeGroupFrom?_rewritten w Content Added opener.text 0 [] [] inside rest us close h hSpares hTokens
  refine ⟨inside', close', rest', hCut, hInside, hClose, hRest, ?_⟩
  rw [closeGroup_eq_ok_iff, Token.text_of_alike hOpener]
  exact hFound

theorem continuesAfterBody_alike {head head' : List Token} (h : Alike head head') :
    continuesAfterBody head' = continuesAfterBody head :=
  Token.any_of_alike (fun _ => rfl) h

theorem splitBody_rewritten {ts us head after inside later : List Token} {opener close : Token}
    (hSplit : splitDeclaration ts = .ok (head, opener :: after))
    (hGroup : closeGroup opener after = .ok (inside, close, later))
    (hSpares : w.Spares (head ++ opener :: (inside ++ [close])))
    (hTokens : Rewritten w Content Added ts us) :
    ∃ head' opener' after' inside' close' later',
      splitDeclaration us = .ok (head', opener' :: after') ∧
      closeGroup opener' after' = .ok (inside', close', later') ∧ Alike head head' ∧
      opener.unplaced = opener'.unplaced ∧ Alike inside inside' ∧ close.unplaced = close'.unplaced ∧
      Rewritten w Content Added later later' := by
  obtain ⟨head', after', -, hHead, hAfter, hSplit'⟩ :=
    splitDeclaration_rewritten hSplit (hSpares.part (List.subset_append_left head _)) hTokens
  obtain ⟨opener', after', rfl, hOpener, hAfter⟩ := hAfter.exists_cons (hSpares.part (by simp))
  obtain ⟨inside', close', later', -, hInside, hClose, hLater, hGroup'⟩ :=
    closeGroup_rewritten hOpener hGroup (hSpares.part (by simp)) hAfter
  exact ⟨head', opener', after', inside', close', later', hSplit', hGroup', hHead, hOpener, hInside,
    hClose, hLater⟩

theorem skipFrom_rewritten (hAdded : ∀ added, Added added → IsStub added) {steps steps' : Nat}
    {passed passed' ts us taken rest : List Token} (hPassed : Alike passed passed')
    (h : skipFrom steps passed ts = .ok rest) (hTaken : ts = taken ++ rest)
    (hSteps : ts.length < steps) (hSteps' : us.length < steps') (hSpares : w.Spares taken)
    (hTokens : Rewritten w Content Added ts us) :
    ∃ rest', skipFrom steps' passed' us = .ok rest' ∧ Rewritten w Content Added rest rest' := by
  induction steps' generalizing steps passed passed' ts us taken with
  | zero => omega
  | succ steps' ih =>
    obtain _ | steps := steps
    · omega
    have hOwn {head after own : List Token} (hSplit : splitDeclaration ts = .ok (head, after))
        (hAfter : after = own ++ rest) : w.Spares (head ++ own) := by
      rw [splitDeclaration_eq_ok hSplit, hAfter, ← List.append_assoc] at hTaken
      rwa [List.append_cancel_right hTaken]
    have hFollow {head after own : List Token} (hSplit : splitDeclaration ts = .ok (head, after))
        (hAfter : after = own ++ rest) : ∃ head' after', Rewritten w Content Added after after' ∧
          splitDeclaration us = .ok (head', after') := by
      obtain ⟨head', after', -, -, hRest, hSplit'⟩ := splitDeclaration_rewritten hSplit
        ((hOwn hSplit hAfter).part (List.subset_append_left head own)) hTokens
      exact ⟨head', after', hRest, hSplit'⟩
    have hPart {head inside : List Token} {opener close : Token} (own : List Token) :
        head ++ opener :: (inside ++ [close]) ⊆ head ++ opener :: (inside ++ close :: own) :=
      List.IsPrefix.subset ⟨own, by simp⟩
    cases skipFrom_eq_ok_iff.mp h with
    | file hSplit =>
      obtain ⟨head', after', hAfter, hSplit'⟩ := @hFollow _ _ [] hSplit rfl
      rw [hAfter.eq_nil] at hSplit'
      exact ⟨[], skipFrom_eq_ok_iff.mpr (.file hSplit'), .nil⟩
    | @semicolon t _ _ hSplit hSemicolon =>
      obtain ⟨head', after', hAfter, hSplit'⟩ := @hFollow _ _ [t] hSplit rfl
      obtain ⟨t', rest', rfl, hToken, hRest⟩ :=
        hAfter.exists_cons ((@hOwn _ _ [t] hSplit rfl).part (List.subset_append_right _ _))
      have hMark := (isPunctuation_of_alike hToken ";").trans hSemicolon
      exact ⟨rest', skipFrom_eq_ok_iff.mpr (.semicolon hSplit' hMark), hRest⟩
    | scope hSplit hClose =>
      obtain ⟨head', after', hAfter, hSplit'⟩ := @hFollow _ _ [] hSplit rfl
      obtain ⟨t', rest', rfl, hMark⟩ := hAfter.isPunctuation_head hAdded "\x7d" (by simp)
      exact ⟨t' :: rest', skipFrom_eq_ok_iff.mpr (.scope hSplit' (hMark.trans hClose)), hAfter⟩
    | @goesOn opener close head _ inside later _ hSplit hOpen hGroup hContinues hRest =>
      obtain rfl := closeGroup_eq_ok hGroup
      obtain ⟨own, rfl⟩ := skipFrom_suffix hRest
      have hAll := @hOwn _ _ (opener :: (inside ++ close :: own)) hSplit (by simp)
      obtain ⟨head', opener', after', inside', close', later', hSplit', hGroup', hHead, hOpener, hInside,
        hClose, hLater⟩ := splitBody_rewritten hSplit hGroup (hAll.part (hPart own)) hTokens
      obtain rfl := splitDeclaration_eq_ok hSplit
      obtain rfl := splitDeclaration_eq_ok hSplit'
      obtain rfl := closeGroup_eq_ok hGroup'
      simp only [List.length_append, List.length_cons] at hSteps hSteps'
      have hSoFar : Alike (passed ++ head) (passed' ++ head') := hPassed.append hHead
      have hNext : Alike (passed ++ head ++ opener :: inside ++ [close])
          (passed' ++ head' ++ opener' :: inside' ++ [close']) :=
        (hSoFar.append (.cons hOpener hInside)).append (.cons hClose (.refl []))
      obtain ⟨rest', hRest', hKept⟩ := ih hNext hRest rfl (by simp only [List.length_append]; omega)
        (by omega) (hAll.part fun u hu => by simp [hu]) hLater
      refine ⟨rest', skipFrom_eq_ok_iff.mpr (.goesOn hSplit' ?_ hGroup' ?_ hRest'), hKept⟩
      · rw [isPunctuation_of_alike hOpener, hOpen]
      · rw [continuesAfterBody_alike hSoFar, hContinues]
    | @body opener close head _ inside later hSplit hOpen hGroup hContinues =>
      obtain rfl := closeGroup_eq_ok hGroup
      obtain ⟨own, hDropped⟩ := dropSemicolon_suffix later
      have hAll := @hOwn _ _ (opener :: (inside ++ close :: own)) hSplit (by simp [hDropped])
      obtain ⟨head', opener', after', inside', close', later', hSplit', hGroup', hHead, hOpener, -, -,
        hLater⟩ := splitBody_rewritten hSplit hGroup (hAll.part (hPart own)) hTokens
      refine ⟨_, skipFrom_eq_ok_iff.mpr (.body hSplit' ?_ hGroup' ?_), hLater.dropSemicolon hAdded⟩
      · rw [isPunctuation_of_alike hOpener, hOpen]
      · rw [continuesAfterBody_alike (hPassed.append hHead), hContinues]

theorem skip_rewritten (hAdded : ∀ added, Added added → IsStub added)
    {ts us taken rest : List Token} (h : skip ts = .ok rest) (hTaken : ts = taken ++ rest)
    (hSpares : w.Spares taken) (hTokens : Rewritten w Content Added ts us) :
    ∃ rest', skip us = .ok rest' ∧ Rewritten w Content Added rest rest' :=
  skipFrom_rewritten hAdded (.refl []) h hTaken (Nat.lt_succ_self _) (Nat.lt_succ_self _) hSpares
    hTokens

theorem skipTemplate_rewritten (hAdded : ∀ added, Added added → IsStub added)
    {ts us taken rest : List Token} (h : skipTemplate ts = .ok rest) (hTaken : ts = taken ++ rest)
    (hSpares : w.Spares taken) (hTokens : Rewritten w Content Added ts us) :
    ∃ rest', skipTemplate us = .ok rest' ∧ Rewritten w Content Added rest rest' := by
  cases ts with
  | nil =>
    rw [hTokens.eq_nil]
    exact skip_rewritten hAdded h hTaken hSpares .nil
  | cons t ts =>
    obtain ⟨t', us', rfl, hMark⟩ := hTokens.isPunctuation_head hAdded "<" (by simp)
    unfold skipTemplate at h ⊢
    simp only [hMark] at h ⊢
    split at h
    · next hAngle =>
      rw [bind_eq_ok] at h
      obtain ⟨⟨inside, close, after⟩, hGroup, h⟩ := h
      obtain rfl := closeGroup_eq_ok hGroup
      obtain ⟨own, rfl⟩ := skip_suffix h
      have hBoth : taken = t :: (inside ++ close :: own) := by
        apply List.append_cancel_right
        rw [← hTaken]
        simp
      rw [hBoth] at hSpares
      obtain ⟨t', us', hSame, hToken, hRest⟩ := hTokens.exists_cons (hSpares.part (by simp))
      obtain ⟨rfl, rfl⟩ := List.cons.inj hSame
      obtain ⟨inside', close', after', -, -, -, hAfter, hGroup'⟩ :=
        closeGroup_rewritten hToken hGroup (hSpares.part (by simp)) hRest
      rw [if_pos hAngle, hGroup']
      exact skip_rewritten hAdded h rfl (hSpares.part fun u hu => by simp [hu]) hAfter
    · next hAngle =>
      rw [if_neg hAngle]
      exact skip_rewritten hAdded h hTaken hSpares hTokens

end Declaration

end SkeletonWeave
