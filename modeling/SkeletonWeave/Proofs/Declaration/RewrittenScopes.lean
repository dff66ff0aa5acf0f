import SkeletonWeave.Proofs.Declaration.RewrittenMembers

/-!
# Scopes among rewritten tokens

A scope is read as it was, with a step of its own for each function that is
inserted. The classes of the whole stream keep their names, and the class of the
keyword keeps its methods.
-/

set_option autoImplicit false

namespace SkeletonWeave

open Declarator (Declared Member)
open Token (Alike Nested IsStub unplaced isPunctuation_of_alike text_of_alike kind_of_alike)

theorem Rewritten.exists_append {w : Rewrite} {Added : List Token → Prop} {ts rest us : List Token}
    (h : Rewritten w Nested Added (ts ++ rest) us) (hSpares : w.Spares ts) :
    ∃ ts' rest', us = ts' ++ rest' ∧ Alike ts ts' ∧ Rewritten w Nested Added rest rest' := by
  induction ts generalizing us with
  | nil => exact ⟨[], us, rfl, .refl [], h⟩
  | cons t ts ih =>
    obtain ⟨t', us', rfl, hToken, hRest⟩ := h.exists_cons (hSpares.part (by simp))
    obtain ⟨ts', rest', rfl, hAlike, hLater⟩ := ih hRest (hSpares.part (List.subset_cons_self t ts))
    exact ⟨t' :: ts', rest', rfl, .cons hToken hAlike, hLater⟩

namespace Declaration

variable {w : Rewrite} {Added : List Token → Prop} {d d' : Declarations}

theorem readBody_follows (n : Nat) : BodyReader.Follows w Added n readBody readBody := by
  intro scope name access opener opener' d d' ts us inside cs body hRead hInside hClasses hCovered
    hAdmits hTokens _ hMatches
  exact (readMembers_rewritten (us.length + 1)).follows scope name access opener opener' d d' ts us inside
    cs body hRead hInside hClasses hCovered hAdmits hTokens (Nat.lt_succ_self us.length) hMatches

def ScopeReader.Follows (w : Rewrite) (Added : List Token → Prop) (m n : Nat)
    (readInner readInner' : ScopeReader) : Prop :=
  ∀ scope opener opener' d d' ts us taken cs r, readInner scope opener d ts = .ok r →
    ts.length < m → ts = taken ++ r.rest → r.declarations.classes = d.classes ++ cs →
    w.Covered taken cs (cs.flatMap (·.methods)) → w.Admits Added ts → Rewritten w Nested Added ts us →
    us.length < n → d.Matches w d' →
    ∃ r', readInner' scope opener' d' us = .ok r' ∧ Rewritten w Nested Added r.rest r'.rest ∧
      r.declarations.Matches w r'.declarations

theorem all_alike {p : Token → Bool} (hp : ∀ t, p t.unplaced = p t) {ts us : List Token}
    (h : Alike ts us) : us.all p = ts.all p := by
  rw [List.all_eq_not_any_not, List.all_eq_not_any_not,
    Token.any_of_alike (fun t => congrArg (!·) (hp t)) h]

theorem names_alike {ts us : List Token} (h : Alike ts us) :
    (us.filter fun t => t.kind == .identifier).map (·.text) =
      (ts.filter fun t => t.kind == .identifier).map (·.text) := by
  have hTexts (vs : List Token) : (vs.filter fun t => t.kind == .identifier).map (·.text) =
      ((vs.map unplaced).filter fun t => t.kind == .identifier).map (·.text) := by
    rw [Token.filter_unplaced fun _ => rfl, List.map_map]
    rfl
  rw [hTexts us, hTexts ts, h]

theorem takeWhile_names {names rest : List Token} (hNames : names.all inNamespaceName = true)
    (hRest : ∀ t us, rest = t :: us → inNamespaceName t = false) :
    (names ++ rest).takeWhile inNamespaceName = names ∧
      (names ++ rest).dropWhile inNamespaceName = rest := by
  rw [List.all_eq_true] at hNames
  rw [List.takeWhile_append_of_pos hNames, List.dropWhile_append_of_pos hNames]
  cases rest with
  | nil => exact ⟨List.append_nil names, rfl⟩
  | cons t us => simp [hRest t us rfl]

theorem inNamespaceName_keyword (w : Rewrite) : inNamespaceName w.keyword = true := by
  rw [inNamespaceName, w.kind_keyword]
  rfl

theorem names_rewritten {ts us : List Token} (hTokens : Rewritten w Nested Added ts us)
    (hSpares : w.Spares (ts.takeWhile inNamespaceName)) :
    Alike (ts.takeWhile inNamespaceName) (us.takeWhile inNamespaceName) ∧
      Rewritten w Nested Added (ts.dropWhile inNamespaceName) (us.dropWhile inNamespaceName) := by
  rw [← List.takeWhile_append_dropWhile (p := inNamespaceName) (l := ts)] at hTokens
  obtain ⟨names', rest', rfl, hNames, hRest⟩ := hTokens.exists_append hSpares
  have hAll : names'.all inNamespaceName = true := by
    rw [all_alike (fun _ => rfl) hNames]
    exact List.all_takeWhile
  have hEnd : ∀ t us, rest' = t :: us → inNamespaceName t = false := by
    intro t' us' hCut
    cases hDrop : ts.dropWhile inNamespaceName with
    | nil =>
      rw [hDrop] at hRest
      rw [hRest.eq_nil] at hCut
      cases hCut
    | cons t rest =>
      have hNot : inNamespaceName t = false := by
        have hHead := List.head?_dropWhile_not inNamespaceName ts
        rw [hDrop] at hHead
        simpa using hHead
      rw [hDrop] at hRest
      have hKeyword : t ≠ w.keyword := by
        rintro rfl
        rw [inNamespaceName_keyword] at hNot
        cases hNot
      obtain ⟨u, vs, hCut', hAlike⟩ := hRest.exists_head hKeyword
      rw [hCut'] at hCut
      obtain ⟨rfl, -⟩ := List.cons.inj hCut
      have hSame : inNamespaceName u.unplaced = inNamespaceName t.unplaced := by rw [hAlike]
      exact hSame.trans hNot
  obtain ⟨hTake, hDrop⟩ := takeWhile_names hAll hEnd
  rw [hTake, hDrop]
  exact ⟨hNames, hRest⟩

theorem isIdentifier_head (hAdded : ∀ added, Added added → IsStub added) {ts us : List Token}
    (h : Rewritten w Nested Added ts us) {word : String} (hWord : word ∈ Words.unlikeFunction) :
    us.head?.any (·.isIdentifier word) = ts.head?.any (·.isIdentifier word) := by
  cases ts with
  | nil => rw [h.eq_nil]
  | cons t ts =>
    rw [List.head?_cons, Option.any_some]
    rcases inserted_or_kept h with ⟨rfl, added, vs, hAdd, rfl, -⟩ | ⟨t', us', rfl, hKept⟩
    · obtain ⟨first, later, rfl, hFirst, -⟩ := (hAdded added hAdd).exists_first
      have hUnlike := ne_of_unlike hFirst hWord
      have hApart : ∀ word ∈ Words.unlikeFunction, word ∉ ["class", "struct", "union"] := by decide
      have hKeyword : w.keyword.text ≠ word := by
        intro hSame
        have hText := w.text_keyword
        rw [hSame] at hText
        exact hApart word hWord hText
      rw [List.cons_append, List.head?_cons, Option.any_some, Token.isIdentifier, Token.isIdentifier,
        beq_eq_false_iff_ne.mpr hUnlike, beq_eq_false_iff_ne.mpr hKeyword, Bool.and_false, Bool.and_false]
    · rw [List.head?_cons, Option.any_some, ← Token.isIdentifier_unplaced, ← hKept.token,
        Token.isIdentifier_unplaced]

theorem startsLinkage_of_rewritten (hAdded : ∀ added, Added added → IsStub added)
    {ts us : List Token} (hTokens : Rewritten w Nested Added ts us)
    (hFirst : ∀ vs, ts ≠ w.keyword :: vs) (h : StartsLinkage us) : StartsLinkage ts := by
  obtain ⟨language', brace', after', rfl, hKind, hBrace⟩ := h
  cases ts with
  | nil => cases hTokens.eq_nil
  | cons language ts =>
    have hKeyword : language ≠ w.keyword := by
      rintro rfl
      exact hFirst ts rfl
    obtain ⟨_, _, hSame, hAlike⟩ := hTokens.exists_head hKeyword
    obtain ⟨rfl, -⟩ := List.cons.inj hSame
    rw [kind_of_alike hAlike] at hKind
    obtain ⟨_, _, hSame, -, hRest⟩ := hTokens.exists_keep hKeyword (by simp [Token.isPunctuation, hKind])
    obtain ⟨rfl, rfl⟩ := List.cons.inj hSame
    cases ts with
    | nil => cases hRest.eq_nil
    | cons brace after =>
      obtain ⟨_, _, hSame, hMark⟩ := hRest.isPunctuation_head hAdded "\x7b" (by simp)
      obtain ⟨rfl, -⟩ := List.cons.inj hSame
      exact ⟨language, brace, after, rfl, hKind, hMark.symm.trans hBrace⟩

theorem IsItem.not_opens {t opener : Token} {ts after : List Token} {names : List String}
    (h : IsItem t ts (.inner names opener after)) : t.isPunctuation "\x7b" = false := by
  cases h with
  | space hWord _ _ => exact not_opens_of_text hWord (by decide)
  | linkage hWord _ _ _ => exact not_opens_of_text hWord (by decide)

theorem IsItem.inner_rewritten {t t' opener : Token} {ts us between after : List Token}
    {names : List String} (h : IsItem t ts (.inner names opener after))
    (hCut : ts = between ++ opener :: after) (hSpares : w.Spares (between ++ [opener]))
    (hText : t'.text = t.text) (hTokens : Rewritten w Nested Added ts us) :
    ∃ opener' after', IsItem t' us (.inner names opener' after') ∧
      Rewritten w Nested Added after after' := by
  cases h with
  | space hWord hName hOpen =>
    have hBetween : between = ts.takeWhile inNamespaceName := by
      apply List.append_cancel_right
      rw [← hCut, ← hName, List.takeWhile_append_dropWhile]
    rw [hBetween] at hSpares
    obtain ⟨hNames, hRest⟩ :=
      names_rewritten hTokens (hSpares.part (List.subset_append_left _ [opener]))
    rw [hName] at hRest
    obtain ⟨opener', after', hName', hOpener, hAfter⟩ := hRest.exists_cons (hSpares.part (by simp))
    refine ⟨opener', after', ?_, hAfter⟩
    rw [show spaceNames ts = spaceNames us from (names_alike hNames).symm]
    exact .space (hText.trans hWord) hName' ((isPunctuation_of_alike hOpener _).trans hOpen)
  | @linkage language _ _ hWord hLinkage hString hOpen =>
    have hBetween : between = [language] := by
      apply List.append_cancel_right
      rw [← hCut, hLinkage]
      rfl
    rw [hBetween] at hSpares
    rw [hLinkage] at hTokens
    obtain ⟨language', us', rfl, hLanguage, hRest⟩ := hTokens.exists_cons (hSpares.part (by simp))
    obtain ⟨opener', after', rfl, hOpener, hAfter⟩ := hRest.exists_cons (hSpares.part (by simp))
    exact ⟨opener', after', .linkage (hText.trans hWord) rfl ((kind_of_alike hLanguage).trans hString)
      ((isPunctuation_of_alike hOpener _).trans hOpen), hAfter⟩

theorem IsItem.bodiless_rewritten (hAdded : ∀ added, Added added → IsStub added) {t t' : Token}
    {ts us : List Token} (hWord : t.text = "namespace")
    (hNot : (ts.dropWhile inNamespaceName).head?.any (·.isPunctuation "\x7b") = false)
    (hText : t'.text = t.text)
    (hRest : Rewritten w Nested Added (ts.dropWhile inNamespaceName) (us.dropWhile inNamespaceName)) :
    IsItem t' us (.bodiless (us.dropWhile inNamespaceName)) := by
  refine .bodiless (hText.trans hWord) ?_
  cases hName : ts.dropWhile inNamespaceName with
  | nil =>
    rw [hName] at hRest
    rw [hRest.eq_nil]
    rfl
  | cons opener after =>
    rw [hName] at hRest hNot
    obtain ⟨opener', after', hName', hMark⟩ := hRest.isPunctuation_head hAdded "\x7b" (by simp)
    rw [hName']
    exact hMark.trans hNot

/-- A declaration that starts with `extern` is a linkage among rewritten tokens only if it was one:
where a class keyword follows, it takes the keyword, and nothing is inserted there. -/
theorem startsLinkage_of_read {form : Form} {scope : Scope} {t : Token} {ts us taken : List Token}
    {cs : List Class} {result : Declared × Reached} (hForm : form.Starts passedItems t.text)
    (hWord : t.text = "extern") (h : form.read readBody scope none d t ts = .ok result)
    (hTaken : t :: ts = taken ++ result.2.rest)
    (hClasses : result.2.declarations.classes = d.classes ++ cs)
    (hCovered : w.Covered taken cs (result.1.methods ++ cs.flatMap (·.methods)))
    (hAdmits : w.Admits Added (t :: ts)) (hTokens : Rewritten w Nested Added ts us)
    (hLinkage : StartsLinkage us) : StartsLinkage ts := by
  refine startsLinkage_of_rewritten hAdmits.stubs hTokens ?_ hLinkage
  rintro vs rfl
  rw [hWord] at hForm
  cases form with
  | plain =>
    rw [Form.read, bind_eq_ok] at h
    obtain ⟨item, hItem, h⟩ := h
    cases h
    obtain rfl : cs = [] := cs_eq_nil rfl hClasses
    rw [List.flatMap_nil, List.append_nil] at hCovered
    obtain ⟨head, rest, hSplit, -⟩ := exists_leftOver_of_read hItem
    have hMem : w.keyword ∈ head := by
      refine mem_of_split hSplit (fun mark hMark => isPunctuation_of_text hWord ?_)
        fun mark _ => w.isPunctuation_keyword mark
      rintro rfl
      exact absurd hMark (by decide)
    exact (readDeclaration_spares hItem hTaken hCovered hAdmits.distinct hSplit w.keyword hMem).1 rfl
  | _ => exact absurd hForm (by decide)

theorem IsItem.shared_rewritten {form : Form} {scope : Scope} {t t' : Token} {ts us taken : List Token}
    {cs : List Class} {result : Declared × Reached} (hForm : IsItem t ts (.shared form))
    (h : form.read readBody scope none d t ts = .ok result)
    (hTaken : t :: ts = taken ++ result.2.rest)
    (hClasses : result.2.declarations.classes = d.classes ++ cs)
    (hCovered : w.Covered taken cs (result.1.methods ++ cs.flatMap (·.methods)))
    (hAdmits : w.Admits Added (t :: ts)) (hKept : Kept w Added t t' ts us) :
    IsItem t' us (.shared form) := by
  have hText : t'.text = t.text := text_of_alike hKept.token
  cases hForm with
  | shared hSpace hInline hLinkage hStarts =>
    refine .shared (hText ▸ hSpace) ?_ ?_ (hText ▸ hStarts)
    · rintro ⟨hWord, hNext⟩
      rw [hText] at hWord
      obtain ⟨-, hTokens⟩ := hKept.rest (not_opens_of_text hWord (by decide))
      rw [isIdentifier_head hAdmits.stubs hTokens (by decide)] at hNext
      exact hInline ⟨hWord, hNext⟩
    · rintro ⟨hWord, hNext⟩
      rw [hText] at hWord
      obtain ⟨-, hTokens⟩ := hKept.rest (not_opens_of_text hWord (by decide))
      exact hLinkage ⟨hWord, startsLinkage_of_read hStarts hWord h hTaken hClasses hCovered hAdmits
        hTokens hNext⟩

theorem readItem_rewritten {m n : Nat} {readInner readInner' : ScopeReader}
    (hInner : ScopeReader.Follows w Added m n readInner readInner')
    (hSound : ∀ scope opener d ts r, readInner scope opener d ts = .ok r → Advances scope d ts [] r)
    {scope : Scope} {t t' : Token} {ts us taken : List Token} {cs : List Class} {r : Reached}
    (h : readItem readInner scope d t ts = .ok r) (hTaken : t :: ts = taken ++ r.rest)
    (hClasses : r.declarations.classes = d.classes ++ cs)
    (hCovered : w.Covered taken cs (cs.flatMap (·.methods)))
    (hAdmits : w.Admits Added (t :: ts)) (hKept : Kept w Added t t' ts us) (hLength : ts.length ≤ m)
    (hLength' : us.length ≤ n) (hMatches : d.Matches w d') :
    ∃ r', readItem readInner' scope d' t' us = .ok r' ∧ Rewritten w Nested Added r.rest r'.rest ∧
      r.declarations.Matches w r'.declarations := by
  have hText : t'.text = t.text := text_of_alike hKept.token
  obtain ⟨form, hForm⟩ := exists_isItem t ts
  rw [readItem_eq hForm] at h
  cases form with
  | inner names opener after =>
    obtain ⟨-, hTokens⟩ := hKept.rest hForm.not_opens
    obtain ⟨between, hCut⟩ := hForm.inner_suffix
    have hFirst : Advances scope d (t :: ts) [] ⟨d, after⟩ :=
      .of_suffix scope ⟨t :: (between ++ [opener]), by rw [← hCut]; simp⟩ rfl
    obtain ⟨own, inside, cs₁, cs₂, rfl, hOwn, hAfter, hNone, hFound, hSpares, hInside⟩ :=
      Advances.covered [] [] hFirst (hSound _ _ _ _ _ h) hTaken hClasses hCovered hAdmits.distinct
    obtain rfl : cs₁ = [] := cs_eq_nil rfl hNone
    obtain rfl : own = t :: (between ++ [opener]) := by
      apply List.append_cancel_right
      rw [← hOwn, ← hCut]
      simp
    obtain ⟨opener', after', hForm', hTokens'⟩ := hForm.inner_rewritten hCut.symm
      (hSpares.spares_of_nil.part (List.subset_cons_self t _)) hText hTokens
    have hShorter := hForm.inner_suffix.length_le
    have hShorter' := hForm'.inner_suffix.length_le
    rw [List.length_cons] at hShorter hShorter'
    have hSuffix : after <:+ t :: ts :=
      (List.suffix_cons opener after).trans (hForm.inner_suffix.trans (List.suffix_cons t ts))
    rw [readItem_eq hForm']
    exact hInner _ _ opener' _ d' _ after' _ _ _ h (by omega) hAfter hFound hInside
      (hAdmits.suffix hSuffix) hTokens' (by omega) hMatches
  | bodiless passed =>
    rw [ItemForm.read, bind_eq_ok] at h
    obtain ⟨rest, hSkip, h⟩ := h
    cases h
    obtain rfl : cs = [] := cs_eq_nil rfl hClasses
    have hSpares := hCovered.spares_of_nil
    cases hForm with
    | bodiless hWord hNot =>
      obtain ⟨-, hTokens⟩ := hKept.rest (not_opens_of_text hWord (by decide))
      obtain ⟨own, hOwn⟩ := skip_suffix hSkip
      obtain rfl : taken = t :: (ts.takeWhile inNamespaceName ++ own) := by
        refine taken_of_tail hTaken ?_
        rw [List.append_assoc, hOwn, List.takeWhile_append_dropWhile]
      obtain ⟨-, hDrop⟩ := names_rewritten hTokens (hSpares.part fun u hu => by simp [hu])
      obtain ⟨rest', hSkip', hRest⟩ := skip_rewritten hAdmits.stubs hSkip hOwn.symm
        (hSpares.part fun u hu => by simp [hu]) hDrop
      rw [readItem_eq (IsItem.bodiless_rewritten hAdmits.stubs hWord hNot hText hDrop), ItemForm.read,
        hSkip']
      exact ⟨_, rfl, hRest, hMatches⟩
  | inlineSpace =>
    cases h
    cases hForm with
    | inlineSpace hWord hNext =>
      obtain ⟨-, hTokens⟩ := hKept.rest (not_opens_of_text hWord (by decide))
      have hNext' := (isIdentifier_head hAdmits.stubs hTokens (by decide)).trans hNext
      rw [readItem_eq (.inlineSpace (hText.trans hWord) hNext')]
      exact ⟨_, rfl, hTokens, hMatches⟩
  | shared form =>
    rw [ItemForm.read, bind_eq_ok] at h
    obtain ⟨⟨declared, reached⟩, hRead, h⟩ := h
    cases h
    rw [form.record_rest] at hTaken
    rw [form.record_classes] at hClasses
    have hAll : w.Covered taken cs (declared.methods ++ cs.flatMap (·.methods)) :=
      hCovered.mono fun m hm => List.mem_append_right _ hm
    have hForm' := hForm.shared_rewritten hRead hTaken hClasses hAll hAdmits hKept
    obtain ⟨⟨declared', reached'⟩, hRead', -, hLater, hMatches'⟩ := Form.read_rewritten
      (readBody_follows n) readBody_sound hForm.starts hRead hTaken hClasses hAll hAdmits hKept hLength'
      hMatches
    rw [readItem_eq hForm', ItemForm.read, hRead']
    refine ⟨form.record scope declared' reached', rfl, ?_, ?_⟩
    · rw [form.record_rest, form.record_rest]
      exact hLater
    · exact hMatches'.of_classes (form.record_classes ..) (form.record_classes ..)

theorem ScopePart.starts_rewritten {t t' : Token} (hToken : t.unplaced = t'.unplaced)
    {part : ScopePart} (h : part.Starts t) : part.Starts t' := by
  cases part <;> simpa only [ScopePart.Starts, isPunctuation_of_alike hToken] using h

structure ScopeBefore (w : Rewrite) (Added : List Token → Prop) (d d' : Declarations)
    (ts us taken : List Token) (cs : List Class) (r : Reached) : Prop where
  cut : ts = taken ++ r.rest
  classes : r.declarations.classes = d.classes ++ cs
  covered : w.Covered taken cs (cs.flatMap (·.methods))
  admits : w.Admits Added ts
  tokens : Rewritten w Nested Added ts us
  declarations : d.Matches w d'

def ScopesFollow (w : Rewrite) (Added : List Token → Prop) (n : Nat) : Prop :=
  ∀ (steps : Nat) (scope : Scope) (opener? opener'? : Option Token) (d d' : Declarations)
    (ts us taken : List Token) (cs : List Class) (r : Reached),
    readScope steps scope opener? d ts = .ok r → ts.length < steps →
    ScopeBefore w Added d d' ts us taken cs r → us.length < n → opener'?.isSome = opener?.isSome →
    ∃ r', readScope n scope opener'? d' us = .ok r' ∧ Rewritten w Nested Added r.rest r'.rest ∧
      r.declarations.Matches w r'.declarations

theorem ScopesFollow.follows {steps n : Nat} (h : ScopesFollow w Added n) :
    ScopeReader.Follows w Added steps n
      (fun scope opener d ts => readScope steps scope (some opener) d ts)
      (fun scope opener d ts => readScope n scope (some opener) d ts) := by
  intro scope opener opener' d d' ts us taken cs r hRead hLength hTaken hClasses hCovered hAdmits
    hTokens hLength' hMatches
  exact h steps scope (some opener) (some opener') d d' ts us taken cs r hRead hLength
    ⟨hTaken, hClasses, hCovered, hAdmits, hTokens, hMatches⟩ hLength' rfl

section

variable {steps n : Nat} {scope : Scope} {opener? opener'? : Option Token} {t t' : Token}
  {ts us taken : List Token} {cs : List Class} {r : Reached}

theorem ScopesFollow.inserted (hFollow : ScopesFollow w Added n)
    (h : readScope steps scope opener? d (w.keyword :: ts) = .ok r)
    (hLength : (w.keyword :: ts).length < steps) {added : List Token} (hAdd : Added added)
    (hBefore : ScopeBefore w Added d d' (w.keyword :: ts) us taken cs r)
    (hLength' : (added ++ us).length ≤ n) (hOpener : opener'?.isSome = opener?.isSome) :
    ∃ r', readScope (n + 1) scope opener'? d' (added ++ us) = .ok r' ∧
      Rewritten w Nested Added r.rest r'.rest ∧ r.declarations.Matches w r'.declarations := by
  have hStub := hBefore.admits.stubs added hAdd
  obtain ⟨first, later, rfl, hFirst, hSemicolon, hOpen, hClose⟩ := hStub.exists_first
  have hPart : ScopePart.item.Starts first := ⟨hClose, hSemicolon, hOpen⟩
  obtain ⟨e, hSame, hItem⟩ := readItem_stub
    (fun scope opener d ts => readScope n scope (some opener) d ts) scope d' hStub hFirst
    (startsFresh_of_rewritten hBefore.admits.stubs hBefore.tokens)
  have hShorter : us.length < n := by
    simp only [List.length_append, List.length_cons] at hLength'
    omega
  rw [List.cons_append, readScope_eq hPart, ScopePart.read, hItem]
  exact hFollow steps scope opener? opener'? d e _ us taken cs r h hLength
    { hBefore with declarations := hBefore.declarations.of_classes rfl hSame } hShorter hOpener

theorem ScopesFollow.group (hFollow : ScopesFollow w Added n)
    (h : ScopePart.group.read steps scope opener? d t ts = .ok r) (hLength : ts.length < steps)
    (hToken : t.unplaced = t'.unplaced)
    (hBefore : ScopeBefore w Added d d' (t :: ts) (t' :: us) taken cs r) (hLength' : us.length < n)
    (hOpener : opener'?.isSome = opener?.isSome) :
    ∃ r', ScopePart.group.read n scope opener'? d' t' us = .ok r' ∧
      Rewritten w Nested Added r.rest r'.rest ∧ r.declarations.Matches w r'.declarations := by
  rw [ScopePart.read, bind_eq_ok] at h
  obtain ⟨⟨group, close, after⟩, hGroup, h⟩ := h
  obtain rfl := closeGroup_eq_ok hGroup
  have hFirst : Advances scope d (t :: (group ++ close :: after)) [] ⟨d, after⟩ :=
    .of_suffix scope ⟨t :: (group ++ [close]), by simp⟩ rfl
  obtain ⟨own, later, cs₁, cs₂, rfl, hOwn, hAfter, hNone, hFound, hSpares, hLater⟩ :=
    Advances.covered [] [] hFirst (readScope_advances h) hBefore.cut hBefore.classes hBefore.covered
      hBefore.admits.distinct
  obtain rfl : cs₁ = [] := cs_eq_nil rfl hNone
  obtain rfl : own = t :: (group ++ [close]) := by
    apply List.append_cancel_right
    rw [← hOwn]
    simp
  have hSpares := hSpares.spares_of_nil
  obtain ⟨_, _, hSame, -, hRest⟩ := hBefore.tokens.exists_cons (hSpares.part (by simp))
  obtain ⟨rfl, rfl⟩ := List.cons.inj hSame
  obtain ⟨group', close', after', rfl, -, -, hTokens', hGroup'⟩ :=
    closeGroup_rewritten hToken hGroup (hSpares.part (List.subset_cons_self t _)) hRest
  simp only [List.length_append, List.length_cons] at hLength hLength'
  have hShorter : after.length < steps := by omega
  have hShorter' : after'.length < n := by omega
  obtain ⟨r', hRead', hResult⟩ := hFollow steps scope opener? opener'? d d' after after' later cs₂ r h
    hShorter ⟨hAfter, hFound, hLater, hBefore.admits.suffix ⟨_, hOwn.symm⟩, hTokens',
      hBefore.declarations⟩ hShorter' hOpener
  rw [ScopePart.read, hGroup']
  exact ⟨r', hRead', hResult⟩

theorem ScopesFollow.item (hFollow : ScopesFollow w Added n)
    (h : ScopePart.item.read steps scope opener? d t ts = .ok r) (hLength : ts.length < steps)
    (hNot : t.isPunctuation "\x7d" = false) (hKept : Kept w Added t t' ts us)
    (hBefore : ScopeBefore w Added d d' (t :: ts) (t' :: us) taken cs r) (hLength' : us.length < n)
    (hOpener : opener'?.isSome = opener?.isSome) :
    ∃ r', ScopePart.item.read n scope opener'? d' t' us = .ok r' ∧
      Rewritten w Nested Added r.rest r'.rest ∧ r.declarations.Matches w r'.declarations := by
  rw [ScopePart.read, bind_eq_ok] at h
  obtain ⟨reached, hItem, h⟩ := h
  have hFirst := readItem_advances (fun _ _ _ _ _ hInner => readScope_advances hInner) hItem
  obtain ⟨own, later, cs₁, cs₂, rfl, hOwn, hLater, hFound, hFound', hCovers, hCovers'⟩ :=
    Advances.covered [] [] hFirst (readScope_advances h) hBefore.cut hBefore.classes hBefore.covered
      hBefore.admits.distinct
  obtain ⟨reached', hItem', hReached, hMatches⟩ := readItem_rewritten hFollow.follows
    (fun _ _ _ _ _ hInner => readScope_advances hInner) hItem hOwn hFound hCovers hBefore.admits hKept
    (Nat.le_of_lt hLength) (Nat.le_of_lt hLength') hBefore.declarations
  have hNot' : t'.isPunctuation "\x7d" = false := (isPunctuation_of_alike hKept.token _).trans hNot
  have hShorter : reached.rest.length ≤ ts.length :=
    (readItem_suffix_tail (fun _ _ _ _ _ hInner => readScope_suffix hInner) hItem hNot).length_le
  have hShorter' : reached'.rest.length ≤ us.length :=
    (readItem_suffix_tail (fun _ _ _ _ _ hInner => readScope_suffix hInner) hItem' hNot').length_le
  obtain ⟨r', hRead', hResult⟩ := hFollow steps scope opener? opener'? _ reached'.declarations _
    reached'.rest later cs₂ r h (by omega) ⟨hLater, hFound', hCovers',
      hBefore.admits.suffix ⟨own, hOwn.symm⟩, hReached, hMatches⟩ (by omega) hOpener
  rw [ScopePart.read, hItem']
  exact ⟨r', hRead', hResult⟩

end

/-- A scope is read as it was, with a step more for each function that is inserted. -/
theorem readScope_rewritten (n : Nat) : ScopesFollow w Added n := by
  induction n with
  | zero =>
    intro _ _ _ _ _ _ _ us _ _ _ _ _ _ hLength'
    exact absurd hLength' (Nat.not_lt_zero us.length)
  | succ n ih =>
    intro steps scope opener? opener'? d d' ts us taken cs r h hLength hBefore hLength' hOpener
    have hRead := h
    obtain ⟨steps, rfl⟩ := Nat.exists_eq_succ_of_ne_zero (Nat.ne_zero_of_lt hLength)
    cases ts with
    | nil =>
      obtain rfl := hBefore.tokens.eq_nil
      unfold readScope at h ⊢
      cases opener? with
      | some opener => cases h
      | none =>
        obtain rfl : opener'? = none := by simpa using hOpener
        cases h
        exact ⟨⟨d', []⟩, rfl, .nil, hBefore.declarations⟩
    | cons t ts =>
      rcases inserted_or_kept hBefore.tokens with
        ⟨rfl, added, us, hAdd, rfl, hTokens⟩ | ⟨t', us, rfl, hKept⟩
      · exact ih.inserted hRead hLength hAdd { hBefore with tokens := hTokens }
          (Nat.le_of_lt_succ hLength') hOpener
      · have hShorter : ts.length < steps := Nat.lt_of_succ_lt_succ hLength
        have hShorter' : us.length < n := Nat.lt_of_succ_lt_succ hLength'
        obtain ⟨part, hPart⟩ := ScopePart.exists_starts t
        rw [readScope_eq hPart] at h
        rw [readScope_eq (ScopePart.starts_rewritten hKept.token hPart)]
        cases part with
        | close =>
          have hClose : t.isPunctuation "\x7d" = true := hPart
          rw [ScopePart.read] at h
          split at h
          · next hSome =>
            cases h
            obtain ⟨-, hRest⟩ := hKept.rest (by simp [Token.isPunctuation_eq_decide hClose])
            rw [ScopePart.read, if_pos (hOpener.trans hSome)]
            exact ⟨_, rfl, hRest, hBefore.declarations⟩
          · cases h
        | semicolon =>
          obtain ⟨-, hRest⟩ := hKept.rest (by simp [Token.isPunctuation_eq_decide hPart.2])
          obtain ⟨own, _, hOwn, -⟩ := readScope_advances h
          obtain rfl : taken = t :: own := taken_of_tail hBefore.cut hOwn
          exact ih steps scope opener? opener'? d d' ts us own cs r h hShorter
            ⟨hOwn, hBefore.classes, hBefore.covered.subset (List.subset_cons_self t own),
              hBefore.admits.suffix (List.suffix_cons t ts), hRest, hBefore.declarations⟩ hShorter' hOpener
        | group => exact ih.group h hShorter hKept.token hBefore hShorter' hOpener
        | item => exact ih.item h hShorter hPart.1 hKept hBefore hShorter' hOpener

/-- Rewritten tokens declare the classes that they declared, if the class of the keyword is one of
them and the bodies are bodies of its methods. -/
theorem read_rewritten {files files' : List Source.File} {ts us : List Token} {d : Declarations}
    {c : Class} (h : read files ts = .ok d) (hClass : c ∈ d.classes) (hStarts : c.StartsAt w.keyword)
    (hBodies : ∀ b ∈ w.bodies, ∃ m ∈ c.methods, m.body? = some b) (hAdmits : w.Admits Added ts)
    (hTokens : Rewritten w Nested Added ts us) :
    ∃ d', read files' us = .ok d' ∧ d.Matches w d' := by
  unfold read at h ⊢
  split at h
  · next reached hScope =>
    cases h
    obtain ⟨taken, found, hTaken, hFound, -⟩ := readScope_advances hScope
    have hCs : reached.declarations.classes = found.map Prod.snd := hFound
    have hCovered : w.Covered taken (found.map Prod.snd)
        ((found.map Prod.snd).flatMap (·.methods)) := by
      rw [hCs] at hClass
      refine ⟨fun _ => ⟨c, hClass, hStarts⟩, fun b hb _ _ _ => ?_⟩
      obtain ⟨m, hm, hBody⟩ := hBodies b hb
      exact ⟨m, List.mem_flatMap.mpr ⟨c, hClass, hm⟩, hBody⟩
    have hEmpty : Declarations.empty.Matches w Declarations.empty := by
      unfold Declarations.Matches
      exact .nil
    obtain ⟨reached', hScope', -, hMatches⟩ := readScope_rewritten (us.length + 1) (ts.length + 1) []
      none none _ _ ts us taken _ reached hScope (Nat.lt_succ_self _)
      ⟨hTaken, hFound, hCovered, hAdmits, hTokens, hEmpty⟩ (Nat.lt_succ_self _) rfl
    rw [hScope']
    exact ⟨_, rfl, hMatches⟩
  · cases h

end Declaration

end SkeletonWeave
