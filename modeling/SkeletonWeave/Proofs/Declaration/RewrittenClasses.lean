import SkeletonWeave.Proofs.Declaration.Redeclared

/-!
# Classes among rewritten tokens

A class keeps its name, and the class before whose keyword functions are
inserted keeps its methods.
-/

set_option autoImplicit false

namespace SkeletonWeave

open Declarator (Declared Member)
open Token (Alike Nested IsStub unplaced isPunctuation_of_alike)

/-- Whether classes start, and methods have their bodies, among some tokens. -/
structure Grounded (ts : List Token) (cs : List Class) (ms : List Method) : Prop where
  classes : ∀ c ∈ cs, ∃ t ∈ ts, c.StartsAt t
  methods : ∀ m ∈ ms, ∀ b, m.body? = some b → ∃ t ∈ ts, t.span = b.opening

theorem Grounded.none (ts : List Token) : Grounded ts [] [] := ⟨by simp, by simp⟩

theorem Grounded.mono {ts us : List Token} {cs : List Class} {ms : List Method} (h : Grounded ts cs ms)
    (hPart : ts ⊆ us) : Grounded us cs ms where
  classes := by
    intro c hc
    obtain ⟨t, ht, hStarts⟩ := h.classes c hc
    exact ⟨t, hPart ht, hStarts⟩
  methods := by
    intro m hm b hBody
    obtain ⟨t, ht, hOpening⟩ := h.methods m hm b hBody
    exact ⟨t, hPart ht, hOpening⟩

theorem opening_of_braces {ms : List Method} {spans : List Source.Span}
    (h : (ms.flatMap (·.braces)).Sublist spans) {m : Method} (hm : m ∈ ms) {b : Source.Body}
    (hBody : m.body? = some b) : b.opening ∈ spans := by
  refine h.subset (List.mem_flatMap.mpr ⟨m, hm, ?_⟩)
  rw [Method.braces, hBody]
  exact List.mem_cons_self

theorem Declaration.Outline.grounded {scope : Declaration.Scope} {found : List (Declaration.Scope × Class)}
    {taken : List Token} (h : Outline scope found taken) {ms : List Method}
    (hBraces : (ms.flatMap (·.braces)).Sublist (taken.map (·.span))) :
    Grounded taken (found.map Prod.snd) (ms ++ (found.map Prod.snd).flatMap (·.methods)) := by
  have hStands {c : Class} (hc : c ∈ found.map Prod.snd) :
      (∃ t ∈ taken, c.StartsAt t) ∧
        (c.methods.flatMap (·.braces)).Sublist (taken.map (·.span)) := by
    obtain ⟨keyword, inside, close, hTaken, before, after, rfl⟩ := h.found.placed.standsIn c hc
    obtain ⟨-, hSpan, -, hSublist⟩ := spans_of_takenFrom hTaken
    refine ⟨⟨keyword, by simp, by rw [hSpan], by rw [hSpan]⟩, hSublist.trans ?_⟩
    have hInside : inside <:+: before ++ keyword :: (inside ++ [close]) ++ after :=
      ⟨before ++ [keyword], [close] ++ after, by simp⟩
    exact hInside.sublist.map _
  refine ⟨fun c hc => (hStands hc).1, fun m hm b hBody => ?_⟩
  rcases List.mem_append.mp hm with hm | hm
  · exact List.mem_map.mp (opening_of_braces hBraces hm hBody)
  · obtain ⟨c, hc, hm⟩ := List.mem_flatMap.mp hm
    exact List.mem_map.mp (opening_of_braces (hStands hc).2 hm hBody)

theorem Declaration.Outline.grounded_self {scope : Declaration.Scope}
    {found : List (Declaration.Scope × Class)} {taken : List Token} (h : Outline scope found taken) :
    Grounded taken (found.map Prod.snd) ((found.map Prod.snd).flatMap (·.methods)) := by
  have hNone : (([] : List Method).flatMap (·.braces)).Sublist (taken.map (·.span)) :=
    List.nil_sublist _
  simpa using h.grounded hNone

theorem Rewrite.Covered.split {w : Rewrite} {ts us : List Token} {cs ds : List Class}
    {ms ns own : List Method} (h : w.Covered (ts ++ us) (cs ++ ds) own)
    (hDistinct : Token.Distinct (ts ++ us)) (hFirst : Grounded ts cs ms)
    (hSecond : Grounded us ds ns) (hOwn : ∀ m ∈ own, m ∈ ms ∨ m ∈ ns) :
    w.Covered ts cs ms ∧ w.Covered us ds ns := by
  constructor
  · refine h.restrict (List.subset_append_left ts us) hDistinct.apart ?_ ?_
    · intro c hc
      exact (List.mem_append.mp hc).imp_right (hSecond.classes c)
    · intro m hm
      exact (hOwn m hm).imp_right (hSecond.methods m)
  · refine h.restrict (List.subset_append_right ts us)
      (fun t ht u hu => (hDistinct.apart u hu t ht).symm) ?_ ?_
    · intro c hc
      exact (List.mem_append.mp hc).symm.imp_right (hFirst.classes c)
    · intro m hm
      exact (hOwn m hm).symm.imp_right (hFirst.methods m)

theorem Rewrite.Covered.inside {w : Rewrite} {keyword : Token} {head inside last : List Token}
    {c : Class} {cs : List Class} {ms own : List Method}
    (h : w.Covered (keyword :: (head ++ inside ++ last)) (cs ++ [c]) own)
    (hDistinct : Token.Distinct (keyword :: (head ++ inside ++ last))) (hStarts : c.StartsAt keyword)
    (hInside : Grounded inside cs ms) (hOwn : ∀ m ∈ own, m ∈ ms) :
    w.Spares head ∧ w.Covered inside cs ms := by
  have hTurned : w.Covered ([keyword] ++ (head ++ inside ++ last)) ([c] ++ cs) own := by
    refine ⟨fun hMem => ?_, h.bodies⟩
    obtain ⟨c', hc, hStarts⟩ := h.keyword hMem
    exact ⟨c', List.mem_append.mpr (List.mem_append.mp hc).symm, hStarts⟩
  have hFirst : Grounded [keyword] [c] [] := ⟨by simpa using hStarts, by simp⟩
  have hRest : Grounded (head ++ inside ++ last) cs ms := hInside.mono fun t ht => by simp [ht]
  obtain ⟨-, hBody⟩ := hTurned.split hDistinct hFirst hRest fun m hm => .inr (hOwn m hm)
  have hParts : w.Covered (head ++ inside) ([] ++ cs) ms := hBody.subset (List.subset_append_left _ last)
  obtain ⟨hHead, hCovered⟩ := hParts.split
    (hDistinct.part ((List.sublist_append_left _ last).cons keyword)) (.none head) hInside
    fun m hm => .inr hm
  exact ⟨hHead.spares_of_nil, hCovered⟩

/-- Whether a rewriting of some tokens inserts functions only, and none between a `typedef` and its
class. -/
structure Rewrite.Admits (w : Rewrite) (Added : List Token → Prop) (ts : List Token) : Prop where
  stubs : ∀ added, Added added → IsStub added
  distinct : Token.Distinct ts
  typedefs : ∀ t, t.text = "typedef" → [t, w.keyword] <:+: ts → ∀ added, ¬Added added

theorem Rewrite.Admits.suffix {w : Rewrite} {Added : List Token → Prop} {ts us : List Token}
    (h : w.Admits Added ts) (hSuffix : us <:+ ts) : w.Admits Added us where
  stubs := h.stubs
  distinct := h.distinct.part hSuffix.sublist
  typedefs := fun t hText hPair => h.typedefs t hText (hPair.trans hSuffix.isInfix)

namespace Declaration

variable {w : Rewrite} {Added : List Token → Prop} {d d' : Declarations}

theorem Advances.covered (ms ns : List Method) {scope scope' : Scope} {ts taken : List Token}
    {cs : List Class} {reached r : Reached}
    (hFirst : Advances scope d ts (ms.flatMap (·.braces)) reached)
    (hLater : Advances scope' reached.declarations reached.rest (ns.flatMap (·.braces)) r)
    (hTaken : ts = taken ++ r.rest) (hClasses : r.declarations.classes = d.classes ++ cs)
    (hCovered : w.Covered taken cs (ms ++ ns ++ cs.flatMap (·.methods)))
    (hDistinct : Token.Distinct ts) :
    ∃ own later cs₁ cs₂, taken = own ++ later ∧ ts = own ++ reached.rest ∧
      reached.rest = later ++ r.rest ∧ reached.declarations.classes = d.classes ++ cs₁ ∧
      r.declarations.classes = reached.declarations.classes ++ cs₂ ∧
      w.Covered own cs₁ (ms ++ cs₁.flatMap (·.methods)) ∧
      w.Covered later cs₂ (ns ++ cs₂.flatMap (·.methods)) := by
  obtain ⟨own, found, hOwn, hFound, hOutline, hBraces⟩ := hFirst
  obtain ⟨later, found', hRest, hFound', hOutline', hBraces'⟩ := hLater
  obtain rfl : taken = own ++ later := by
    apply List.append_cancel_right
    rw [← hTaken, List.append_assoc, ← hRest]
    exact hOwn
  obtain rfl : cs = found.map Prod.snd ++ found'.map Prod.snd := by
    apply List.append_cancel_left
    rw [← hClasses, ← List.append_assoc, ← hFound]
    exact hFound'
  rw [hTaken] at hDistinct
  obtain ⟨hBefore, hAfter⟩ := hCovered.split
    (hDistinct.part (List.sublist_append_left _ r.rest)) (hOutline.grounded hBraces)
    (hOutline'.grounded hBraces') (by
      intro m hm
      simp only [List.mem_append, List.flatMap_append] at hm ⊢
      tauto)
  exact ⟨own, later, _, _, rfl, hOwn, hRest, hFound, hFound', hBefore, hAfter⟩

structure Body.Matches (w : Rewrite) (Added : List Token → Prop) (inside : List Token)
    (body body' : Body) : Prop where
  rest : Rewritten w Nested Added body.reached.rest body'.reached.rest
  declarations : body.reached.declarations.Matches w body'.reached.declarations
  methods : w.keyword ∉ inside →
    body.members.methods.map Method.signature = body'.members.methods.map Method.signature

/-- Whether a reader of bodies reads less than `n` rewritten tokens as another one read them. -/
def BodyReader.Follows (w : Rewrite) (Added : List Token → Prop) (n : Nat)
    (readBody readBody' : BodyReader) : Prop :=
  ∀ scope name access opener opener' d d' ts us inside cs body,
    readBody scope name access opener d ts = .ok body →
    ts = inside ++ body.close :: body.reached.rest →
    body.reached.declarations.classes = d.classes ++ cs →
    w.Covered inside cs (body.members.methods ++ cs.flatMap (·.methods)) →
    w.Admits Added ts → Rewritten w Nested Added ts us → us.length < n → d.Matches w d' →
    ∃ body', readBody' scope name access opener' d' us = .ok body' ∧
      body.Matches w Added inside body'

theorem className_alike {head head' : List Token} (h : Alike head head') :
    className head' = className head := by
  rw [← className_unplaced head', ← h, className_unplaced]

theorem splitDeclaration_first {t t' : Token} {ts us head rest : List Token}
    (h : splitDeclaration (t :: ts) = .ok (t :: head, rest)) (hToken : t.unplaced = t'.unplaced)
    (hSpares : w.Spares head) (hTokens : Rewritten w Nested Added ts us) :
    ∃ head' rest', us = head' ++ rest' ∧ Alike head head' ∧ Rewritten w Nested Added rest rest' ∧
      splitDeclaration (t' :: us) = .ok (t' :: head', rest') := by
  obtain ⟨-, rfl⟩ : t = t ∧ ts = head ++ rest := List.cons.inj (splitDeclaration_eq_ok h)
  rw [splitDeclaration, Extent.split_cons] at h
  cases hNext : Extent.start.next? t with
  | none =>
    rw [hNext] at h
    cases h
  | some next =>
    obtain ⟨next', hNext', hSame⟩ := Extent.exists_next?_of_alike rfl hToken hNext
    have hPassed : next.passed.reverse = [t] := by
      rw [Extent.next?_passed hNext]
      rfl
    have hSplit : next.split (head ++ rest) = .ok (next.passed.reverse ++ head, rest) := by
      rw [hNext] at h
      rw [hPassed]
      exact h
    obtain ⟨head', rest', hUs, hHead, hRest, hSplit'⟩ :=
      Extent.split_rewritten hSame hSpares hSplit hTokens
    refine ⟨head', rest', hUs, hHead, hRest, ?_⟩
    rw [splitDeclaration, Extent.split_cons, hNext']
    simp only
    rw [hSplit', Extent.next?_passed hNext']
    rfl

theorem readClass_rewritten {n : Nat} {readBody readBody' : BodyReader}
    (hBody : BodyReader.Follows w Added n readBody readBody') (hSound : readBody.Sound)
    {scope : Scope} {keyword keyword' opener : Token} {head whole ts us taken : List Token}
    {cs : List Class} {r : Reached}
    (hSplit : splitDeclaration (keyword :: whole) = .ok (keyword :: head, opener :: ts))
    (h : readClass readBody scope d keyword head opener ts = .ok r) (hTaken : ts = taken ++ r.rest)
    (hClasses : r.declarations.classes = d.classes ++ cs)
    (hCovered : w.Covered (keyword :: (head ++ opener :: taken)) cs (cs.flatMap (·.methods)))
    (hAdmits : w.Admits Added (keyword :: whole)) (hKeyword : keyword.unplaced = keyword'.unplaced)
    (hTokens : Rewritten w Nested Added whole us) (hLength : us.length ≤ n) (hMatches : d.Matches w d') :
    ∃ head' opener' us' r',
      splitDeclaration (keyword' :: us) = .ok (keyword' :: head', opener' :: us') ∧
      Alike head head' ∧ opener.unplaced = opener'.unplaced ∧
      readClass readBody' scope d' keyword' head' opener' us' = .ok r' ∧
      Rewritten w Nested Added r.rest r'.rest ∧ r.declarations.Matches w r'.declarations := by
  obtain ⟨-, hWhole⟩ : keyword = keyword ∧ whole = head ++ opener :: ts :=
    List.cons.inj (splitDeclaration_eq_ok hSplit)
  obtain ⟨body, hRead, rfl⟩ := readClass_eq_ok_iff.mp h
  obtain ⟨-, more, hMethods, inside, found, hInside, hFound, hOutline, hBraces⟩ :=
    hSound _ _ _ _ _ _ _ hRead
  rw [List.nil_append] at hMethods
  obtain rfl : taken = inside ++ [body.close] := by
    apply List.append_cancel_right
    rw [← hTaken, hInside, List.append_assoc]
    rfl
  obtain rfl : cs = found.map Prod.snd ++ [classFrom scope keyword head body] := by
    apply List.append_cancel_left
    rw [← List.append_assoc, ← hClasses]
    exact congrArg (· ++ [_]) hFound
  have hDistinct := hAdmits.distinct
  rw [hWhole] at hDistinct
  have hParts : keyword :: (head ++ opener :: (inside ++ [body.close])) =
      keyword :: (head ++ [opener] ++ inside ++ [body.close]) := by simp
  have hPart : (keyword :: (head ++ [opener] ++ inside ++ [body.close])).Sublist
      (keyword :: (head ++ opener :: ts)) := by
    rw [hInside]
    exact List.IsPrefix.sublist ⟨body.reached.rest, by simp⟩
  rw [hParts] at hCovered
  obtain ⟨hSpares, hInner⟩ := hCovered.inside (hDistinct.part hPart) ⟨rfl, rfl⟩
    (hOutline.grounded hBraces) fun m hm => by
      rw [List.flatMap_append, List.flatMap_singleton, List.mem_append] at hm
      rw [← hMethods]
      exact List.mem_append.mpr hm.symm
  rw [← hMethods] at hInner
  obtain ⟨head', rest', rfl, hHead, hRest, hSplit'⟩ :=
    splitDeclaration_first hSplit hKeyword (hSpares.part (List.subset_append_left _ _)) hTokens
  obtain ⟨opener', us', rfl, hOpener, hAfter⟩ := hRest.exists_cons (hSpares.part (by simp))
  have hTs : w.Admits Added ts := hAdmits.suffix ⟨keyword :: head ++ [opener], by simp [hWhole]⟩
  simp only [List.length_append, List.length_cons] at hLength
  obtain ⟨body', hRead', hBodies⟩ := hBody _ _ _ _ opener' _ d' _ us' _ _ _ hRead hInside hFound hInner
    hTs hAfter (by omega) hMatches
  refine ⟨head', opener', us', _, hSplit', hHead, hOpener, readClass_eq_ok_iff.mpr ⟨body', ?_, rfl⟩,
    hBodies.rest, ?_⟩
  · rw [className_alike hHead, classKind, Token.text_of_alike hKeyword]
    exact hRead'
  · refine hBodies.declarations.addClass ⟨?_, ?_, ?_, ?_⟩
    · exact (className_alike hHead).symm
    · exact congrArg scope.qualify (className_alike hHead).symm
    · exact (Token.file_of_alike hKeyword).symm
    · intro hStarts
      refine hBodies.methods fun hMem => ?_
      exact List.rel_of_pairwise_cons (hDistinct.part hPart) (by simp [hMem]) ⟨hStarts.1, hStarts.2⟩

theorem readClass_grounded {readBody : BodyReader} (hSound : readBody.Sound) {scope : Scope}
    {keyword opener : Token} {head ts : List Token} {r : Reached}
    (hWord : keyword.text = "class" ∨ keyword.text = "struct" ∨ keyword.text = "union")
    (h : readClass readBody scope d keyword head opener ts = .ok r) :
    ∃ taken cs c, ts = taken ++ r.rest ∧ r.declarations.classes = d.classes ++ (cs ++ [c]) ∧
      Grounded (keyword :: (head ++ opener :: taken)) (cs ++ [c])
        ((cs ++ [c]).flatMap (·.methods)) := by
  obtain ⟨inside, close, found, c, rfl, hClasses, hOutline, hTaken, hName⟩ :=
    readClass_eq_ok hSound hWord h
  have hGiven : NameGiven scope head [] c := .inl hName
  have hWhole := Outline.close hOutline hTaken hGiven
  refine ⟨inside ++ [close], found.map Prod.snd, c, by simp, by simp [hClasses], ?_⟩
  simpa using hWhole.grounded_self

theorem definesType_rewritten (hAdded : ∀ added, Added added → IsStub added)
    {head head' rest rest' : List Token} (hHead : Alike head head')
    (hRest : Rewritten w Nested Added rest rest') (h : DefinesType head' rest') : DefinesType head rest := by
  obtain ⟨keyword', inner', brace', after', rfl, rfl, hWord, hBrace⟩ := h
  cases head with
  | nil => cases hHead
  | cons keyword inner =>
    cases rest with
    | nil => cases hRest.eq_nil
    | cons brace after =>
      obtain ⟨_, _, hSame, hMark⟩ := hRest.isPunctuation_head hAdded "\x7b" (by simp)
      obtain ⟨rfl, rfl⟩ := List.cons.inj hSame
      obtain ⟨hKeyword, -⟩ := List.cons.inj hHead
      refine ⟨keyword, inner, brace, after, rfl, rfl, ?_, hMark.symm.trans hBrace⟩
      rw [← Token.isOneOf_unplaced, hKeyword, Token.isOneOf_unplaced]
      exact hWord

theorem cs_eq_nil {cs : List Class} {r : Reached} (hSame : r.declarations.classes = d.classes)
    (hClasses : r.declarations.classes = d.classes ++ cs) : cs = [] := by
  rw [hSame] at hClasses
  simpa using hClasses

theorem exists_first {t : Token} {ts us : List Token} (h : Rewritten w Nested Added (t :: ts) us)
    (hBrace : t.isPunctuation "\x7b" = false) (hNone : t = w.keyword → ∀ added, ¬Added added) :
    ∃ t' us', us = t' :: us' ∧ t.unplaced = t'.unplaced ∧ (∀ b ∈ w.bodies, t.span ≠ b.opening) ∧
      Rewritten w Nested Added ts us' := by
  cases h with
  | keep hAlike hNot hRest => exact ⟨_, _, rfl, hAlike, hNot, hRest⟩
  | body _ _ _ hOpen =>
    rw [hBrace] at hOpen
    cases hOpen
  | insert hStub => exact absurd hStub (hNone rfl _)

theorem foldl_classes_of_enum {scope : Scope} {a : Aliasing} {ts : List Token} {r : Reached}
    (h : readAliases scope true a ts = .ok r) :
    r.declarations.classes = a.declarations.classes := by
  unfold readAliases at h
  rw [bind_eq_ok] at h
  obtain ⟨⟨declarators, rest⟩, -, h⟩ := h
  cases h
  exact foldl_readAlias_enum scope _ a

theorem covered_of_renamed {scope : Scope} {ts taken : List Token} {cs : List Class} {c c' : Class}
    (hRenamed : Renamed scope ts c c')
    (h : w.Covered taken (cs ++ [c']) ((cs ++ [c']).flatMap (·.methods))) :
    w.Covered taken (cs ++ [c]) ((cs ++ [c]).flatMap (·.methods)) := by
  rcases hRenamed with rfl | ⟨t, -, -, rfl⟩
  · exact h
  · refine ⟨fun hMem => ?_, fun b hb u hu hOpening => ?_⟩
    · obtain ⟨own, hOwn, hStarts⟩ := h.keyword hMem
      rcases List.mem_append.mp hOwn with hOwn | hOwn
      · exact ⟨own, List.mem_append_left _ hOwn, hStarts⟩
      · rw [List.mem_singleton.mp hOwn] at hStarts
        exact ⟨c, List.mem_append_right _ (List.mem_singleton_self c), hStarts⟩
    · have hBodies := h.bodies b hb u hu hOpening
      rw [List.flatMap_append, List.flatMap_singleton] at hBodies ⊢
      exact hBodies

theorem exists_keyword_of_typedef {t keyword : Token} {ts us : List Token} (hText : t.text = "typedef")
    (hWord : keyword.isOneOf Words.classLike = true) (hAdmits : w.Admits Added (t :: keyword :: ts))
    (hTokens : Rewritten w Nested Added (keyword :: ts) us) :
    ∃ keyword' us', us = keyword' :: us' ∧ keyword.unplaced = keyword'.unplaced ∧
      Rewritten w Nested Added ts us' := by
  have hKind : keyword.isPunctuation "\x7b" = false := by
    rw [Token.isOneOf, Bool.and_eq_true, beq_iff_eq] at hWord
    simp [Token.isPunctuation, hWord.1]
  obtain ⟨keyword', us', rfl, hKeyword, -, hRest⟩ := exists_first hTokens hKind (by
    rintro rfl
    exact hAdmits.typedefs t hText ⟨[], ts, rfl⟩)
  exact ⟨keyword', us', rfl, hKeyword, hRest⟩

section

variable {n : Nat} {readBody readBody' : BodyReader} {scope : Scope} {t keyword brace : Token}
  {ts us inner after taken : List Token} {cs : List Class} {r : Reached}

theorem readTypedef_enum_rewritten (hText : t.text = "typedef")
    (hSplit : splitDeclaration ts = .ok (keyword :: inner, brace :: after))
    (hWord : keyword.isOneOf Words.classLike = true) (hBrace : brace.isPunctuation "\x7b" = true)
    (hEnum : keyword.isIdentifier "enum" = true) {body later : List Token} {close : Token}
    (hGroup : closeGroup brace after = .ok (body, close, later))
    (hAliases : readAliases scope true
      ⟨d, (inner.reverse.find? fun t => t.kind == .identifier).map (·.text)⟩ later = .ok r)
    (hTaken : ts = taken ++ r.rest) (hSpares : w.Spares taken) (hAdmits : w.Admits Added (t :: ts))
    (hTokens : Rewritten w Nested Added ts us) (hMatches : d.Matches w d') :
    ∃ r', readTypedef readBody' scope d' us = .ok r' ∧ Rewritten w Nested Added r.rest r'.rest ∧
      r.declarations.Matches w r'.declarations := by
  obtain rfl : ts = keyword :: (inner ++ brace :: after) := splitDeclaration_eq_ok hSplit
  obtain rfl := closeGroup_eq_ok hGroup
  obtain ⟨aliases, _, hAliasesTaken, -⟩ := readAliases_enum hAliases
  have hRest : later = aliases ++ r.rest := hAliasesTaken
  obtain rfl : taken = keyword :: (inner ++ brace :: (body ++ close :: aliases)) := by
    apply List.append_cancel_right
    rw [← hTaken, hRest]
    simp
  obtain ⟨keyword', us', rfl, hKeyword, hTokens⟩ := exists_keyword_of_typedef hText hWord hAdmits hTokens
  obtain ⟨inner', rest', rfl, hInner, hTokens, hSplit'⟩ :=
    splitDeclaration_first hSplit hKeyword (hSpares.part fun u hu => by simp [hu]) hTokens
  obtain ⟨brace', us', rfl, hBraceAlike, hTokens⟩ := hTokens.exists_cons (hSpares.part (by simp))
  obtain ⟨body', close', later', rfl, -, -, hLater, hGroup'⟩ :=
    closeGroup_rewritten hBraceAlike hGroup (hSpares.part fun u hu => by
      rcases List.mem_append.mp hu with hu | hu
      · simp [hu]
      · simp [List.mem_singleton.mp hu]) hTokens
  have hAliasing : Aliasing.Matches w
      ⟨d, (inner.reverse.find? fun t => t.kind == .identifier).map (·.text)⟩
      ⟨d', (inner'.reverse.find? fun t => t.kind == .identifier).map (·.text)⟩ :=
    ⟨hMatches, lastName_alike hInner⟩
  obtain ⟨r', hAliases', hResult⟩ := readAliases_rewritten hAdmits.stubs hAliases hRest
    (hSpares.part fun u hu => by simp [hu]) hLater hAliasing
  rw [readTypedef_enum readBody' scope d' hSplit' ((Token.isOneOf_of_alike hKeyword _).trans hWord)
    ((isPunctuation_of_alike hBraceAlike _).trans hBrace)
    ((Token.isIdentifier_of_alike hKeyword _).trans hEnum), hGroup']
  exact ⟨r', hAliases', hResult⟩

theorem readTypedef_class_rewritten (hBody : BodyReader.Follows w Added n readBody readBody')
    (hSound : readBody.Sound) (hText : t.text = "typedef")
    (hSplit : splitDeclaration ts = .ok (keyword :: inner, brace :: after))
    (hWord : keyword.isOneOf Words.classLike = true) (hBrace : brace.isPunctuation "\x7b" = true)
    (hEnum : keyword.isIdentifier "enum" = false) {reached : Reached}
    (hClass : readClass readBody scope d keyword inner brace after = .ok reached)
    (hAliases : readAliases scope false
      ⟨reached.declarations, if className inner = "" then none else some (className inner)⟩
      reached.rest = .ok r)
    (hTaken : ts = taken ++ r.rest) (hClasses : r.declarations.classes = d.classes ++ cs)
    (hCovered : w.Covered taken cs (cs.flatMap (·.methods))) (hAdmits : w.Admits Added (t :: ts))
    (hTokens : Rewritten w Nested Added ts us) (hLength : us.length ≤ n) (hMatches : d.Matches w d') :
    ∃ r', readTypedef readBody' scope d' us = .ok r' ∧ Rewritten w Nested Added r.rest r'.rest ∧
      r.declarations.Matches w r'.declarations := by
  obtain rfl : ts = keyword :: (inner ++ brace :: after) := splitDeclaration_eq_ok hSplit
  obtain ⟨inside, found, c, rfl, hFound, hGrounded⟩ :=
    readClass_grounded hSound (keyword_of_classLike hWord (by simp [hEnum])) hClass
  rw [← List.append_assoc] at hFound
  obtain ⟨aliases, c', hRest, hClasses', hRenamed, -⟩ := readAliases_class hFound hAliases
  obtain rfl : cs = found ++ [c'] := by
    apply List.append_cancel_left
    rw [← hClasses, hClasses', List.append_assoc]
  obtain rfl : taken = keyword :: (inner ++ brace :: inside) ++ aliases := by
    apply List.append_cancel_right
    rw [← hTaken, hRest]
    simp
  have hAfter := hAdmits.suffix (List.suffix_cons t _)
  have hDistinct : Token.Distinct (keyword :: (inner ++ brace :: inside) ++ aliases) :=
    hAfter.distinct.part (by rw [hTaken]; exact List.sublist_append_left _ _)
  obtain ⟨hOwn, hLater⟩ := Rewrite.Covered.split
    (by rw [List.append_nil]; exact covered_of_renamed hRenamed hCovered) hDistinct hGrounded
    (Grounded.none aliases) (fun m hm => .inl hm)
  obtain ⟨keyword', us', rfl, hKeyword, hTokens⟩ := exists_keyword_of_typedef hText hWord hAdmits hTokens
  simp only [List.length_cons] at hLength
  obtain ⟨head', brace', after', reached', hSplit', hHead, hBraceAlike, hClass', hRest', hReached⟩ :=
    readClass_rewritten hBody hSound hSplit hClass rfl (by rw [hFound, List.append_assoc]) hOwn hAfter
      hKeyword hTokens (by omega) hMatches
  have hAliasing : Aliasing.Matches w
      ⟨reached.declarations, if className inner = "" then none else some (className inner)⟩
      ⟨reached'.declarations, if className head' = "" then none else some (className head')⟩ :=
    ⟨hReached, by rw [className_alike hHead]⟩
  obtain ⟨r', hAliases', hResult⟩ :=
    readAliases_rewritten hAdmits.stubs hAliases hRest hLater.spares_of_nil hRest' hAliasing
  rw [readTypedef_class readBody' scope d' hSplit' ((Token.isOneOf_of_alike hKeyword _).trans hWord)
    ((isPunctuation_of_alike hBraceAlike _).trans hBrace)
    ((Token.isIdentifier_of_alike hKeyword _).trans hEnum), hClass']
  exact ⟨r', hAliases', hResult⟩

theorem readTypedef_rewritten (hBody : BodyReader.Follows w Added n readBody readBody')
    (hSound : readBody.Sound) (hText : t.text = "typedef")
    (h : readTypedef readBody scope d ts = .ok r) (hTaken : ts = taken ++ r.rest)
    (hClasses : r.declarations.classes = d.classes ++ cs)
    (hCovered : w.Covered taken cs (cs.flatMap (·.methods)))
    (hAdmits : w.Admits Added (t :: ts)) (hTokens : Rewritten w Nested Added ts us)
    (hLength : us.length ≤ n) (hMatches : d.Matches w d') :
    ∃ r', readTypedef readBody' scope d' us = .ok r' ∧ Rewritten w Nested Added r.rest r'.rest ∧
      r.declarations.Matches w r'.declarations := by
  cases fromTypedef_of_read h with
  | enum hSplit hWord hBrace hEnum hGroup hAliases =>
    obtain rfl := cs_eq_nil (foldl_classes_of_enum hAliases) hClasses
    exact readTypedef_enum_rewritten hText hSplit hWord hBrace hEnum hGroup hAliases hTaken
      hCovered.spares_of_nil hAdmits hTokens hMatches
  | classLike hSplit hWord hBrace hEnum hClass hAliases =>
    exact readTypedef_class_rewritten hBody hSound hText hSplit hWord hBrace hEnum hClass hAliases hTaken
      hClasses hCovered hAdmits hTokens hLength hMatches
  | @names head rest hSplit hNot =>
    obtain ⟨semis, hSemis⟩ := dropSemicolon_suffix rest
    have hBoth : taken = head ++ semis := by
      apply List.append_cancel_right
      rw [← hTaken, List.append_assoc, hSemis, splitDeclaration_eq_ok hSplit]
    obtain rfl := cs_eq_nil (classes_foldl (fun _ _ => addTypedef_classes ..) _ d) hClasses
    obtain ⟨head', rest', -, hHead, hRest, hSplit'⟩ :=
      splitDeclaration_rewritten hSplit (hCovered.spares_of_nil.part (by simp [hBoth])) hTokens
    rw [readTypedef_plain readBody' scope d' hSplit' fun hDefines' =>
      hNot (definesType_rewritten hAdmits.stubs hHead hRest hDefines')]
    refine ⟨_, rfl, hRest.dropSemicolon hAdmits.stubs, hMatches.of_classes ?_ ?_⟩
    · exact classes_foldl (fun _ _ => addTypedef_classes ..) _ d
    · exact classes_foldl (fun _ _ => addTypedef_classes ..) _ d'

end

theorem definesClass_rewritten (hAdded : ∀ added, Added added → IsStub added)
    {head head' rest rest' : List Token} (hHead : Alike head head')
    (hRest : Rewritten w Nested Added rest rest') : definesClass head' rest' = definesClass head rest := by
  unfold definesClass
  rw [Token.any_of_alike (p := fun t => t.isPunctuation "(" || t.isPunctuation "=") (fun _ => rfl) hHead]
  cases rest with
  | nil => rw [hRest.eq_nil]
  | cons t rest =>
    obtain ⟨t', rest', rfl, hMark⟩ := hRest.isPunctuation_head hAdded "\x7b" (by simp)
    simp only [List.head?_cons, Option.any_some, hMark]

theorem leaveClass_rewritten (hAdded : ∀ added, Added added → IsStub added) {ts us later rest : List Token}
    (h : leaveClass ts = .ok rest) (hCut : ts = later ++ rest) (hSpares : w.Spares later)
    (hTokens : Rewritten w Nested Added ts us) :
    ∃ rest', leaveClass us = .ok rest' ∧ Rewritten w Nested Added rest rest' := by
  unfold leaveClass at h ⊢
  cases ts with
  | nil =>
    obtain rfl := hTokens.eq_nil
    exact skip_rewritten hAdded h hCut hSpares .nil
  | cons t ts =>
    obtain ⟨t', us', rfl, hMark⟩ := hTokens.isPunctuation_head hAdded ";" (by simp)
    have hSame : (t' :: us').head?.any (·.isPunctuation ";") = (t :: ts).head?.any (·.isPunctuation ";") :=
      hMark
    rw [hSame]
    split at h
    · next hSemicolon =>
      cases h
      have hOne : later = [t] := List.append_cancel_right hCut.symm
      rw [hOne] at hSpares
      obtain ⟨_, _, hCons, -, hRest⟩ := hTokens.exists_cons hSpares
      obtain ⟨rfl, rfl⟩ := List.cons.inj hCons
      exact ⟨us', if_pos hSemicolon, hRest⟩
    · next hSemicolon =>
      rw [if_neg hSemicolon]
      exact skip_rewritten hAdded h hCut hSpares hTokens

theorem readClassOrDeclaration_rewritten {n : Nat} {readBody readBody' : BodyReader}
    (hBody : BodyReader.Follows w Added n readBody readBody') (hSound : readBody.Sound)
    {scope : Scope} {member? : Option Member} {t t' : Token} {ts us taken : List Token}
    {cs : List Class} {result : Declared × Reached}
    (hWord : t.text = "class" ∨ t.text = "struct" ∨ t.text = "union")
    (h : readClassOrDeclaration readBody scope member? d t ts = .ok result)
    (hTaken : t :: ts = taken ++ result.2.rest)
    (hClasses : result.2.declarations.classes = d.classes ++ cs)
    (hCovered : w.Covered taken cs (result.1.methods ++ cs.flatMap (·.methods)))
    (hAdmits : w.Admits Added (t :: ts)) (hToken : t.unplaced = t'.unplaced)
    (hNot : ∀ b ∈ w.bodies, t.span ≠ b.opening) (hTokens : Rewritten w Nested Added ts us)
    (hLength : us.length ≤ n) (hMatches : d.Matches w d') :
    ∃ result', readClassOrDeclaration readBody' scope member? d' t' us = .ok result' ∧
      result.1.unplaced = result'.1.unplaced ∧ Rewritten w Nested Added result.2.rest result'.2.rest ∧
      result.2.declarations.Matches w result'.2.declarations := by
  cases fromKeyword_of_read hWord h with
  | @definition head after rest opener reached hSplit hDefines hClass hLeave =>
    have hCut : t :: ts = t :: head ++ opener :: after := splitDeclaration_eq_ok hSplit
    have hFirst : Advances scope d (t :: ts) [] reached := by
      rw [hCut]
      exact readClass_advances hSound hWord hClass
    have hSecond : Advances scope reached.declarations reached.rest [] ⟨reached.declarations, rest⟩ :=
      .of_suffix scope (leaveClass_suffix hLeave) rfl
    obtain ⟨own, later, cs₁, cs₂, rfl, hOwn, hLater, hFound, hNone, hCovers, hSpares⟩ :=
      Advances.covered [] [] hFirst hSecond hTaken hClasses hCovered hAdmits.distinct
    obtain rfl : cs₂ = [] := cs_eq_nil rfl hNone
    obtain ⟨inside, _, _, rfl, -⟩ := readClass_grounded hSound hWord hClass
    obtain rfl : own = t :: (head ++ opener :: inside) := by
      apply List.append_cancel_right
      rw [← hOwn, hCut]
      simp
    obtain ⟨head', opener', after', reached', hSplit', hHead, hOpener, hClass', hRest', hReached⟩ :=
      readClass_rewritten hBody hSound hSplit hClass rfl hFound hCovers hAdmits hToken hTokens hLength
        hMatches
    have hDefines' : definesClass (t' :: head') (opener' :: after') = true := by
      rw [← hDefines, definesClass, definesClass, List.head?_cons, List.head?_cons, Option.any_some,
        Option.any_some, isPunctuation_of_alike hOpener,
        Token.any_of_alike (p := fun t => t.isPunctuation "(" || t.isPunctuation "=") (fun _ => rfl)
          (.cons hToken hHead)]
    obtain ⟨rest', hLeave', hLast⟩ :=
      leaveClass_rewritten hAdmits.stubs hLeave hLater hSpares.spares_of_nil hRest'
    rw [readClassOrDeclaration_of_defines readBody' scope member? d' hSplit' hDefines', List.tail_cons,
      hClass']
    refine ⟨(.nothing, ⟨reached'.declarations, rest'⟩), ?_, rfl, hLast, hReached⟩
    rw [bind_eq_ok]
    refine ⟨reached', rfl, ?_⟩
    rw [hLeave']
    rfl
  | declaration hSplit hDefines hItem =>
    obtain rfl : cs = [] := by simpa using hClasses
    rw [List.flatMap_nil, List.append_nil] at hCovered
    have hWhole : Rewritten w Nested Added (t :: ts) (t' :: us) := .keep hToken hNot hTokens
    have hSpares := readDeclaration_spares hItem hTaken hCovered hAdmits.distinct hSplit
    obtain ⟨head', rest', -, hHead, hRest, hSplit'⟩ := splitDeclaration_rewritten hSplit hSpares hWhole
    obtain ⟨item', hItem', hLater, hDeclared⟩ :=
      readDeclaration_rewritten hAdmits.stubs hItem hTaken hCovered hAdmits.distinct hWhole
    have hNot' := (definesClass_rewritten hAdmits.stubs hHead hRest).trans hDefines
    rw [readClassOrDeclaration_of_not readBody' scope member? d' hSplit' hNot', hItem']
    exact ⟨_, rfl, hDeclared, hLater, hMatches⟩

end Declaration

end SkeletonWeave
