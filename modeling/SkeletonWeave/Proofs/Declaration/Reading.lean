import SkeletonWeave.Proofs.Declaration.Forms
import SkeletonWeave.Proofs.Declaration.Outline

/-!
# Reading keeps the layout

Each step of the reader takes tokens from the front and adds the classes that
stand among them, in the scope in which it reads. One invariant says this of
every reader, with the braces that a step keeps; an induction on the steps
carries it through nested bodies.
-/

set_option autoImplicit false

namespace SkeletonWeave.Declaration

open Declarator (Declared Member)

structure Found (cs : List Class) (ts : List Token) : Prop where
  placed : Placed cs ts
  named : ∀ c ∈ cs, c.NamedIn ts

namespace Found

theorem none (ts : List Token) : Found [] ts :=
  ⟨by simpa using Placed.none.pass ts, by simp⟩

theorem append {cs ds : List Class} {ts us : List Token} (h : Found cs ts) (h' : Found ds us) :
    Found (cs ++ ds) (ts ++ us) where
  placed := h.placed.append h'.placed
  named := by
    intro c hc
    rcases List.mem_append.mp hc with hc | hc
    · exact (h.named c hc).mono (List.subset_append_left ts us)
    · exact (h'.named c hc).mono (List.subset_append_right ts us)

/-- A class that may take its name from its head or from what follows its closing brace. -/
theorem close {cs : List Class} {c : Class} {head inside : List Token} {keyword opener last : Token}
    (after : List Token) (h : Found cs inside)
    (hTaken : c.TakenFrom (keyword :: (head ++ opener :: inside ++ [last])))
    (hName : c.NamedIn (head ++ after)) :
    Found (cs ++ [c]) (keyword :: ((head ++ opener :: inside) ++ last :: after)) where
  placed := by
    have hHead := (Found.none (head ++ [opener])).append h
    rw [List.nil_append, List.append_assoc, List.singleton_append] at hHead
    have hAdd := (Placed.none.add hHead.placed hTaken).pass after
    simpa using hAdd
  named := by
    intro d hd
    rcases List.mem_append.mp hd with hd | hd
    · refine (h.named d hd).mono ?_
      intro t ht
      simp [ht]
    · rw [List.mem_singleton.mp hd]
      refine hName.mono ?_
      intro t ht
      rcases List.mem_append.mp ht with ht | ht <;> simp [ht]

end Found

/-- Whether reading in a scope takes tokens from the front, adds the classes that stand among them,
and keeps some of their spans as braces. -/
def Advances (scope : Scope) (d : Declarations) (ts : List Token) (braces : List Source.Span)
    (r : Reached) : Prop :=
  ∃ taken found, ts = taken ++ r.rest ∧
    r.declarations.classes = d.classes ++ found.map Prod.snd ∧
    Outline scope found taken ∧ braces.Sublist (taken.map (·.span))

namespace Advances

variable {scope : Scope} {d : Declarations} {ts : List Token} {braces : List Source.Span}
  {r : Reached}

theorem of_suffix (scope : Scope) (hRest : r.rest <:+ ts)
    (hClasses : r.declarations.classes = d.classes) : Advances scope d ts [] r := by
  obtain ⟨taken, hTaken⟩ := hRest
  refine ⟨taken, [], hTaken.symm, ?_, .skipped scope taken, List.nil_sublist _⟩
  rw [hClasses, List.map_nil, List.append_nil]

theorem trans {braces' : List Source.Span} {r' : Reached} (h : Advances scope d ts braces r)
    (h' : Advances scope r.declarations r.rest braces' r') :
    Advances scope d ts (braces ++ braces') r' := by
  obtain ⟨taken, found, rfl, hClasses, hFound, hBraces⟩ := h
  obtain ⟨taken', found', hRest, hClasses', hFound', hBraces'⟩ := h'
  refine ⟨taken ++ taken', found ++ found', ?_, ?_, hFound.append hFound', ?_⟩
  · rw [hRest, List.append_assoc]
  · rw [hClasses', hClasses, List.append_assoc, List.map_append]
  · rw [List.map_append]
    exact hBraces.append hBraces'

theorem before {us : List Token} (hSuffix : us <:+ ts) (h : Advances scope d us braces r) :
    Advances scope d ts braces r := by
  have hFirst : Advances scope d ts [] ⟨d, us⟩ := of_suffix scope hSuffix rfl
  exact hFirst.trans h

theorem after {rest : List Token} (h : Advances scope d ts braces r) (hSuffix : rest <:+ r.rest) :
    Advances scope d ts braces ⟨r.declarations, rest⟩ := by
  have hLast : Advances scope r.declarations r.rest [] ⟨r.declarations, rest⟩ :=
    of_suffix scope hSuffix rfl
  simpa using h.trans hLast

theorem inSpace {names : List String} {opening : List Token} (hOpens : Opens names opening)
    (h : Advances (scope ++ names) d ts [] r) : Advances scope d (opening ++ ts) [] r := by
  obtain ⟨taken, found, rfl, hClasses, hFound, -⟩ := h
  exact ⟨opening ++ taken, found, by simp, hClasses, hFound.inSpace hOpens, List.nil_sublist _⟩

end Advances

/-- Whether a body in a scope adds methods to some, and ends at its closing brace. -/
def Body.Follows (scope : Scope) (methods : List Method) (d : Declarations) (ts : List Token)
    (body : Body) : Prop :=
  ∃ more, body.members.methods = methods ++ more ∧
    Advances scope d ts (more.flatMap (·.braces)) ⟨body.reached.declarations, body.close :: body.reached.rest⟩

/-- Whether what a reader of bodies takes is what the reader of members takes in some number of
steps. -/
def BodyReader.Sound (r : BodyReader) : Prop :=
  ∀ scope name access opener d ts body, r scope name access opener d ts = .ok body →
    (∃ steps, bodyReader steps scope name access opener d ts = .ok body) ∧
      body.Follows (scope ++ [name]) [] d ts

theorem addTypedef_classes (d : Declarations) (scope : Scope) (name : String) (target : TypeExpr) :
    (addTypedef d scope name target).classes = d.classes := by
  unfold addTypedef Declarations.addTypedef
  split <;> rfl

theorem readUsing_advances {scope : Scope} {d : Declarations} {keyword : Token} {ts : List Token}
    {r : Reached} (h : readUsing scope d keyword ts = .ok r) :
    Advances scope d (keyword :: ts) [] r := by
  have hPass (h : (skip (keyword :: ts)).map (fun rest => (⟨d, rest⟩ : Reached)) = .ok r) :
      Advances scope d (keyword :: ts) [] r := by
    obtain ⟨rest, hSkip, rfl⟩ := map_eq_ok h
    exact .of_suffix scope (skip_suffix hSkip) rfl
  unfold readUsing at h
  simp only at h
  split at h
  · next named equals after =>
    split at h
    · rw [bind_eq_ok] at h
      obtain ⟨⟨target, rest⟩, hSplit, h⟩ := h
      obtain rfl := splitDeclaration_eq_ok hSplit
      cases h
      refine .of_suffix scope ((dropSemicolon_suffix rest).trans ?_) (addTypedef_classes d _ _ _)
      exact ⟨keyword :: named :: equals :: target, by simp⟩
    · exact hPass h
  · exact hPass h

theorem readAlias_classes (scope : Scope) (isEnum : Bool) (a : Aliasing) (part : List Token) :
    (readAlias scope isEnum a part).declarations.classes = a.declarations.classes ∨
      isEnum = false ∧ ∃ t ∈ part, t.kind = .identifier ∧
        (readAlias scope isEnum a part).declarations.classes =
          (nameLastClass a.declarations scope t.text).classes := by
  unfold readAlias
  split
  · exact .inl rfl
  · next t hFound =>
    have hMem : t ∈ part := List.mem_reverse.mp (List.mem_of_find?_eq_some hFound)
    have hKind := List.find?_some hFound
    simp only
    by_cases hRename : (a.target?.isNone && (part.filter (·.isPunctuation "*")).length == 0 &&
        !isEnum) = true
    · rw [if_pos hRename]
      refine .inr ⟨by simpa using (Bool.and_eq_true_iff.mp hRename).2, t, hMem, by simpa using hKind, ?_⟩
      split
      · exact addTypedef_classes _ _ _ _
      · rfl
    · rw [if_neg hRename]
      left
      split
      · exact addTypedef_classes _ _ _ _
      · rfl

theorem nameLastClass_classes {d : Declarations} {cs : List Class} {c : Class}
    (h : d.classes = cs ++ [c]) (scope : Scope) (name : String) :
    (nameLastClass d scope name).classes =
      cs ++ [{ c with name := name, qualifiedName := "::".intercalate (scope ++ [name]) }] := by
  have hLast : d.classes.getLast? = some c := by rw [h, List.getLast?_concat]
  unfold nameLastClass Declarations.modifyLastClass
  simp only [hLast]
  rw [h, List.dropLast_concat]

theorem mem_of_mem_splitTopFrom {separator : String} {depth : Int} {passed ts part : List Token}
    (h : part ∈ Token.splitTopFrom separator depth passed ts) {t : Token} (ht : t ∈ part) :
    t ∈ passed ∨ t ∈ ts := by
  have hStep {u : Token} {passed ts : List Token} (hRest : t ∈ u :: passed ∨ t ∈ ts) :
      t ∈ passed ∨ t ∈ u :: ts := by
    rw [List.mem_cons] at hRest ⊢
    rcases hRest with (hFirst | hPassed) | hRest
    · exact .inr (.inl hFirst)
    · exact .inl hPassed
    · exact .inr (.inr hRest)
  fun_induction Token.splitTopFrom separator depth passed ts with
  | case1 depth passed =>
    rw [List.mem_singleton.mp h, List.mem_reverse] at ht
    exact .inl ht
  | case2 depth passed u ts _ ih =>
    rcases List.mem_cons.mp h with hFirst | h
    · rw [hFirst, List.mem_reverse] at ht
      exact .inl ht
    · rcases ih h with hNone | hRest
      · cases hNone
      · exact .inr (List.mem_cons_of_mem u hRest)
  | case3 depth passed u ts _ _ ih => exact hStep (ih h)
  | case4 depth passed u ts _ _ _ ih => exact hStep (ih h)
  | case5 depth passed u ts _ _ _ ih => exact hStep (ih h)

def Renamed (scope : Scope) (ts : List Token) (c c' : Class) : Prop :=
  c' = c ∨ ∃ t ∈ ts, t.kind = .identifier ∧
    c' = { c with name := t.text, qualifiedName := "::".intercalate (scope ++ [t.text]) }

theorem foldl_readAlias_enum (scope : Scope) (parts : List (List Token)) (a : Aliasing) :
    (parts.foldl (readAlias scope true) a).declarations.classes = a.declarations.classes := by
  induction parts generalizing a with
  | nil => rfl
  | cons part parts ih =>
    rw [List.foldl_cons, ih]
    rcases readAlias_classes scope true a part with hSame | ⟨hEnum, -⟩
    · exact hSame
    · cases hEnum

theorem foldl_readAlias_class {scope : Scope} {cs : List Class} {c₀ : Class} {ts : List Token}
    {parts : List (List Token)} (hParts : ∀ part ∈ parts, part ⊆ ts) {a : Aliasing} {c : Class}
    (hClasses : a.declarations.classes = cs ++ [c]) (hRenamed : Renamed scope ts c₀ c) :
    ∃ c', (parts.foldl (readAlias scope false) a).declarations.classes = cs ++ [c'] ∧
      Renamed scope ts c₀ c' := by
  induction parts generalizing a c with
  | nil => exact ⟨c, hClasses, hRenamed⟩
  | cons part parts ih =>
    have hRest : ∀ part ∈ parts, part ⊆ ts := fun p hp => hParts p (List.mem_cons_of_mem part hp)
    rcases readAlias_classes scope false a part with hSame | ⟨-, t, ht, hKind, hNamed⟩
    · exact ih hRest (hSame.trans hClasses) hRenamed
    · rw [nameLastClass_classes hClasses] at hNamed
      refine ih hRest hNamed (.inr ⟨t, hParts part List.mem_cons_self ht, hKind, ?_⟩)
      rcases hRenamed with rfl | ⟨u, -, -, rfl⟩ <;> rfl

theorem readAlias_named (scope : Scope) {a : Aliasing} (part : List Token)
    (hNamed : a.target?.isSome = true) :
    (readAlias scope false a part).declarations.classes = a.declarations.classes ∧
      (readAlias scope false a part).target? = a.target? := by
  have hNotNone : a.target?.isNone = false := by
    rw [Option.isNone_eq_false_iff]
    exact hNamed
  unfold readAlias
  split
  · exact ⟨rfl, rfl⟩
  · simp only [hNotNone, Bool.false_and, Bool.false_eq_true, if_false]
    split
    · exact ⟨addTypedef_classes _ _ _ _, rfl⟩
    · exact ⟨rfl, rfl⟩

theorem foldl_readAlias_named (scope : Scope) (parts : List (List Token)) {a : Aliasing}
    (hNamed : a.target?.isSome = true) :
    (parts.foldl (readAlias scope false) a).declarations.classes = a.declarations.classes := by
  induction parts generalizing a with
  | nil => rfl
  | cons part parts ih =>
    obtain ⟨hClasses, hTarget⟩ := readAlias_named scope part hNamed
    rw [List.foldl_cons, ih (by rw [hTarget, hNamed]), hClasses]

theorem className_eq (head : List Token) :
    className head = "" ∨ ∃ t ∈ head, t.kind = .identifier ∧ t.text = className head := by
  unfold className
  simp only
  cases hFound : (head.takeWhile fun t => !t.isPunctuation ":").reverse.find?
      fun t => t.kind == .identifier && !t.isIdentifier "final" with
  | none => exact .inl rfl
  | some t =>
    have hMem := List.mem_reverse.mp (List.mem_of_find?_eq_some hFound)
    have hKind := List.find?_some hFound
    rw [Bool.and_eq_true, beq_iff_eq] at hKind
    exact .inr ⟨t, (List.takeWhile_prefix _).subset hMem, hKind.1, rfl⟩

theorem qualify_eq (scope : Scope) {name : String} (hName : name ≠ "") :
    scope.qualify name = "::".intercalate (scope.filter (· ≠ "") ++ [name]) := by
  rw [Scope.qualify, List.filter_append]
  simp [hName]

def classFrom (scope : Scope) (keyword : Token) (head : List Token) (body : Body) : Class where
  name := className head
  qualifiedName := scope.qualify (className head)
  kind := classKind keyword
  span := ⟨keyword.span.file, keyword.span.start, body.close.span.stop⟩
  headLine := keyword.line
  bases := baseClasses head
  methods := body.members.methods
  fields := body.members.fields
  firstMemberLine? := body.members.firstLine?

theorem readClass_eq_ok_iff {readBody : BodyReader} {scope : Scope} {d : Declarations}
    {keyword opener : Token} {head ts : List Token} {r : Reached} :
    readClass readBody scope d keyword head opener ts = .ok r ↔
      ∃ body, readBody scope (className head) (classKind keyword).defaultAccess opener d ts =
          .ok body ∧
        r = ⟨body.reached.declarations.addClass (classFrom scope keyword head body),
          body.reached.rest⟩ := by
  unfold readClass
  rw [bind_eq_ok]
  constructor
  · rintro ⟨body, hBody, h⟩
    cases h
    exact ⟨body, hBody, rfl⟩
  · rintro ⟨body, hBody, rfl⟩
    exact ⟨body, hBody, rfl⟩

theorem readClass_eq_ok {readBody : BodyReader} (hBody : readBody.Sound) {scope : Scope}
    {d : Declarations} {keyword opener : Token} {head ts : List Token} {r : Reached}
    (hKeyword : keyword.text = "class" ∨ keyword.text = "struct" ∨ keyword.text = "union")
    (h : readClass readBody scope d keyword head opener ts = .ok r) :
    ∃ inside close found c, ts = inside ++ close :: r.rest ∧
      r.declarations.classes = d.classes ++ found.map Prod.snd ++ [c] ∧
      Outline (scope ++ [className head]) found inside ∧
      c.TakenFrom (keyword :: (head ++ opener :: inside ++ [close])) ∧
      c.name = className head ∧ c.qualifiedName = scope.qualify (className head) := by
  obtain ⟨body, hTaken, rfl⟩ := readClass_eq_ok_iff.mp h
  obtain ⟨⟨steps, hSteps⟩, _, -, inside, found, rfl, hClasses, hFound, -⟩ :=
    hBody _ _ _ _ _ _ _ hTaken
  refine ⟨inside, body.close, found, classFrom scope keyword head body, rfl, ?_, hFound, ?_, rfl, rfl⟩
  · exact congrArg (· ++ [_]) hClasses
  · refine ⟨steps, scope, d, keyword, head, opener, inside ++ [body.close], body.reached.rest,
      body.reached.declarations.addClass (classFrom scope keyword head body),
      classFrom scope keyword head body, hKeyword, by simp, ?_, List.getLast?_concat, rfl⟩
    rw [List.append_assoc]
    exact readClass_eq_ok_iff.mpr ⟨body, hSteps, rfl⟩

theorem namedIn_of_nameGiven {scope : Scope} {head after : List Token} {c : Class}
    (h : NameGiven scope head after c) : c.NamedIn (head ++ after) := by
  rcases h with ⟨hName, hQualified⟩ | ⟨-, t, ht, hKind, hName, hQualified⟩
  · by_cases hEmpty : className head = ""
    · exact .inl (hName.trans hEmpty)
    · rcases className_eq head with hEmpty' | ⟨t, ht, hKind, hText⟩
      · exact absurd hEmpty' hEmpty
      · refine .inr ⟨⟨t, List.mem_append_left after ht, hKind, hText.trans hName.symm⟩, ?_⟩
        rw [hName, hQualified]
        exact ⟨_, qualify_eq scope hEmpty⟩
  · refine .inr ⟨⟨t, List.mem_append_right head ht, hKind, hName.symm⟩, scope, ?_⟩
    rw [hName, hQualified]

theorem Outline.found {scope : Scope} {cs : List (Scope × Class)} {ts : List Token}
    (h : Outline scope cs ts) : Found (cs.map Prod.snd) ts := by
  induction h with
  | none => exact Found.none []
  | pass us _ ih => simpa using ih.append (Found.none us)
  | space _ _ _ ihBefore ihInside =>
    rw [List.map_append]
    exact ihBefore.append ((Found.none _).append ihInside)
  | add _ _ hTaken hName ihBefore ihInside =>
    rw [List.map_append, List.map_append]
    exact ihBefore.append (ihInside.close _ hTaken (namedIn_of_nameGiven hName))

theorem keyword_of_classLike {keyword : Token} (hWord : keyword.isOneOf Words.classLike = true)
    (hEnum : ¬keyword.isIdentifier "enum" = true) :
    keyword.text = "class" ∨ keyword.text = "struct" ∨ keyword.text = "union" := by
  simp only [Token.isOneOf, Words.classLike, Token.isIdentifier, Bool.and_eq_true, beq_iff_eq,
    List.contains_eq_mem, List.mem_cons, List.not_mem_nil, or_false, decide_eq_true_eq] at hWord hEnum
  obtain ⟨hKind, hText | hText | hText | hText⟩ := hWord
  · exact .inl hText
  · exact .inr (.inl hText)
  · exact .inr (.inr hText)
  · exact absurd ⟨hKind, hText⟩ hEnum

theorem takenFrom_of_renamed {scope : Scope} {ts extent : List Token} {c c' : Class}
    (hRenamed : Renamed scope ts c c') (h : c.TakenFrom extent) : c'.TakenFrom extent := by
  obtain ⟨steps, scope', d, keyword, head, opener, body, rest, declarations, read, hKeyword, hExtent,
    hRead, hLast, hSame⟩ := h
  refine ⟨steps, scope', d, keyword, head, opener, body, rest, declarations, read, hKeyword, hExtent,
    hRead, hLast, ?_⟩
  rcases hRenamed with rfl | ⟨t, -, -, rfl⟩
  · exact hSame
  · rw [hSame]

theorem nameGiven_of_renamed {scope : Scope} {head ts : List Token} {c c' : Class}
    (hRenamed : Renamed scope ts c c')
    (hName : c.name = className head ∧ c.qualifiedName = scope.qualify (className head))
    (hNameless : className head = "") : NameGiven scope head ts c' := by
  rcases hRenamed with rfl | ⟨t, ht, hKind, rfl⟩
  · exact .inl hName
  · exact .inr ⟨hNameless, t, ht, hKind, rfl, rfl⟩

theorem readAliases_enum {scope : Scope} {a : Aliasing} {ts : List Token} {r : Reached}
    (h : readAliases scope true a ts = .ok r) : Advances scope a.declarations ts [] r := by
  unfold readAliases at h
  rw [bind_eq_ok] at h
  obtain ⟨⟨declarators, rest⟩, hSplit, h⟩ := h
  obtain rfl := splitDeclaration_eq_ok hSplit
  cases h
  refine .of_suffix scope ?_ (foldl_readAlias_enum scope _ a)
  exact (dropSemicolon_suffix rest).trans (List.suffix_append declarators rest)

theorem readAliases_class {scope : Scope} {a : Aliasing} {ts : List Token} {r : Reached}
    {cs : List Class} {c : Class} (hClasses : a.declarations.classes = cs ++ [c])
    (h : readAliases scope false a ts = .ok r) :
    ∃ taken c', ts = taken ++ r.rest ∧ r.declarations.classes = cs ++ [c'] ∧
      Renamed scope taken c c' ∧ (a.target?.isSome = true → c' = c) := by
  unfold readAliases at h
  rw [bind_eq_ok] at h
  obtain ⟨⟨declarators, rest⟩, hSplit, h⟩ := h
  obtain rfl := splitDeclaration_eq_ok hSplit
  cases h
  obtain ⟨semicolon, hRest⟩ := dropSemicolon_suffix rest
  have hParts : ∀ part ∈ Token.splitAtCommas declarators, part ⊆ declarators ++ semicolon := by
    intro part hPart t ht
    rcases mem_of_mem_splitTopFrom hPart ht with hNone | hMem
    · cases hNone
    · exact List.mem_append_left semicolon hMem
  obtain ⟨c', hNew, hRenamed⟩ := foldl_readAlias_class hParts hClasses (.inl rfl)
  refine ⟨declarators ++ semicolon, c', ?_, hNew, hRenamed, ?_⟩
  · simp [hRest]
  · intro hNamed
    rw [(foldl_readAlias_named scope _ hNamed), hClasses] at hNew
    exact (List.singleton_inj.mp (List.append_cancel_left hNew)).symm

theorem classes_foldl {α : Type} {add : Declarations → α → Declarations}
    (hAdd : ∀ d a, (add d a).classes = d.classes) (added : List α) (d : Declarations) :
    (added.foldl add d).classes = d.classes := by
  induction added generalizing d with
  | nil => rfl
  | cons a added ih => rw [List.foldl_cons, ih, hAdd]

theorem readTypedef_advances {readBody : BodyReader} (hBody : readBody.Sound) {scope : Scope}
    {d : Declarations} {ts : List Token} {r : Reached}
    (h : readTypedef readBody scope d ts = .ok r) : Advances scope d ts [] r := by
  cases fromTypedef_of_read h with
  | @enum keyword brace close inner after body later _ hSplit _ _ _ hGroup hAliases =>
    obtain rfl := splitDeclaration_eq_ok hSplit
    obtain rfl := closeGroup_eq_ok hGroup
    refine (readAliases_enum hAliases).before ⟨keyword :: (inner ++ brace :: (body ++ [close])), ?_⟩
    simp
  | @classLike _ _ inner _ _ _ hSplit hWord _ hEnum hClass hAliases =>
    obtain rfl := splitDeclaration_eq_ok hSplit
    obtain ⟨inside, close, found, c, rfl, hClasses, hFound, hTaken, hName⟩ :=
      readClass_eq_ok hBody (keyword_of_classLike hWord (by simp [hEnum])) hClass
    obtain ⟨taken, c', hRest, hClasses', hRenamed, hKeeps⟩ := readAliases_class hClasses hAliases
    have hGiven : NameGiven scope inner taken c' := by
      by_cases hNameless : className inner = ""
      · exact nameGiven_of_renamed hRenamed hName hNameless
      · rw [hKeeps (by simp [hNameless])]
        exact .inl hName
    have hWhole := Outline.close hFound (takenFrom_of_renamed hRenamed hTaken) hGiven
    refine ⟨_, found ++ [(scope, c')], ?_, ?_, hWhole, List.nil_sublist _⟩
    · rw [hRest]
      simp
    · rw [hClasses', List.map_append, List.append_assoc]
      rfl
  | @names head rest hSplit _ =>
    obtain rfl := splitDeclaration_eq_ok hSplit
    exact .of_suffix scope ((dropSemicolon_suffix rest).trans (List.suffix_append head rest))
      (classes_foldl (fun _ _ => addTypedef_classes ..) _ d)

theorem readDeclaration_advances {member? : Option Member} (scope : Scope) (d : Declarations)
    {ts : List Token} {item : Item} (h : readDeclaration member? ts = .ok item) :
    Advances scope d ts item.declared.braces ⟨d, item.rest⟩ := by
  obtain ⟨taken, hTaken, hBraces⟩ := readDeclaration_eq_ok h
  exact ⟨taken, [], hTaken, by rw [List.map_nil, List.append_nil], .skipped scope taken, hBraces⟩

/-- A class is added after the classes inside of it, and takes the tokens through its last brace. -/
theorem readClass_advances {readBody : BodyReader} (hBody : readBody.Sound) {scope : Scope}
    {d : Declarations} {keyword opener : Token} {head ts : List Token} {r : Reached}
    (hKeyword : keyword.text = "class" ∨ keyword.text = "struct" ∨ keyword.text = "union")
    (h : readClass readBody scope d keyword head opener ts = .ok r) :
    Advances scope d (keyword :: head ++ opener :: ts) [] r := by
  obtain ⟨inside, close, found, c, rfl, hClasses, hFound, hTaken, hName⟩ :=
    readClass_eq_ok hBody hKeyword h
  have hGiven : NameGiven scope head [] c := .inl hName
  refine ⟨_, found ++ [(scope, c)], ?_, ?_, Outline.close hFound hTaken hGiven, List.nil_sublist _⟩
  · simp
  · rw [hClasses, List.map_append, List.append_assoc]
    rfl

theorem readClassOrDeclaration_advances {readBody : BodyReader} (hBody : readBody.Sound)
    {scope : Scope} {member? : Option Member} {d : Declarations} {keyword : Token} {ts : List Token}
    {result : Declared × Reached}
    (hKeyword : keyword.text = "class" ∨ keyword.text = "struct" ∨ keyword.text = "union")
    (h : readClassOrDeclaration readBody scope member? d keyword ts = .ok result) :
    Advances scope d (keyword :: ts) result.1.braces result.2 := by
  cases fromKeyword_of_read hKeyword h with
  | definition hSplit _ hClass hLeave =>
    rw [show keyword :: ts = _ from splitDeclaration_eq_ok hSplit]
    exact (readClass_advances hBody hKeyword hClass).after (leaveClass_suffix hLeave)
  | declaration _ _ hItem => exact readDeclaration_advances scope d hItem

theorem Form.read_advances {readBody : BodyReader} (hBody : readBody.Sound) {form : Form}
    {passedWords : List String} {t : Token} (hForm : form.Starts passedWords t.text) {scope : Scope}
    {member? : Option Member} {d : Declarations} {ts : List Token} {result : Declared × Reached}
    (h : form.read readBody scope member? d t ts = .ok result) :
    Advances scope d (t :: ts) result.1.braces result.2 := by
  cases form with
  | passed =>
    rw [Form.read, bind_eq_ok] at h
    obtain ⟨rest, hSkip, h⟩ := h
    cases h
    exact .of_suffix scope (skip_suffix hSkip) rfl
  | typeAlias =>
    rw [Form.read, bind_eq_ok] at h
    obtain ⟨r, hUsing, h⟩ := h
    cases h
    exact readUsing_advances hUsing
  | template =>
    rw [Form.read, bind_eq_ok] at h
    obtain ⟨rest, hSkip, h⟩ := h
    cases h
    exact .of_suffix scope ((skipTemplate_suffix hSkip).trans (List.suffix_cons t ts)) rfl
  | typedef =>
    rw [Form.read, bind_eq_ok] at h
    obtain ⟨r, hTypedef, h⟩ := h
    cases h
    exact (readTypedef_advances hBody hTypedef).before (List.suffix_cons t ts)
  | classLike => exact readClassOrDeclaration_advances hBody hForm h
  | plain =>
    rw [Form.read, bind_eq_ok] at h
    obtain ⟨item, hItem, h⟩ := h
    cases h
    exact readDeclaration_advances scope d hItem

theorem readMember_advances {readBody : BodyReader} (hBody : readBody.Sound) {scope : Scope}
    {member : Member} {d : Declarations} {t : Token} {ts : List Token} {result : Declared × Reached}
    (h : readMember readBody scope member d t ts = .ok result) :
    Advances scope d (t :: ts) result.1.braces result.2 := by
  obtain ⟨form, hForm⟩ := Form.exists_starts passedMembers t.text
  rw [readMember_eq hForm] at h
  exact Form.read_advances hBody hForm h

theorem add_methods (m : Members) (line : Nat) (declared : Declared) :
    ∃ more, (m.add line declared).methods = m.methods ++ more ∧
      more.flatMap (·.braces) = declared.braces := by
  cases declared with
  | nothing => exact ⟨[], by simp [Members.add], rfl⟩
  | method method => exact ⟨[method], rfl, by simp [Declared.braces]⟩
  | fields fs => exact ⟨[], by simp [Members.add], rfl⟩

theorem readMembers_follows {steps : Nat} {scope : Scope} {name : String} {opener : Token}
    {access : Access} {members : Members} {d : Declarations} {ts : List Token} {body : Body}
    (h : readMembers steps scope name opener access members d ts = .ok body) :
    body.Follows scope members.methods d ts := by
  induction steps generalizing scope name opener access members d ts body with
  | zero =>
    unfold readMembers at h
    cases h
  | succ steps ih =>
    -- the bodies of nested classes are read with one step less
    have hBody : (bodyReader steps).Sound := fun scope name access opener d ts body hRead =>
      ⟨⟨steps, hRead⟩, ih hRead⟩
    cases ts with
    | nil =>
      unfold readMembers at h
      cases h
    | cons t rest =>
      obtain ⟨part, hPart⟩ := BodyPart.exists_starts t rest
      rw [readMembers_eq hPart] at h
      cases part with
      | close =>
        cases h
        exact ⟨[], by simp, .of_suffix scope (List.suffix_refl _) rfl⟩
      | semicolon =>
        obtain ⟨more, hMethods, hRest⟩ := ih h
        exact ⟨more, hMethods, hRest.before (List.suffix_cons t rest)⟩
      | label access =>
        obtain ⟨more, hMethods, hRest⟩ := ih h
        have hSuffix := (List.tail_suffix rest).trans (List.suffix_cons t rest)
        exact ⟨more, hMethods, hRest.before hSuffix⟩
      | member =>
        rw [BodyPart.read, bind_eq_ok] at h
        obtain ⟨⟨declared, reached⟩, hMember, h⟩ := h
        have hFirst := readMember_advances hBody hMember
        obtain ⟨more, hMethods, hRest⟩ := ih h
        obtain ⟨first, hAdded, hBraces⟩ := add_methods members t.line declared
        refine ⟨first ++ more, ?_, ?_⟩
        · rw [hMethods, hAdded, List.append_assoc]
        · rw [List.flatMap_append, hBraces]
          exact hFirst.trans hRest

theorem bodyReader_sound (steps : Nat) : (bodyReader steps).Sound :=
  fun _ _ _ _ _ _ _ hRead => ⟨⟨steps, hRead⟩, readMembers_follows hRead⟩

theorem readBody_sound : readBody.Sound :=
  fun _ _ _ _ _ ts _ hRead => ⟨⟨ts.length + 1, hRead⟩, readMembers_follows hRead⟩

theorem addFunction_classes (d : Declarations) (scope : Scope) (declared : Declared) :
    (addFunction d scope declared).classes = d.classes := by
  unfold addFunction
  split
  · split <;> rfl
  · rfl

@[simp]
theorem Form.record_classes (form : Form) (scope : Scope) (declared : Declared) (r : Reached) :
    (form.record scope declared r).declarations.classes = r.declarations.classes := by
  cases form with
  | plain => exact addFunction_classes r.declarations scope declared
  | _ => rfl

theorem IsItem.opens {t opener : Token} {ts after : List Token} {names : List String}
    (h : IsItem t ts (.inner names opener after)) :
    ∃ opening, t :: ts = opening ++ after ∧ (Opens names opening ∨ names = []) := by
  cases h with
  | space hWord hName hOpen =>
    refine ⟨t :: (ts.takeWhile inNamespaceName ++ [opener]), ?_, .inl ?_⟩
    · conv => lhs; rw [← List.takeWhile_append_dropWhile (p := inNamespaceName) (l := ts), hName]
      simp
    · exact ⟨t, ts.takeWhile inNamespaceName, opener, rfl, hWord, List.all_takeWhile, hOpen, rfl⟩
  | linkage hWord hCut hString hOpen => exact ⟨[t, _, opener], by rw [hCut]; rfl, .inr rfl⟩

theorem readItem_advances {readInner : Scope → Token → Declarations → List Token → Outcome Reached}
    (hInner : ∀ scope opener d ts r, readInner scope opener d ts = .ok r →
      Advances scope d ts [] r)
    {scope : Scope} {d : Declarations} {t : Token} {ts : List Token} {r : Reached}
    (h : readItem readInner scope d t ts = .ok r) : Advances scope d (t :: ts) [] r := by
  obtain ⟨form, hForm⟩ := exists_isItem t ts
  rw [readItem_eq hForm] at h
  cases form with
  | inner names opener after =>
    have hRead := hInner _ _ _ _ _ h
    obtain ⟨opening, hCut, hOpens | rfl⟩ := hForm.opens
    · rw [hCut]
      exact hRead.inSpace hOpens
    · rw [List.append_nil] at hRead
      exact hRead.before ⟨opening, hCut.symm⟩
  | bodiless rest =>
    rw [ItemForm.read, bind_eq_ok] at h
    obtain ⟨left, hSkip, h⟩ := h
    cases h
    exact .of_suffix scope
      ((skip_suffix hSkip).trans (hForm.bodiless_suffix.trans (List.suffix_cons t ts))) rfl
  | inlineSpace =>
    cases h
    exact .of_suffix scope (List.suffix_cons t ts) rfl
  | shared form =>
    rw [ItemForm.read, bind_eq_ok] at h
    obtain ⟨⟨declared, reached⟩, hRead, h⟩ := h
    cases h
    obtain ⟨taken, found, hTaken, hClasses, hFound, -⟩ :=
      Form.read_advances readBody_sound hForm.starts hRead
    refine ⟨taken, found, ?_, ?_, hFound, List.nil_sublist _⟩
    · rw [form.record_rest]
      exact hTaken
    · rw [form.record_classes]
      exact hClasses

theorem readScope_advances {steps : Nat} {scope : Scope} {opener? : Option Token} {d : Declarations}
    {ts : List Token} {r : Reached} (h : readScope steps scope opener? d ts = .ok r) :
    Advances scope d ts [] r := by
  induction steps generalizing scope opener? d ts r with
  | zero =>
    unfold readScope at h
    cases h
    exact .of_suffix scope (List.suffix_refl _) rfl
  | succ steps ih =>
    cases ts with
    | nil =>
      unfold readScope at h
      cases opener? with
      | some opener => cases h
      | none =>
        cases h
        exact .of_suffix scope (List.suffix_refl _) rfl
    | cons t rest =>
      obtain ⟨part, hPart⟩ := ScopePart.exists_starts t
      rw [readScope_eq hPart] at h
      cases part with
      | close =>
        rw [ScopePart.read] at h
        split at h
        · cases h
          exact .of_suffix scope (List.suffix_cons t rest) rfl
        · cases h
      | semicolon => exact (ih h).before (List.suffix_cons t rest)
      | group =>
        rw [ScopePart.read, bind_eq_ok] at h
        obtain ⟨⟨body, close, after⟩, hClose, h⟩ := h
        obtain rfl := closeGroup_eq_ok hClose
        exact (ih h).before ⟨t :: (body ++ [close]), by simp⟩
      | item =>
        rw [ScopePart.read, bind_eq_ok] at h
        obtain ⟨reached, hItem, h⟩ := h
        exact (readItem_advances (fun _ _ _ _ _ hInner => ih hInner) hItem).trans (ih h)

theorem readScope_suffix {steps : Nat} {scope : Scope} {opener? : Option Token} {d : Declarations}
    {ts : List Token} {r : Reached} (h : readScope steps scope opener? d ts = .ok r) : r.rest <:+ ts := by
  obtain ⟨taken, _, rfl, -⟩ := readScope_advances h
  exact ⟨taken, rfl⟩

theorem outline_of_read {files : List Source.File} {ts : List Token} {d : Declarations}
    (h : read files ts = .ok d) :
    ∃ outline, d.classes = outline.map Prod.snd ∧ Outline [] outline ts := by
  unfold read at h
  split at h
  · next reached hScope =>
    cases h
    obtain ⟨taken, found, rfl, hClasses, hFound, -⟩ := readScope_advances hScope
    exact ⟨found, by simpa [Declarations.empty] using hClasses, hFound.pass reached.rest⟩
  · cases h

/-- The classes of a stream are placed in it and take their names from it. -/
theorem found_of_read {files : List Source.File} {ts : List Token} {d : Declarations}
    (h : read files ts = .ok d) : Found d.classes ts := by
  obtain ⟨outline, hClasses, hOutline⟩ := outline_of_read h
  rw [hClasses]
  exact hOutline.found

theorem spans_of_takenFrom {c : Class} {keyword close : Token} {inside : List Token}
    (h : c.TakenFrom (keyword :: (inside ++ [close]))) :
    (keyword.text = "class" ∨ keyword.text = "struct" ∨ keyword.text = "union") ∧
      c.span = ⟨keyword.span.file, keyword.span.start, close.span.stop⟩ ∧
      c.headLine = keyword.line ∧
      (c.methods.flatMap (·.braces)).Sublist (inside.map (·.span)) := by
  obtain ⟨steps, scope, d, keyword', head, opener, body, rest, declarations, read, hKeyword, hExtent,
    hRead, hLast, hSame⟩ := h
  obtain ⟨rfl, hInside⟩ := List.cons.inj hExtent
  obtain ⟨taken, hTaken, hReached⟩ := readClass_eq_ok_iff.mp hRead
  obtain ⟨methods, hMethods, inner, found, hInner, -, -, hBraces⟩ := readMembers_follows hTaken
  cases hReached
  rw [Declarations.addClass, List.getLast?_concat] at hLast
  cases hLast
  have hRest : body ++ taken.reached.rest = (inner ++ [taken.close]) ++ taken.reached.rest := by
    rw [hInner]
    simp
  have hEnd := List.append_cancel_right hRest
  rw [hEnd, ← List.cons_append, ← List.append_assoc] at hInside
  obtain ⟨rfl, hClose⟩ := List.append_inj' hInside rfl
  cases hClose
  rw [hSame]
  refine ⟨hKeyword, rfl, rfl, ?_⟩
  have hAll : taken.members.methods = methods := by simpa [Members.empty] using hMethods
  show (taken.members.methods.flatMap (·.braces)).Sublist _
  rw [hAll, List.map_append, List.map_cons]
  exact List.sublist_append_of_sublist_right (hBraces.cons _)

end SkeletonWeave.Declaration
