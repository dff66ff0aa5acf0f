import SkeletonWeave.Proofs.Declaration.Rereading

/-!
# What rewritten tokens declare

The readers of type names, classes and scopes are followed over rewritten
tokens. The functions that were inserted are read where they stand, and add no
class; everything else is read as it was.
-/

set_option autoImplicit false

namespace SkeletonWeave

open Declarator (Declared Member)
open Token (Alike Nested IsStub unplaced isPunctuation_of_alike)

namespace Declarations.Matches

variable {w : Rewrite} {d d' : Declarations}

theorem of_classes {e e' : Declarations} (h : d.Matches w d') (hd : e.classes = d.classes)
    (hd' : e'.classes = d'.classes) : e.Matches w e' := by
  unfold Declarations.Matches
  rw [hd, hd']
  exact h

theorem addClass {c c' : Class} (h : d.Matches w d') (hClass : c.Matches w c') :
    (d.addClass c).Matches w (d'.addClass c') :=
  List.rel_append h (.cons hClass .nil)

theorem modifyLastClass {change : Class → Class} (h : d.Matches w d')
    (hChange : ∀ c c', Class.Matches w c c' → (change c).Matches w (change c')) :
    (d.modifyLastClass change).Matches w (d'.modifyLastClass change) := by
  have hLast {cs cs' : List Class} (h : List.Forall₂ (Class.Matches w) cs cs') :
      cs = [] ∧ cs' = [] ∨
        ∃ c c', cs.getLast? = some c ∧ cs'.getLast? = some c' ∧ c.Matches w c' ∧
          List.Forall₂ (Class.Matches w) cs.dropLast cs'.dropLast := by
    induction h with
    | nil => exact .inl ⟨rfl, rfl⟩
    | @cons c c' cs cs' hClass hRest ih =>
      rcases ih with ⟨rfl, rfl⟩ | ⟨last, last', hLast, hLast', hMatch, hInit⟩
      · exact .inr ⟨c, c', rfl, rfl, hClass, .nil⟩
      · refine .inr ⟨last, last', ?_, ?_, hMatch, ?_⟩
        · rw [List.getLast?_cons, hLast, Option.getD_some]
        · rw [List.getLast?_cons, hLast', Option.getD_some]
        · rw [List.dropLast_cons_of_ne_nil (by rintro rfl; cases hLast),
            List.dropLast_cons_of_ne_nil (by rintro rfl; cases hLast')]
          exact .cons hClass hInit
  unfold Declarations.Matches Declarations.modifyLastClass
  rcases hLast h with ⟨hNone, hNone'⟩ | ⟨c, c', hSome, hSome', hMatch, hInit⟩
  · rw [hNone, hNone']
    simp only [List.getLast?_nil, hNone, hNone']
    exact .nil
  · rw [hSome, hSome']
    exact List.rel_append hInit (.cons (hChange c c' hMatch) .nil)

end Declarations.Matches

namespace Declaration

variable {w : Rewrite} {Added : List Token → Prop} {d d' : Declarations}

theorem mem_of_split {t u : Token} {ts head rest : List Token}
    (h : splitDeclaration (t :: u :: ts) = .ok (head, rest))
    (ht : ∀ mark ∈ ["(", "[", "\x7b", "\x7d", ";"], t.isPunctuation mark = false)
    (hu : ∀ mark ∈ ["(", "[", "\x7b", "\x7d", ";"], u.isPunctuation mark = false) : u ∈ head := by
  have hStep (e : Extent) {v : Token}
      (hv : ∀ mark ∈ ["(", "[", "\x7b", "\x7d", ";"], v.isPunctuation mark = false)
      (hNone : e.group? = none) (vs : List Token) :
      ∃ next : Extent, next.group? = none ∧ next.passed = v :: e.passed ∧
        e.split (v :: vs) = next.split vs := by
    simp only [List.mem_cons, List.not_mem_nil, or_false, forall_eq_or_imp, forall_eq] at hv
    refine ⟨e.passOutside v, ?_, e.passOutside_passed v, ?_⟩
    · simp [Extent.passOutside, hv, Extent.pass, hNone]
    · rw [Extent.split, hNone]
      simp [Extent.endsAt, hv]
  obtain ⟨e, he, hPassed, hFirst⟩ := hStep Extent.start ht rfl (u :: ts)
  obtain ⟨e', -, hPassed', hSecond⟩ := hStep e hu he ts
  rw [splitDeclaration, hFirst, hSecond] at h
  obtain ⟨taken, rfl, -⟩ := Extent.split_eq_ok h
  rw [hPassed']
  simp

theorem isPunctuation_of_text {t : Token} {text mark : String} (hText : t.text = text)
    (hMark : text ≠ mark) : t.isPunctuation mark = false := by
  simp [Token.isPunctuation, hText, hMark]

theorem readUsing_eq_skip (scope : Scope) (d : Declarations) (keyword : Token) {ts : List Token}
    (h : ¬∃ named equals after, ts = named :: equals :: after ∧ named.kind = .identifier ∧
      equals.isPunctuation "=" = true) :
    readUsing scope d keyword ts = (skip (keyword :: ts)).map fun rest => ⟨d, rest⟩ := by
  unfold readUsing
  simp only
  split
  · next named equals after =>
    rw [if_neg]
    rintro ⟨hNamed, hEquals⟩
    exact h ⟨named, equals, after, rfl, hNamed, hEquals⟩
  · rfl

theorem readUsing_classes {scope : Scope} {keyword : Token} {ts : List Token} {r : Reached}
    (h : readUsing scope d keyword ts = .ok r) : r.declarations.classes = d.classes := by
  by_cases hAlias : ∃ named equals after, ts = named :: equals :: after ∧
      named.kind = .identifier ∧ equals.isPunctuation "=" = true
  · obtain ⟨named, equals, after, rfl, hNamed, hEquals⟩ := hAlias
    unfold readUsing at h
    simp only [hNamed, hEquals, and_self, if_true] at h
    rw [bind_eq_ok] at h
    obtain ⟨⟨target, rest⟩, -, h⟩ := h
    cases h
    exact addTypedef_classes ..
  · rw [readUsing_eq_skip scope d keyword hAlias] at h
    obtain ⟨rest, -, rfl⟩ := map_eq_ok h
    rfl

theorem readUsing_rewritten (hAdded : ∀ added, Added added → IsStub added) {scope : Scope}
    {keyword keyword' : Token} {ts us taken : List Token} {r : Reached}
    (hText : keyword.text = "using")
    (h : readUsing scope d keyword ts = .ok r) (hTaken : keyword :: ts = taken ++ r.rest)
    (hKeyword : keyword.unplaced = keyword'.unplaced)
    (hNot : ∀ b ∈ w.bodies, keyword.span ≠ b.opening) (hSpares : w.Spares taken)
    (hTokens : Rewritten w Nested Added ts us) (hMatches : d.Matches w d') :
    ∃ r', readUsing scope d' keyword' us = .ok r' ∧ Rewritten w Nested Added r.rest r'.rest ∧
      r.declarations.Matches w r'.declarations := by
  by_cases hAlias : ∃ named equals after, ts = named :: equals :: after ∧
      named.kind = .identifier ∧ equals.isPunctuation "=" = true
  · obtain ⟨named, equals, after, rfl, hNamed, hEquals⟩ := hAlias
    unfold readUsing at h ⊢
    simp only [hNamed, hEquals, and_self, if_true] at h
    rw [bind_eq_ok] at h
    obtain ⟨⟨target, rest⟩, hSplit, h⟩ := h
    obtain rfl := splitDeclaration_eq_ok hSplit
    cases h
    obtain ⟨semis, hSemis⟩ := dropSemicolon_suffix rest
    have hBoth : taken = keyword :: named :: equals :: (target ++ semis) := by
      apply List.append_cancel_right
      rw [← hTaken]
      simp [hSemis]
    rw [hBoth] at hSpares
    obtain ⟨named', us', rfl, hNamed', hTokens⟩ := hTokens.exists_cons (hSpares.part (by simp))
    obtain ⟨equals', us', rfl, hEquals', hTokens⟩ := hTokens.exists_cons (hSpares.part (by simp))
    obtain ⟨target', rest', -, hTarget, hRest, hSplit'⟩ :=
      splitDeclaration_rewritten hSplit (hSpares.part fun u hu => by simp [hu]) hTokens
    simp only [Token.kind_of_alike hNamed', hNamed, isPunctuation_of_alike hEquals', hEquals, and_self,
      if_true, hSplit']
    exact ⟨_, rfl, hRest.dropSemicolon hAdded,
      hMatches.of_classes (addTypedef_classes ..) (addTypedef_classes ..)⟩
  · rw [readUsing_eq_skip scope d keyword hAlias] at h
    obtain ⟨rest, hSkip, rfl⟩ := map_eq_ok h
    have hAlias' : ¬∃ named equals after, us = named :: equals :: after ∧
        named.kind = .identifier ∧ equals.isPunctuation "=" = true := by
      rintro ⟨named', equals', after', rfl, hNamed, hEquals⟩
      cases ts with
      | nil => cases hTokens.eq_nil
      | cons named ts =>
        have hNamedSpares : named ≠ w.keyword := by
          rintro rfl
          obtain ⟨head, after, hSplit, hLeft⟩ := exists_leftOver_of_skip hSkip
          have hMem : w.keyword ∈ head := by
            refine mem_of_split hSplit (fun mark hMark => isPunctuation_of_text hText ?_)
              fun mark _ => w.isPunctuation_keyword mark
            rintro rfl
            exact absurd hMark (by decide)
          exact (hSpares w.keyword ((hLeft.head_prefix hSplit hTaken).subset hMem)).1 rfl
        obtain ⟨_, _, hSame, hAlike⟩ := hTokens.exists_head hNamedSpares
        obtain ⟨rfl, rfl⟩ := List.cons.inj hSame
        rw [Token.kind_of_alike hAlike] at hNamed
        obtain ⟨_, _, hSame, -, hRest⟩ :=
          hTokens.exists_keep hNamedSpares (by simp [Token.isPunctuation, hNamed])
        obtain ⟨rfl, rfl⟩ := List.cons.inj hSame
        cases ts with
        | nil => cases hRest.eq_nil
        | cons equals after =>
          obtain ⟨_, _, hSame, hMark⟩ := hRest.isPunctuation_head hAdded "=" (by simp)
          obtain ⟨rfl, rfl⟩ := List.cons.inj hSame
          exact hAlias ⟨named, equals, after, rfl, hNamed, hMark.symm.trans hEquals⟩
    rw [readUsing_eq_skip scope d' keyword' hAlias']
    obtain ⟨rest', hSkip', hRest⟩ :=
      skip_rewritten hAdded hSkip hTaken hSpares (.keep hKeyword hNot hTokens)
    rw [hSkip']
    exact ⟨_, rfl, hRest, hMatches⟩

structure Aliasing.Matches (w : Rewrite) (a a' : Aliasing) : Prop where
  declarations : a.declarations.Matches w a'.declarations
  target : a.target? = a'.target?

theorem nameLastClass_matches (h : d.Matches w d') (scope : Scope) (name : String) :
    (nameLastClass d scope name).Matches w (nameLastClass d' scope name) :=
  h.modifyLastClass fun _ _ hClass => ⟨rfl, rfl, hClass.file, hClass.methods⟩

theorem addTypedef_matches (h : d.Matches w d') (scope : Scope) (name : String)
    (target target' : TypeExpr) :
    (addTypedef d scope name target).Matches w (addTypedef d' scope name target') :=
  h.of_classes (addTypedef_classes ..) (addTypedef_classes ..)

theorem find?_alike {p : Token → Bool} (hp : ∀ t, p t.unplaced = p t) {ts us : List Token}
    (h : Alike ts us) :
    (ts.reverse.find? p).map unplaced = (us.reverse.find? p).map unplaced := by
  rw [← Token.find?_unplaced hp, ← Token.find?_unplaced hp, List.map_reverse, List.map_reverse, h]

theorem lastName_alike {ts us : List Token} (h : Alike ts us) :
    (ts.reverse.find? fun t => t.kind == .identifier).map (·.text) =
      (us.reverse.find? fun t => t.kind == .identifier).map (·.text) := by
  have hText := congrArg (Option.map Token.text)
    (find?_alike (p := fun t => t.kind == .identifier) (fun _ => rfl) h)
  rw [Option.map_map, Option.map_map] at hText
  exact hText

theorem length_filter_alike {p : Token → Bool} (hp : ∀ t, p t.unplaced = p t) {ts us : List Token}
    (h : Alike ts us) : (ts.filter p).length = (us.filter p).length := by
  rw [← List.length_map unplaced, ← Token.filter_unplaced hp, h, Token.filter_unplaced hp,
    List.length_map]

theorem readAlias_rewritten (scope : Scope) (isEnum : Bool) {a a' : Aliasing}
    {part part' : List Token} (h : a.Matches w a') (hPart : Alike part part') :
    (readAlias scope isEnum a part).Matches w (readAlias scope isEnum a' part') := by
  have hFound := find?_alike (p := fun t => t.kind == .identifier) (fun _ => rfl) hPart
  have hPointers := length_filter_alike (p := (·.isPunctuation "*")) (fun _ => rfl) hPart
  unfold readAlias
  cases hName : part.reverse.find? fun t => t.kind == .identifier with
  | none =>
    rw [hName, Option.map_none, eq_comm, Option.map_eq_none_iff] at hFound
    rw [hFound]
    exact h
  | some name =>
    rw [hName, Option.map_some, eq_comm, Option.map_eq_some_iff] at hFound
    obtain ⟨name', hName', hSame⟩ := hFound
    have hText : name'.text = name.text := Token.text_of_alike hSame.symm
    have hAlias {b b' : Aliasing} (hb : b.Matches w b') {p : Prop} [Decidable p] (type : TypeExpr) :
        Aliasing.Matches w
          (if p then { b with declarations := addTypedef b.declarations scope name.text type } else b)
          (if p then { b' with declarations := addTypedef b'.declarations scope name.text type }
            else b') := by
      split
      · exact ⟨addTypedef_matches hb.declarations .., hb.target⟩
      · exact hb
    obtain ⟨e, target⟩ := a
    obtain ⟨e', target'⟩ := a'
    obtain ⟨hDeclarations, rfl⟩ := h
    simp only [hName', hText, hPointers]
    split
    · have hNamed : Aliasing.Matches w ⟨nameLastClass e scope name.text, some name.text⟩
          ⟨nameLastClass e' scope name.text, some name.text⟩ :=
        ⟨nameLastClass_matches hDeclarations scope name.text, rfl⟩
      exact hAlias hNamed _
    · have hKept : Aliasing.Matches w ⟨e, target⟩ ⟨e', target⟩ := ⟨hDeclarations, rfl⟩
      exact hAlias hKept _

theorem foldl_readAlias_rewritten (scope : Scope) (isEnum : Bool) {parts parts' : List (List Token)}
    (hParts : parts.map (·.map unplaced) = parts'.map (·.map unplaced)) {a a' : Aliasing}
    (h : a.Matches w a') :
    (parts.foldl (readAlias scope isEnum) a).Matches w
      (parts'.foldl (readAlias scope isEnum) a') := by
  induction parts generalizing parts' a a' with
  | nil =>
    rw [List.map_nil, eq_comm, List.map_eq_nil_iff] at hParts
    rw [hParts]
    exact h
  | cons part parts ih =>
    cases parts' with
    | nil => cases hParts
    | cons part' parts' =>
      obtain ⟨hPart, hRest⟩ := List.cons.inj hParts
      exact ih hRest (readAlias_rewritten scope isEnum h hPart)

theorem readAliases_rewritten (hAdded : ∀ added, Added added → IsStub added) {scope : Scope}
    {isEnum : Bool} {a a' : Aliasing} {ts us taken : List Token} {r : Reached}
    (h : readAliases scope isEnum a ts = .ok r) (hTaken : ts = taken ++ r.rest)
    (hSpares : w.Spares taken) (hTokens : Rewritten w Nested Added ts us) (hAliasing : a.Matches w a') :
    ∃ r', readAliases scope isEnum a' us = .ok r' ∧ Rewritten w Nested Added r.rest r'.rest ∧
      r.declarations.Matches w r'.declarations := by
  unfold readAliases at h ⊢
  rw [bind_eq_ok] at h
  obtain ⟨⟨declarators, rest⟩, hSplit, h⟩ := h
  obtain rfl := splitDeclaration_eq_ok hSplit
  cases h
  obtain ⟨semis, hSemis⟩ := dropSemicolon_suffix rest
  have hBoth : taken = declarators ++ semis := by
    apply List.append_cancel_right
    rw [← hTaken, List.append_assoc, hSemis]
  rw [hBoth] at hSpares
  obtain ⟨declarators', rest', -, hDeclarators, hRest, hSplit'⟩ :=
    splitDeclaration_rewritten hSplit (hSpares.part (List.subset_append_left _ _)) hTokens
  rw [hSplit']
  refine ⟨_, rfl, hRest.dropSemicolon hAdded, ?_⟩
  refine (foldl_readAlias_rewritten scope isEnum ?_ hAliasing).declarations
  rw [← Token.splitAtCommas_unplaced, ← Token.splitAtCommas_unplaced, hDeclarators]

end Declaration

end SkeletonWeave
