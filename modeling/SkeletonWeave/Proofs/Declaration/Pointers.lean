import SkeletonWeave.Proofs.Declaration.Acceptance
import SkeletonWeave.Proofs.Declaration.Definition
import SkeletonWeave.Proofs.Declaration.Spelling

/-!
# Which parameters are pointers

A parameter is a pointer if a `*` stands outside of template arguments or if it
is an array. The reader counts those, and spells the others too: so the type of
a parameter looks like a pointer also if there is a `*` in what remains of it
without its own pointers, its base.
-/

set_option autoImplicit false

namespace SkeletonWeave

open Declaration (stars)

namespace TypeExpr

/-- The tokens outside of template arguments, where `depth` argument lists are open. -/
def outside (depth : Nat) : List Token → List Token
  | [] => []
  | t :: ts =>
    if t.isPunctuation "<" then outside (depth + 1) ts
    else if t.isPunctuation ">" then outside (depth - 1) ts
    else if depth ≠ 0 then outside depth ts
    else t :: outside depth ts

def ownPointers (ts : List Token) : Nat :=
  stars (outside 0 ts)

def starsWritten (ts : List Token) : Nat :=
  (ts.map fun t => t.text.toList.count '*').sum

theorem stars_cons (t : Token) (ts : List Token) :
    stars (t :: ts) = (if t.isPunctuation "*" then 1 else 0) + stars ts := by
  unfold stars
  cases hStar : t.isPunctuation "*" with
  | true => simp [hStar, Nat.add_comm]
  | false => simp [hStar]

theorem starsWritten_cons (t : Token) (ts : List Token) :
    starsWritten (t :: ts) = t.text.toList.count '*' + starsWritten ts := by
  simp [starsWritten]

/-- What becomes of a token of a type: it is kept in the base, it is a pointer, or it is dropped. -/
inductive Separated (depth : Nat) (marks : Marks) (base : List Token) (t : Token)
    (ts : List Token) : Prop
  | kept (depth' : Nat)
    (hSeparate : separate depth marks base (t :: ts) = separate depth' marks (t :: base) ts)
    (hOutside : stars (outside depth (t :: ts)) = stars (outside depth' ts))
  | pointer (hText : t.text = "*")
    (hSeparate : separate depth marks base (t :: ts) =
      separate depth { marks with pointerDepth := min (marks.pointerDepth + 1) maxPointerDepth }
        base ts)
    (hOutside : stars (outside depth (t :: ts)) = 1 + stars (outside depth ts))
  | dropped (marks' : Marks) (hText : t.text.toList.count '*' = 0)
    (hSeparate : separate depth marks base (t :: ts) = separate depth marks' base ts)
    (hDepth : marks'.pointerDepth = marks.pointerDepth)
    (hOutside : stars (outside depth (t :: ts)) = stars (outside depth ts))

theorem separated (depth : Nat) (marks : Marks) (base : List Token) (t : Token) (ts : List Token) :
    Separated depth marks base t ts := by
  by_cases hOpen : t.isPunctuation "<" = true
  · refine .kept (depth + 1) ?_ ?_
    · rw [separate, if_pos hOpen]
    · rw [outside, if_pos hOpen]
  by_cases hClose : t.isPunctuation ">" = true
  · refine .kept (depth - 1) ?_ ?_
    · rw [separate, if_neg hOpen, if_pos hClose]
    · rw [outside, if_neg hOpen, if_pos hClose]
  by_cases hInside : depth ≠ 0
  · refine .kept depth ?_ ?_
    · rw [separate, if_neg hOpen, if_neg hClose, if_pos hInside]
    · rw [outside, if_neg hOpen, if_neg hClose, if_pos hInside]
  have hOutside : stars (outside depth (t :: ts)) =
      (if t.isPunctuation "*" then 1 else 0) + stars (outside depth ts) := by
    rw [outside, if_neg hOpen, if_neg hClose, if_neg hInside, stars_cons]
  have hWord {text : String} (hWord : t.isIdentifier text = true) :
      stars (outside depth (t :: ts)) = stars (outside depth ts) ∧ t.text = text := by
    rw [Token.isIdentifier, Bool.and_eq_true, beq_iff_eq, beq_iff_eq] at hWord
    have hStar : t.isPunctuation "*" = false := by
      rw [Token.isPunctuation, hWord.1]
      rfl
    rw [hOutside, hStar, if_neg Bool.false_ne_true, Nat.zero_add]
    exact ⟨rfl, hWord.2⟩
  by_cases hConst : t.isIdentifier "const" = true
  · obtain ⟨hSame, hText⟩ := hWord hConst
    refine .dropped { marks with isConst := true } (by rw [hText]; decide) ?_ rfl hSame
    rw [separate, if_neg hOpen, if_neg hClose, if_neg hInside, if_pos hConst]
  by_cases hVolatile : t.isIdentifier "volatile" = true
  · obtain ⟨hSame, hText⟩ := hWord hVolatile
    refine .dropped marks (by rw [hText]; decide) ?_ rfl hSame
    rw [separate, if_neg hOpen, if_neg hClose, if_neg hInside, if_neg hConst, if_pos hVolatile]
  by_cases hStar : t.isPunctuation "*" = true
  · refine .pointer (Token.text_of_isPunctuation hStar) ?_ (by rw [hOutside, if_pos hStar])
    rw [separate, if_neg hOpen, if_neg hClose, if_neg hInside, if_neg hConst, if_neg hVolatile,
      if_pos hStar]
  rw [if_neg hStar, Nat.zero_add] at hOutside
  by_cases hReference : (t.isPunctuation "&" || t.isPunctuation "&&") = true
  · refine .dropped { marks with isReference := true } ?_ ?_ rfl hOutside
    · rcases Bool.or_eq_true_iff.mp hReference with hMark | hMark
      · rw [Token.text_of_isPunctuation hMark]
        decide
      · rw [Token.text_of_isPunctuation hMark]
        decide
    · rw [separate, if_neg hOpen, if_neg hClose, if_neg hInside, if_neg hConst, if_neg hVolatile,
        if_neg hStar, if_pos hReference]
  by_cases hElaborating : t.isOneOf Words.elaborating = true
  · refine .dropped marks ?_ ?_ rfl hOutside
    · have hNone : ∀ text ∈ Words.elaborating, text.toList.count '*' = 0 := by decide
      rw [Token.isOneOf, Bool.and_eq_true, List.contains_iff_mem] at hElaborating
      exact hNone _ hElaborating.2
    · rw [separate, if_neg hOpen, if_neg hClose, if_neg hInside, if_neg hConst, if_neg hVolatile,
        if_neg hStar, if_neg hReference, if_pos hElaborating]
  · refine .kept depth ?_ hOutside
    rw [separate, if_neg hOpen, if_neg hClose, if_neg hInside, if_neg hConst, if_neg hVolatile,
      if_neg hStar, if_neg hReference, if_neg hElaborating]

theorem starsWritten_separate (depth : Nat) (marks : Marks) (base ts : List Token) :
    starsWritten (separate depth marks base ts).2 + stars (outside depth ts) =
      starsWritten base + starsWritten ts := by
  induction ts generalizing depth marks base with
  | nil =>
    have hAll : starsWritten base.reverse = starsWritten base := by
      rw [starsWritten, List.map_reverse, List.sum_reverse, starsWritten]
    exact congrArg (· + 0) hAll
  | cons t ts ih =>
    rw [starsWritten_cons]
    cases separated depth marks base t ts with
    | kept depth' hSeparate hOutside =>
      rw [hSeparate, hOutside, ih, starsWritten_cons]
      omega
    | pointer hText hSeparate hOutside =>
      have hOne : t.text.toList.count '*' = 1 := by rw [hText]; decide
      rw [hSeparate, hOutside, Nat.add_left_comm, ih]
      omega
    | dropped marks' hText hSeparate _ hOutside =>
      rw [hSeparate, hOutside, ih, hText, Nat.zero_add]

theorem pointerDepth_separate {marks : Marks} (hMarks : marks.pointerDepth ≤ maxPointerDepth)
    (depth : Nat) (base ts : List Token) :
    (separate depth marks base ts).1.pointerDepth =
      min (marks.pointerDepth + stars (outside depth ts)) maxPointerDepth := by
  induction ts generalizing depth marks base with
  | nil => exact (Nat.min_eq_left hMarks).symm
  | cons t ts ih =>
    cases separated depth marks base t ts with
    | kept depth' hSeparate hOutside => rw [hSeparate, hOutside, ih hMarks]
    | pointer _ hSeparate hOutside =>
      rw [hSeparate, hOutside, ih (Nat.min_le_right _ _)]
      simp only
      omega
    | dropped marks' _ hSeparate hDepth hOutside =>
      rw [hSeparate, hOutside, ih (by rwa [hDepth]), hDepth]

theorem base_ofTokens (ts : List Token) :
    (ofTokens ts).base = Token.spell (separate 0 ⟨false, 0, false⟩ [] ts).2 := by
  unfold ofTokens
  cases ts.length <;> rfl

theorem count_spelling (ts : List Token) :
    (ofTokens ts).spelling.toList.count '*' =
      ownPointers ts + (ofTokens ts).base.toList.count '*' := by
  have hSum := starsWritten_separate 0 ⟨false, 0, false⟩ [] ts
  rw [spelling_ofTokens, base_ofTokens, Grammar.count_spell (by decide),
    Grammar.count_spell (by decide), ownPointers]
  simp only [starsWritten, List.map_nil, List.sum_nil] at hSum
  omega

theorem pointerDepth_ofTokens (ts : List Token) :
    (ofTokens ts).pointerDepth = min (ownPointers ts) maxPointerDepth := by
  have hDepth := @pointerDepth_separate ⟨false, 0, false⟩ (Nat.zero_le _) 0 [] ts
  rw [Nat.zero_add] at hDepth
  unfold ofTokens
  cases ts.length <;> exact hDepth

theorem isPointer_ofTokens (ts : List Token) :
    (ofTokens ts).isPointer = true ↔ 0 < ownPointers ts ∨ '*' ∈ (ofTokens ts).base.toList := by
  have hCount := count_spelling ts
  rw [isPointer, Bool.or_eq_true, decide_eq_true_eq, List.contains_iff_mem, pointerDepth_ofTokens,
    ← List.count_pos_iff, ← List.count_pos_iff, hCount]
  unfold maxPointerDepth
  omega

theorem isPointer_functionPointer (result : TypeExpr) (parameters : List TypeExpr) :
    (functionPointer result parameters).isPointer = true ∧
      '*' ∈ (functionPointer result parameters).base.toList := by
  have hStar : '*' ∈ (" (*)(" : String).toList := by decide
  refine ⟨rfl, ?_⟩
  simp only [functionPointer, String.toList_append, List.mem_append]
  exact .inl (.inl (.inr hStar))

theorem ownPointers_concat {t : Token} (h : t.kind = .identifier) (ts : List Token) :
    ownPointers (ts ++ [t]) = ownPointers ts := by
  have hMark (text : String) : t.isPunctuation text = false := by
    rw [Token.isPunctuation, h]
    rfl
  have hLast (depth : Nat) : stars (outside depth [t]) = 0 := by
    by_cases hInside : depth ≠ 0
    · simp [outside, hMark, hInside, stars]
    · simp [outside, hMark, hInside, stars]
  have hAll (depth : Nat) : stars (outside depth (ts ++ [t])) = stars (outside depth ts) := by
    induction ts generalizing depth with
    | nil => exact hLast depth
    | cons u ts ih =>
      simp only [List.cons_append, outside]
      split
      · exact ih _
      · split
        · exact ih _
        · split
          · exact ih _
          · rw [stars_cons, stars_cons, ih]
  exact hAll 0

end TypeExpr

namespace Declarator

/-- Whether the tokens of a parameter declare a pointer: a `*` stands outside of template arguments,
or an array is declared. A default value does not count. -/
def declaresPointer (ts : List Token) : Bool :=
  let own := ts.takeWhile fun t => !t.isPunctuation "="
  own.getLast?.any (·.isPunctuation "]") || 0 < TypeExpr.ownPointers own

theorem readFunctionPointer?_eq_some {readParam? : List Token → Option Param} {ts : List Token}
    {found : Option String × TypeExpr} (h : readFunctionPointer? readParam? ts = some found) :
    ∃ result parameters, found.2 = TypeExpr.functionPointer result parameters := by
  unfold readFunctionPointer? at h
  obtain ⟨⟨result, rest⟩, -, h⟩ := Option.bind_eq_some_iff.mp h
  obtain ⟨_, -, h⟩ := Option.bind_eq_some_iff.mp h
  obtain ⟨⟨inside, _, after⟩, -, h⟩ := Option.bind_eq_some_iff.mp h
  simp only at h
  split at h
  · obtain ⟨_, -, h⟩ := Option.bind_eq_some_iff.mp h
    obtain ⟨_, -, h⟩ := Option.bind_eq_some_iff.mp h
    cases h
    exact ⟨_, _, rfl⟩
  · cases h

theorem exists_of_splitName? {ts type : List Token} {name : String}
    (h : splitName? ts = some (name, type)) :
    ∃ t, ts = type ++ [t] ∧ t.kind = .identifier := by
  unfold splitName? at h
  split at h
  · cases h
  · next last before hReverse =>
    simp only at h
    split at h
    · next hName =>
      cases h
      refine ⟨last, ?_, by simp_all⟩
      rw [← List.reverse_reverse ts, hReverse, List.reverse_cons]
    · cases h

theorem exists_of_readPlainParam (own : List Token) (hasDefault : Bool) :
    ∃ type, TypeExpr.ownPointers type = TypeExpr.ownPointers (stripArray own) ∧
      (readPlainParam own hasDefault).type =
        if own.getLast?.any (·.isPunctuation "]") then
          { TypeExpr.ofTokens type with
            pointerDepth := TypeExpr.addDepths (TypeExpr.ofTokens type).pointerDepth 1
            spelling := (TypeExpr.ofTokens type).spelling ++ "*" }
        else TypeExpr.ofTokens type := by
  cases hSplit : splitName? (stripArray own) with
  | none =>
    refine ⟨stripArray own, rfl, ?_⟩
    simp only [readPlainParam, hSplit]
    split <;> rfl
  | some found =>
    obtain ⟨name, type⟩ := found
    obtain ⟨t, hCut, hKind⟩ := exists_of_splitName? hSplit
    refine ⟨type, by rw [hCut, TypeExpr.ownPointers_concat hKind], ?_⟩
    simp only [readPlainParam, hSplit]
    split <;> rfl

theorem stripArray_of_not_array {own : List Token}
    (hArray : ¬own.getLast?.any (·.isPunctuation "]") = true) : stripArray own = own := by
  rcases List.eq_nil_or_concat own with rfl | ⟨init, last, rfl⟩
  · rw [stripArray, List.reverse_nil, dropExtents]
    rfl
  · rw [List.concat_eq_append] at hArray ⊢
    exact stripArray_concat init (by simpa using hArray)

theorem isPointer_readPlainParam (own : List Token) (hasDefault : Bool) :
    (readPlainParam own hasDefault).type.isPointer = true ↔
      (own.getLast?.any (·.isPunctuation "]") = true ∨ 0 < TypeExpr.ownPointers own) ∨
        '*' ∈ (readPlainParam own hasDefault).type.base.toList := by
  obtain ⟨type, hOwn, hType⟩ := exists_of_readPlainParam own hasDefault
  rw [hType]
  split
  · next hArray =>
    simp only [hArray, true_or, iff_true]
    simp [TypeExpr.isPointer]
  · next hArray =>
    rw [TypeExpr.isPointer_ofTokens, hOwn, stripArray_of_not_array hArray, or_assoc,
      or_iff_right hArray]

theorem declared_readPlainParam_iff_count (own : List Token) (hasDefault : Bool) :
    (own.getLast?.any (·.isPunctuation "]") = true ∨ 0 < TypeExpr.ownPointers own) ↔
      (readPlainParam own hasDefault).type.base.toList.count '*' <
        (readPlainParam own hasDefault).type.spelling.toList.count '*' := by
  obtain ⟨type, hOwn, hType⟩ := exists_of_readPlainParam own hasDefault
  have hCount := TypeExpr.count_spelling type
  rw [hType]
  split
  · next hArray =>
    have hOne : ("*" : String).toList.count '*' = 1 := by decide
    simp only [hArray, true_or, true_iff, String.toList_append, List.count_append]
    omega
  · next hArray =>
    rw [stripArray_of_not_array hArray] at hOwn
    rw [or_iff_right hArray, ← hOwn]
    omega

theorem readParam?_eq_some {ts : List Token} {p : Param} (h : readParam? ts = some p) :
    (∃ result parameters, p.type = TypeExpr.functionPointer result parameters) ∨
      ∃ hasDefault, p = readPlainParam (ts.takeWhile fun t => !t.isPunctuation "=") hasDefault := by
  rw [readParam?, readParamWithin_eq_paramFrom] at h
  unfold paramFrom at h
  extract_lets hasDefault own isNone at h
  split at h
  · cases h
  · split at h
    · next name? type hPointer =>
      cases h
      cases hLevels : ts.length with
      | zero =>
        rw [hLevels] at hPointer
        cases hPointer
      | succ levels =>
        rw [hLevels] at hPointer
        obtain ⟨result, parameters, rfl⟩ := readFunctionPointer?_eq_some hPointer
        exact .inl ⟨result, parameters, rfl⟩
    · cases h
      exact .inr ⟨hasDefault, rfl⟩

theorem isPointer_of_readParam? {ts : List Token} {p : Param} (h : readParam? ts = some p) :
    p.type.isPointer = true ↔ declaresPointer ts = true ∨ '*' ∈ p.type.base.toList := by
  rcases readParam?_eq_some h with ⟨result, parameters, hType⟩ | ⟨hasDefault, rfl⟩
  · obtain ⟨hPointer, hStar⟩ := TypeExpr.isPointer_functionPointer result parameters
    simp only [hType, hPointer, hStar, or_true]
  · rw [isPointer_readPlainParam, declaresPointer, Bool.or_eq_true, decide_eq_true_eq]

theorem declaresPointer_iff_count {ts : List Token} {p : Param} (h : readParam? ts = some p)
    (hPlain : p.type.signature = none) :
    declaresPointer ts = true ↔
      p.type.base.toList.count '*' < p.type.spelling.toList.count '*' := by
  rcases readParam?_eq_some h with ⟨result, parameters, hType⟩ | ⟨hasDefault, rfl⟩
  · rw [hType] at hPlain
    cases hPlain
  · rw [← declared_readPlainParam_iff_count, declaresPointer, Bool.or_eq_true, decide_eq_true_eq]

theorem sublist_of_mem_splitTopFrom {separator : String} {depth : Int} {passed ts part : List Token}
    (h : part ∈ Token.splitTopFrom separator depth passed ts) :
    part.Sublist (passed.reverse ++ ts) := by
  have hStep {u : Token} {passed ts : List Token}
      (hRest : part.Sublist ((u :: passed).reverse ++ ts)) :
      part.Sublist (passed.reverse ++ u :: ts) := by
    simpa using hRest
  fun_induction Token.splitTopFrom separator depth passed ts with
  | case1 depth passed =>
    rw [List.mem_singleton.mp h, List.append_nil]
  | case2 depth passed u ts _ ih =>
    rcases List.mem_cons.mp h with rfl | h
    · exact List.sublist_append_left _ _
    · exact (ih h).trans ((List.sublist_cons_self u ts).trans (List.sublist_append_right _ _))
  | case3 depth passed u ts _ _ ih => exact hStep (ih h)
  | case4 depth passed u ts _ _ _ ih => exact hStep (ih h)
  | case5 depth passed u ts _ _ _ ih => exact hStep (ih h)

def ReadFrom (p : Param) (ts : List Token) : Prop :=
  ∃ own, own.Sublist ts ∧ readParam? own = some p

theorem ReadFrom.mono {p : Param} {ts us : List Token} (h : ReadFrom p ts)
    (hSublist : ts.Sublist us) : ReadFrom p us := by
  obtain ⟨own, hOwn, hRead⟩ := h
  exact ⟨own, hOwn.trans hSublist, hRead⟩

theorem readFrom_of_readMethod {before rest : List Token} {name : Token} {member? : Option Member}
    {m : Method} (h : readMethod before name rest member? = .method m) {p : Param}
    (hp : p ∈ m.params) : ReadFrom p rest := by
  unfold readMethod at h
  extract_lets isDestructor start result kind at h
  split at h
  · cases h
  · split at h
    · cases h
    · next params close trailing hGroup =>
      extract_lets qualifiers method at h
      have hParams : m.params = (Token.splitAtCommas params).filterMap readParam? := by
        split at h
        · split at h
          · cases h
            rfl
          · cases h
        · cases h
          rfl
      rw [hParams] at hp
      obtain ⟨own, hOwn, hRead⟩ := List.mem_filterMap.mp hp
      refine ⟨own, (sublist_of_mem_splitTopFrom hOwn).trans ?_, hRead⟩
      obtain ⟨inside, rfl, rfl⟩ := Token.closeGroupFrom?_eq_some hGroup
      exact List.sublist_append_left _ _

theorem readFrom_of_classify {head : List Token} {member? : Option Member} {m : Method}
    (h : classify head member? = .method m) {p : Param} (hp : p ∈ m.params) : ReadFrom p head := by
  unfold classify at h
  split at h
  · cases h
  · split at h
    · split at h
      · unfold readFields at h
        simp only at h
        split at h
        · cases h
        · cases h
      · cases h
    · next before rest hParams =>
      obtain ⟨taken, opener, -, rfl⟩ := splitAtParams_eq_some hParams
      split at h
      · unfold readPointerField at h
        split at h
        · cases h
        · cases h
      · split at h
        · split at h
          · have hRest : rest.Sublist (taken ++ opener :: rest) :=
              (List.sublist_cons_self opener rest).trans (List.sublist_append_right taken _)
            exact (readFrom_of_readMethod h hp).mono hRest
          · cases h
        · cases h

end Declarator

namespace Declaration

open Declarator (Member ReadFrom)

theorem readFrom_of_readDeclaration {member? : Option Member} {taken : List Token} {item : Item}
    (h : readDeclaration member? (taken ++ item.rest) = .ok item) {m : Method}
    (hMethod : item.declared = .method m) {p : Param} (hp : p ∈ m.params) : ReadFrom p taken := by
  obtain ⟨head, after, hSplit, hLeft⟩ := exists_leftOver_of_read h
  have hHead {own : Method}
      (hOwn : Declarator.classify (Declarator.clean head) member? = .method own)
      (hp : p ∈ own.params) : ReadFrom p taken :=
    (Declarator.readFrom_of_classify hOwn hp).mono
      ((Declarator.clean_sublist head).trans (hLeft.head_prefix hSplit rfl).sublist)
  cases readDeclaration_eq_ok_iff.mp h with
  | file _ => cases hMethod
  | scope _ _ => cases hMethod
  | semicolon hSplit' _ =>
    cases hSplit.symm.trans hSplit'
    exact hHead hMethod hp
  | body hSplit' _ _ =>
    cases hSplit.symm.trans hSplit'
    obtain ⟨own, hOwn, rfl⟩ := exists_of_withBody hMethod
    exact hHead hOwn hp

theorem readFrom_of_read {files : List Source.File} {ts : List Token} {d : Declarations}
    (h : read files ts = .ok d) {c : Class} (hc : c ∈ d.classes) {m : Method} (hm : m ∈ c.methods)
    {p : Param} (hp : p ∈ m.params) : ReadFrom p ts := by
  obtain ⟨keyword, inside, close, hTaken, hIn⟩ := (found_of_read h).placed.standsIn c hc
  obtain ⟨member, taken, item, hPart, hItem, hMethod⟩ := declaration_of_takenFrom hTaken hm
  have hInside : inside <:+: ts := List.IsInfix.trans ⟨[keyword], [close], by simp⟩ hIn
  exact (readFrom_of_readDeclaration hItem hMethod hp).mono (hPart.trans hInside).sublist

end Declaration

end SkeletonWeave
