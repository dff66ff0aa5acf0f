import SkeletonWeave.Proofs.Declaration.Nesting
import SkeletonWeave.Proofs.Declaration.Reading

/-!
# Where methods are defined

A method of a class that has a body is read from a part of the class: a head, a
brace, and the tokens through the brace that closes it.
-/

set_option autoImplicit false

namespace SkeletonWeave

open Declarator (Declared Member)

/-- Whether the reader makes a method of a head, an opening brace, what is inside and the brace that
closes it. -/
def Method.TakenFrom (m : Method) (head : List Token) (opening : Token) (inside : List Token)
    (closing : Token) : Prop :=
  opening.isPunctuation "\x7b" = true ∧ closing.isPunctuation "\x7d" = true ∧
    m.body? = some ⟨opening.span, closing.span⟩ ∧
    ∃ member after,
      Token.closeGroup? "\x7b" (inside ++ closing :: after) = some (inside, closing, after) ∧
      Declaration.readDeclaration (some member) (head ++ opening :: (inside ++ closing :: after)) =
        .ok ⟨.method m, Declaration.dropSemicolon after⟩

theorem Token.closer_of_closeGroupFrom? {opener : String} {depth : Nat}
    {passed ts group rest : List Token} {close : Token}
    (h : closeGroupFrom? opener depth passed ts = some (group, close, rest)) :
    close.isPunctuation (closer opener) = true := by
  fun_induction closeGroupFrom? opener depth passed ts with
  | case1 => cases h
  | case2 _ _ _ _ _ ih => exact ih h
  | case3 _ _ _ _ hClose =>
    cases h
    exact hClose
  | case4 _ _ _ _ _ _ ih => exact ih h
  | case5 _ _ _ _ _ _ ih => exact ih h

namespace Declaration

theorem exists_of_withBody {opening closing : Token} {declared : Declared} {m : Method}
    (h : withBody opening closing declared = .method m) :
    ∃ own, declared = .method own ∧ m = { own with body? := some ⟨opening.span, closing.span⟩ } := by
  cases declared with
  | method own => exact ⟨own, rfl, (Declared.method.inj h).symm⟩
  | nothing => cases h
  | fields fs => cases h

theorem readDeclaration_body {member : Member} {ts : List Token} {item : Item} {m : Method}
    (h : readDeclaration (some member) ts = .ok item) (hMethod : item.declared = .method m)
    {body : Source.Body} (hBody : m.body? = some body) :
    ∃ head opening inside closing after, ts = head ++ opening :: (inside ++ closing :: after) ∧
      item.rest = dropSemicolon after ∧ body = ⟨opening.span, closing.span⟩ ∧
      (∃ name ∈ head, m.nameSpan = name.span) ∧ m.TakenFrom head opening inside closing := by
  have hRead := h
  cases readDeclaration_eq_ok_iff.mp h with
  | file _ => cases hMethod
  | scope _ _ => cases hMethod
  | @semicolon _ head _ _ _ =>
    have hNone := Declarator.classify_braces (Declarator.clean head) (some member)
    simp only at hMethod
    rw [hMethod, Declarator.Declared.braces, Method.braces, hBody] at hNone
    cases hNone
  | @body opening closing head _ inside after hSplit hOpen hGroup =>
    obtain rfl := splitDeclaration_eq_ok hSplit
    obtain rfl := closeGroup_eq_ok hGroup
    rw [closeGroup, Token.text_of_isPunctuation hOpen] at hGroup
    have hFound : Token.closeGroup? "\x7b" (inside ++ closing :: after) =
        some (inside, closing, after) := by
      split at hGroup
      · next group hFound =>
        rw [hFound]
        exact congrArg some (Except.ok.inj hGroup)
      · cases hGroup
    simp only at hMethod
    obtain ⟨own, hOwn, rfl⟩ := exists_of_withBody hMethod
    obtain ⟨name, hName, hSpan⟩ := Declarator.exists_name_of_classify hOwn
    obtain rfl : body = ⟨opening.span, closing.span⟩ := (Option.some.inj hBody).symm
    rw [hMethod] at hRead
    exact ⟨head, opening, inside, closing, after, rfl, rfl, rfl,
      ⟨name, (Declarator.clean_sublist head).subset hName, hSpan⟩, hOpen,
      Token.closer_of_closeGroupFrom? hFound, rfl, member, after, hFound, hRead⟩

def DeclaredIn (m : Method) (ts last : List Token) : Prop :=
  ∃ member us item, us <:+ ts ∧ readDeclaration (some member) us = .ok item ∧
    item.declared = .method m ∧ last <:+ item.rest

theorem DeclaredIn.before {m : Method} {ts us last : List Token} (h : DeclaredIn m us last)
    (hSuffix : us <:+ ts) : DeclaredIn m ts last := by
  obtain ⟨member, vs, item, hVs, hRest⟩ := h
  exact ⟨member, vs, item, hVs.trans hSuffix, hRest⟩

theorem readClassOrDeclaration_method {readBody : BodyReader} {scope : Scope}
    {member? : Option Member} {d : Declarations} {keyword : Token} {ts : List Token} {m : Method}
    {r : Reached}
    (hKeyword : keyword.text = "class" ∨ keyword.text = "struct" ∨ keyword.text = "union")
    (h : readClassOrDeclaration readBody scope member? d keyword ts = .ok (.method m, r)) :
    ∃ item, readDeclaration member? (keyword :: ts) = .ok item ∧ item.declared = .method m ∧
      r.rest = item.rest := by
  generalize hResult : (Declared.method m, r) = result at h
  cases fromKeyword_of_read hKeyword h with
  | definition _ _ _ _ => cases hResult
  | declaration _ _ hItem =>
    obtain ⟨hMethod, rfl⟩ := Prod.mk.inj hResult
    exact ⟨_, hItem, hMethod.symm, rfl⟩

theorem readMember_method {readBody : BodyReader} {scope : Scope} {member : Member}
    {d : Declarations} {t : Token} {ts : List Token} {m : Method} {r : Reached}
    (h : readMember readBody scope member d t ts = .ok (.method m, r)) :
    ∃ item, readDeclaration (some member) (t :: ts) = .ok item ∧ item.declared = .method m ∧
      r.rest = item.rest := by
  have hNothing {α : Type} {result : Outcome α} {next : α → Reached}
      (h : (do return (Declared.nothing, next (← result))) = Except.ok (Declared.method m, r)) :
      False := by
    rw [bind_eq_ok] at h
    obtain ⟨_, -, h⟩ := h
    cases h
  obtain ⟨form, hForm⟩ := Form.exists_starts passedMembers t.text
  rw [readMember_eq hForm] at h
  cases form with
  | passed => exact (hNothing h).elim
  | typeAlias => exact (hNothing h).elim
  | template => exact (hNothing h).elim
  | typedef => exact (hNothing h).elim
  | classLike => exact readClassOrDeclaration_method hForm h
  | plain =>
    rw [Form.read, bind_eq_ok] at h
    obtain ⟨item, hItem, h⟩ := h
    obtain ⟨hMethod, rfl⟩ := Prod.mk.inj (Except.ok.inj h)
    exact ⟨item, hItem, hMethod, rfl⟩

theorem mem_add {members : Members} {line : Nat} {declared : Declared} {m : Method}
    (h : m ∈ (members.add line declared).methods) :
    m ∈ members.methods ∨ declared = .method m := by
  cases declared with
  | nothing => exact .inl h
  | fields fs => exact .inl h
  | method own =>
    rcases List.mem_append.mp h with h | h
    · exact .inl h
    · rw [List.mem_singleton.mp h]
      exact .inr rfl

theorem readMembers_declares {steps : Nat} {scope : Scope} {name : String} {opener : Token}
    {access : Access} {members : Members} {d : Declarations} {ts : List Token} {body : Body}
    (h : readMembers steps scope name opener access members d ts = .ok body) {m : Method}
    (hm : m ∈ body.members.methods) :
    m ∈ members.methods ∨ DeclaredIn m ts (body.close :: body.reached.rest) := by
  induction steps generalizing access members d ts with
  | zero =>
    unfold readMembers at h
    cases h
  | succ steps ih =>
    cases ts with
    | nil =>
      unfold readMembers at h
      cases h
    | cons t rest =>
      obtain ⟨part, hPart⟩ := BodyPart.exists_starts t rest
      rw [readMembers_eq hPart] at h
      cases part with
      | close =>
        cases h
        exact .inl hm
      | semicolon => exact (ih h).imp_right fun hRest => hRest.before (List.suffix_cons t rest)
      | label access =>
        have hSuffix := (List.tail_suffix rest).trans (List.suffix_cons t rest)
        exact (ih h).imp_right fun hRest => hRest.before hSuffix
      | member =>
        rw [BodyPart.read, bind_eq_ok] at h
        obtain ⟨⟨declared, reached⟩, hMember, h⟩ := h
        obtain ⟨_, -, taken, _, hTaken, -⟩ := readMembers_follows h
        rcases ih h with hAdded | hLater
        · rcases mem_add hAdded with hEarlier | rfl
          · exact .inl hEarlier
          · obtain ⟨item, hItem, hMethod, hRest⟩ := readMember_method hMember
            refine .inr ⟨_, _, item, List.suffix_refl _, hItem, hMethod, taken, ?_⟩
            rw [← hRest, hTaken]
        · obtain ⟨first, _, hFirst, -⟩ := readMember_advances (bodyReader_sound steps) hMember
          exact .inr (hLater.before ⟨first, hFirst.symm⟩)

theorem declaration_of_takenFrom {c : Class} {keyword close : Token} {inside : List Token}
    (hTaken : c.TakenFrom (keyword :: (inside ++ [close]))) {m : Method} (hm : m ∈ c.methods) :
    ∃ member taken item, taken <:+: inside ∧
      readDeclaration (some member) (taken ++ item.rest) = .ok item ∧ item.declared = .method m := by
  obtain ⟨steps, scope, d, keyword', head, opener, rest, after, declarations, read, -, hExtent,
    hRead, hLast, hSame⟩ := hTaken
  obtain ⟨body, hMembers, hReached⟩ := readClass_eq_ok_iff.mp hRead
  obtain ⟨_, -, inner, _, hInner, -⟩ := readMembers_follows hMembers
  cases hReached
  rw [Declarations.addClass, List.getLast?_concat] at hLast
  cases hLast
  have hEnd : rest = inner ++ [body.close] := by
    have hAll : rest ++ body.reached.rest = (inner ++ [body.close]) ++ body.reached.rest := by
      rw [hInner, List.append_assoc]
      rfl
    exact List.append_cancel_right hAll
  have hInside : inside = head ++ opener :: inner := by
    obtain ⟨-, hTail⟩ := List.cons.inj hExtent
    rw [hEnd, ← List.cons_append, ← List.append_assoc] at hTail
    exact (List.append_inj' hTail rfl).1
  rw [hSame] at hm
  rcases readMembers_declares hMembers hm with hNone | ⟨member, us, item, hUs, hItem, hMethod, hLast⟩
  · cases hNone
  · obtain ⟨taken, rfl, -⟩ := readDeclaration_eq_ok hItem
    refine ⟨member, taken, item, ?_, hItem, hMethod⟩
    obtain ⟨between, hBetween⟩ := hLast
    obtain ⟨before, hCut⟩ := hUs
    have hInnerCut : inner = before ++ taken ++ between := by
      have hAll : inner ++ body.close :: body.reached.rest =
          (before ++ taken ++ between) ++ body.close :: body.reached.rest := by
        rw [List.append_assoc, hBetween, List.append_assoc, hCut, hInner]
      exact List.append_cancel_right hAll
    rw [hInside, hInnerCut]
    exact ⟨head ++ opener :: before, between, by simp⟩

/-- A method of a class that has a body is taken from a part of the class, and named in its head. -/
theorem definition_of_takenFrom {c : Class} {keyword close : Token} {inside : List Token}
    (hTaken : c.TakenFrom (keyword :: (inside ++ [close]))) {m : Method} (hm : m ∈ c.methods)
    {body : Source.Body} (hBody : m.body? = some body) :
    ∃ head opening within closing, head ++ opening :: (within ++ [closing]) <:+: inside ∧
      body = ⟨opening.span, closing.span⟩ ∧ (∃ name ∈ head, m.nameSpan = name.span) ∧
      m.TakenFrom head opening within closing := by
  obtain ⟨member, taken, item, hIn, hItem, hMethod⟩ := declaration_of_takenFrom hTaken hm
  obtain ⟨head, opening, within, closing, later, hCut, hLater, hSpans, hName, hFrom⟩ :=
    readDeclaration_body hItem hMethod hBody
  refine ⟨head, opening, within, closing, ?_, hSpans, hName, hFrom⟩
  obtain ⟨semicolon, hSemicolon⟩ := dropSemicolon_suffix later
  have hTaken : taken = head ++ opening :: (within ++ [closing]) ++ semicolon := by
    have hAll : taken ++ item.rest =
        head ++ opening :: (within ++ [closing]) ++ semicolon ++ item.rest := by
      rw [hCut, hLater, List.append_assoc _ semicolon, hSemicolon]
      simp
    exact List.append_cancel_right hAll
  rw [hTaken] at hIn
  exact (List.prefix_append _ semicolon).isInfix.trans hIn

end Declaration

end SkeletonWeave
