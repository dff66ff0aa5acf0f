import SkeletonWeave.Proofs.Declaration.Inserting

/-!
# Every step takes a token

A step of the reader that starts with a token other than a closing brace leaves
a part of what follows that token.
-/

set_option autoImplicit false

namespace SkeletonWeave

open Declarator (Declared Member)

namespace Declaration

variable {d : Declarations}

theorem skip_suffix_tail {t : Token} {ts rest : List Token} (h : skip (t :: ts) = .ok rest)
    (hNot : t.isPunctuation "\x7d" = false) : rest <:+ ts := by
  obtain ⟨head, after, hSplit, hLeft⟩ := exists_leftOver_of_skip h
  exact hLeft.suffix_tail hSplit hNot

theorem readDeclaration_suffix_tail {member? : Option Member} {t : Token} {ts : List Token}
    {item : Item} (h : readDeclaration member? (t :: ts) = .ok item)
    (hNot : t.isPunctuation "\x7d" = false) : item.rest <:+ ts := by
  obtain ⟨head, after, hSplit, hLeft⟩ := exists_leftOver_of_read h
  exact hLeft.suffix_tail hSplit hNot

theorem readUsing_suffix_tail {scope : Scope} {keyword : Token} {ts : List Token} {r : Reached}
    (h : readUsing scope d keyword ts = .ok r) (hNot : keyword.isPunctuation "\x7d" = false) :
    r.rest <:+ ts := by
  by_cases hAlias : ∃ named equals after, ts = named :: equals :: after ∧
      named.kind = .identifier ∧ equals.isPunctuation "=" = true
  · obtain ⟨named, equals, after, rfl, hNamed, hEquals⟩ := hAlias
    unfold readUsing at h
    simp only [hNamed, hEquals, and_self, if_true] at h
    rw [bind_eq_ok] at h
    obtain ⟨⟨target, rest⟩, hSplit, h⟩ := h
    obtain rfl := splitDeclaration_eq_ok hSplit
    cases h
    exact (dropSemicolon_suffix rest).trans ⟨named :: equals :: target, by simp⟩
  · rw [readUsing_eq_skip scope d keyword hAlias] at h
    obtain ⟨rest, hSkip, rfl⟩ := map_eq_ok h
    exact skip_suffix_tail hSkip hNot

theorem readClassOrDeclaration_suffix_tail {readBody : BodyReader} (hSound : readBody.Sound)
    {scope : Scope} {member? : Option Member} {t : Token} {ts : List Token}
    {result : Declared × Reached}
    (hWord : t.text = "class" ∨ t.text = "struct" ∨ t.text = "union")
    (h : readClassOrDeclaration readBody scope member? d t ts = .ok result) :
    result.2.rest <:+ ts := by
  cases fromKeyword_of_read hWord h with
  | @definition head _ _ opener _ hSplit _ hClass hLeave =>
    obtain ⟨inside, _, _, rfl, -⟩ := readClass_grounded hSound hWord hClass
    obtain ⟨-, hTail⟩ := List.cons.inj (splitDeclaration_eq_ok hSplit)
    refine (leaveClass_suffix hLeave).trans ⟨head ++ opener :: inside, ?_⟩
    rw [show ts = _ from hTail]
    simp
  | declaration _ _ hItem =>
    refine readDeclaration_suffix_tail hItem (isPunctuation_of_text rfl ?_)
    rintro hText
    rw [hText] at hWord
    exact absurd hWord (by decide)

theorem Form.read_suffix_tail {readBody : BodyReader} (hSound : readBody.Sound) {form : Form}
    {passedWords : List String} {t : Token} (hForm : form.Starts passedWords t.text) {scope : Scope}
    {member? : Option Member} {ts : List Token} {result : Declared × Reached}
    (h : form.read readBody scope member? d t ts = .ok result)
    (hNot : t.isPunctuation "\x7d" = false) : result.2.rest <:+ ts := by
  cases form with
  | passed =>
    rw [Form.read, bind_eq_ok] at h
    obtain ⟨rest, hSkip, h⟩ := h
    cases h
    exact skip_suffix_tail hSkip hNot
  | typeAlias =>
    rw [Form.read, bind_eq_ok] at h
    obtain ⟨r, hUsing, h⟩ := h
    cases h
    exact readUsing_suffix_tail hUsing hNot
  | template =>
    rw [Form.read, bind_eq_ok] at h
    obtain ⟨rest, hSkip, h⟩ := h
    cases h
    exact skipTemplate_suffix hSkip
  | typedef =>
    rw [Form.read, bind_eq_ok] at h
    obtain ⟨r, hTypedef, h⟩ := h
    cases h
    obtain ⟨taken, _, hTaken, -⟩ := readTypedef_advances hSound hTypedef
    exact ⟨taken, hTaken.symm⟩
  | classLike => exact readClassOrDeclaration_suffix_tail hSound hForm h
  | plain =>
    rw [Form.read, bind_eq_ok] at h
    obtain ⟨item, hItem, h⟩ := h
    cases h
    exact readDeclaration_suffix_tail hItem hNot

theorem readMember_suffix_tail {readBody : BodyReader} (hSound : readBody.Sound) {scope : Scope}
    {member : Member} {t : Token} {ts : List Token} {result : Declared × Reached}
    (h : readMember readBody scope member d t ts = .ok result)
    (hNot : t.isPunctuation "\x7d" = false) : result.2.rest <:+ ts := by
  obtain ⟨form, hForm⟩ := Form.exists_starts passedMembers t.text
  rw [readMember_eq hForm] at h
  exact Form.read_suffix_tail hSound hForm h hNot

theorem readItem_suffix_tail
    {readInner : Scope → Token → Declarations → List Token → Outcome Reached}
    (hInner : ∀ scope opener d ts r, readInner scope opener d ts = .ok r → r.rest <:+ ts)
    {scope : Scope} {t : Token} {ts : List Token} {r : Reached}
    (h : readItem readInner scope d t ts = .ok r) (hNot : t.isPunctuation "\x7d" = false) :
    r.rest <:+ ts := by
  obtain ⟨form, hForm⟩ := exists_isItem t ts
  rw [readItem_eq hForm] at h
  cases form with
  | inner names opener after =>
    exact (hInner _ _ _ _ _ h).trans ((List.suffix_cons opener after).trans hForm.inner_suffix)
  | bodiless rest =>
    rw [ItemForm.read, bind_eq_ok] at h
    obtain ⟨left, hSkip, h⟩ := h
    cases h
    exact (skip_suffix hSkip).trans hForm.bodiless_suffix
  | inlineSpace =>
    cases h
    exact List.suffix_refl ts
  | shared form =>
    rw [ItemForm.read, bind_eq_ok] at h
    obtain ⟨⟨declared, reached⟩, hRead, h⟩ := h
    cases h
    rw [form.record_rest]
    exact Form.read_suffix_tail readBody_sound hForm.starts hRead hNot

end Declaration

end SkeletonWeave
