import SkeletonWeave.Proofs.Declaration.RewrittenClasses

/-!
# Functions that are inserted

A function with an empty body is read wherever a declaration may start, up to
what follows it. It adds a method to a class, or a function to a scope, and no
class to either.
-/

set_option autoImplicit false

namespace SkeletonWeave

open Declarator (Declared Member)
open Token (Nested IsStub brackets closer)

theorem Token.Nested.exists_parenthesis {ts : List Token} (h : Nested ts) {close : Token}
    (hMem : close ∈ ts) (hClose : close.isPunctuation ")" = true) :
    ∃ t ∈ ts, t.isPunctuation "(" = true := by
  induction h with
  | nil => cases hMem
  | @plain t ts hPlain _ ih =>
    rcases List.mem_cons.mp hMem with rfl | hMem
    · have hNot := (isPunctuation_of_isBracket hPlain (by simp [brackets] : "(" ∈ brackets)).2
      have hCloser : closer "(" = ")" := by decide
      rw [hCloser, hClose] at hNot
      cases hNot
    · obtain ⟨u, hu, hOpen⟩ := ih hMem
      exact ⟨u, List.mem_cons_of_mem t hu, hOpen⟩
  | @group opener last inside rest hText hOpen hLast _ _ ihInside ihRest =>
    rcases List.mem_cons.mp hMem with rfl | hMem
    · rw [text_of_isPunctuation hClose] at hText
      exact absurd hText (by decide)
    · rcases List.mem_append.mp hMem with hMem | hMem
      · obtain ⟨u, hu, hMark⟩ := ihInside hMem
        exact ⟨u, by simp [hu], hMark⟩
      · rcases List.mem_cons.mp hMem with rfl | hMem
        · refine ⟨opener, List.mem_cons_self, ?_⟩
          have hSame : closer opener.text = ")" :=
            (text_of_isPunctuation hLast).symm.trans (text_of_isPunctuation hClose)
          rcases brackets_cases hText with h | h | h
          · rw [h] at hOpen
            exact hOpen
          · rw [h] at hSame
            exact absurd hSame (by decide)
          · rw [h] at hSame
            exact absurd hSame (by decide)
        · obtain ⟨u, hu, hMark⟩ := ihRest hMem
          exact ⟨u, by simp [hu], hMark⟩

namespace Declaration

theorem Extent.split_flat {ts : List Token} (h : Nested ts)
    (hFlat : ∀ t ∈ ts, t.isPunctuation ";" = false ∧ t.isPunctuation "\x7b" = false ∧
      t.isPunctuation "\x7d" = false) {e : Extent} (hGroup : e.group? = none) :
    ∃ next : Extent, next.group? = none ∧ next.passed = ts.reverse ++ e.passed ∧
      ∀ rest, e.split (ts ++ rest) = next.split rest := by
  induction h generalizing e with
  | nil => exact ⟨e, hGroup, rfl, fun _ => rfl⟩
  | @plain t ts hPlain _ ih =>
    obtain ⟨hSemicolon, hOpen, hClose⟩ := hFlat t List.mem_cons_self
    have hRound := (Token.isPunctuation_of_isBracket hPlain (by simp [brackets] : "(" ∈ brackets)).1
    have hSquare := (Token.isPunctuation_of_isBracket hPlain (by simp [brackets] : "[" ∈ brackets)).1
    have hStep : (e.passOutside t).group? = none := by
      simp [passOutside, hRound, hSquare, hOpen, pass, hGroup]
    obtain ⟨next, hNext, hPassed, hSplit⟩ :=
      ih (fun u hu => hFlat u (List.mem_cons_of_mem t hu)) hStep
    refine ⟨next, hNext, ?_, fun rest => ?_⟩
    · rw [hPassed, passOutside_passed, List.reverse_cons, List.append_assoc]
      rfl
    · rw [List.cons_append, split, hGroup]
      simp only [endsAt, hSemicolon, hOpen, hClose, Bool.false_and, Bool.or_self, Bool.false_eq_true,
        if_false]
      exact hSplit rest
  | @group opener close inside more hText hOpen hClose hInside hMore _ ih =>
    obtain ⟨hSemicolon, hBrace, hCloseBrace⟩ := hFlat opener List.mem_cons_self
    have hEnds : e.endsAt opener = false := by
      simp [endsAt, hSemicolon, hBrace, hCloseBrace]
    obtain ⟨next, hNext, hPassed, hSplit⟩ :=
      @ih (fun u hu => hFlat u (by simp [hu]))
        ⟨close :: (inside.reverse ++ opener :: e.passed), none,
          e.seenParams || opener.isPunctuation "(", e.inInitializers⟩ rfl
    refine ⟨next, hNext, ?_, fun rest => ?_⟩
    · rw [hPassed]
      simp
    · rw [List.cons_append, List.append_assoc, List.cons_append,
        split_bracketed hGroup hEnds hText hOpen hClose hInside]
      exact hSplit rest

theorem splitDeclaration_stub {added : List Token} (h : IsStub added) :
    ∃ head opening closing, added = head ++ [opening, closing] ∧
      opening.isPunctuation "\x7b" = true ∧ closing.isPunctuation "\x7d" = true ∧
      (∃ t ∈ head, t.isPunctuation "(" = true) ∧
      ∀ us, splitDeclaration (added ++ us) = .ok (head, opening :: closing :: us) := by
  cases h with
  | @intro head first last opening closing hFirst hWord hNested hFlat hLast hParenthesis hOpen hClose =>
    have hLastMem : last ∈ head := List.mem_of_getLast? hLast
    refine ⟨head, opening, closing, rfl, hOpen, hClose, hNested.exists_parenthesis hLastMem hParenthesis,
      fun us => ?_⟩
    obtain ⟨next, hNext, hPassed, hSplit⟩ :=
      Extent.split_flat hNested hFlat (rfl : Extent.start.group? = none)
    have hStart : Extent.start.passed = [] := rfl
    rw [hStart, List.append_nil] at hPassed
    have hBraces : next.bracesInitialize = false := by
      obtain ⟨before, rfl⟩ := List.getLast?_eq_some_iff.mp hLast
      have hKind : last.kind = .punctuation := by
        rw [Token.isPunctuation, Bool.and_eq_true, beq_iff_eq] at hParenthesis
        exact hParenthesis.1
      rw [Extent.bracesInitialize, hPassed, List.reverse_append]
      simp only [List.reverse_singleton, List.singleton_append,
        Token.isPunctuation_eq_decide hParenthesis, hKind]
      simp
    have hEnds : next.endsAt opening = true := by
      simp [Extent.endsAt, hOpen, hBraces]
    rw [splitDeclaration, List.append_assoc, hSplit, List.cons_append, List.cons_append, List.nil_append,
      Extent.split, hNext]
    simp only [hEnds, if_true]
    rw [hPassed, List.reverse_reverse]

def StartsFresh (ts : List Token) : Prop := ∀ t us, ts = t :: us → t.isPunctuation ";" = false

theorem StartsFresh.dropSemicolon_eq {ts : List Token} (h : StartsFresh ts) : dropSemicolon ts = ts := by
  cases ts with
  | nil => rfl
  | cons t ts => simp [dropSemicolon, h t ts rfl]

theorem readDeclaration_stub (member? : Option Member) {added us : List Token} (h : IsStub added)
    (hFresh : StartsFresh us) :
    ∃ declared, readDeclaration member? (added ++ us) = .ok ⟨declared, us⟩ := by
  obtain ⟨head, opening, closing, -, hOpen, hClose, -, hSplit⟩ := splitDeclaration_stub h
  have hGroup := closeGroup_nested .nil hOpen hClose us
  rw [List.nil_append] at hGroup
  have hFrom : FromDeclaration member? (added ++ us) _ := .body (hSplit us) hOpen hGroup
  rw [hFresh.dropSemicolon_eq] at hFrom
  exact ⟨_, readDeclaration_eq_ok_iff.mpr hFrom⟩

theorem readClassOrDeclaration_stub (readBody : BodyReader) (scope : Scope)
    (member? : Option Member) (d : Declarations) {first : Token} {rest us : List Token}
    (h : IsStub (first :: rest)) (hFresh : StartsFresh us) :
    ∃ declared, readClassOrDeclaration readBody scope member? d first (rest ++ us) =
      .ok (declared, ⟨d, us⟩) := by
  obtain ⟨head, opening, closing, -, -, -, ⟨t, ht, hParenthesis⟩, hSplit⟩ := splitDeclaration_stub h
  obtain ⟨declared, hRead⟩ := readDeclaration_stub member? h hFresh
  have hNot : definesClass head (opening :: closing :: us) = false := by
    have hAny : (head.any fun t => t.isPunctuation "(" || t.isPunctuation "=") = true :=
      List.any_eq_true.mpr ⟨t, ht, by simp [hParenthesis]⟩
    rw [definesClass, hAny, Bool.not_true, Bool.and_false]
  refine ⟨declared, (readClassOrDeclaration_of_not readBody scope member? d (hSplit us) hNot).trans ?_⟩
  exact congrArg (Except.map _) hRead

theorem ne_of_unlike {first : Token} (hFirst : first.text ∉ Words.unlikeFunction) {word : String}
    (hWord : word ∈ Words.unlikeFunction) : first.text ≠ word := by
  rintro rfl
  exact hFirst hWord

theorem Form.read_stub (readBody : BodyReader) (scope : Scope) (member? : Option Member) (d : Declarations)
    {form : Form} {first : Token} {rest us : List Token} {passedWords : List String}
    (hForm : form.Starts passedWords first.text) (hPassed : passedWords ⊆ Words.unlikeFunction)
    (h : IsStub (first :: rest)) (hFirst : first.text ∉ Words.unlikeFunction) (hFresh : StartsFresh us) :
    ∃ declared, form.read readBody scope member? d first (rest ++ us) = .ok (declared, ⟨d, us⟩) := by
  have hNot {word : String} (hWord : word ∈ Words.unlikeFunction) := ne_of_unlike hFirst hWord
  cases form with
  | passed => exact absurd (hPassed hForm) hFirst
  | typeAlias => exact absurd hForm (hNot (by decide))
  | template => exact absurd hForm (hNot (by decide))
  | typedef => exact absurd hForm (hNot (by decide))
  | classLike => exact readClassOrDeclaration_stub readBody scope member? d h hFresh
  | plain =>
    obtain ⟨declared, hRead⟩ := readDeclaration_stub member? h hFresh
    rw [List.cons_append] at hRead
    rw [Form.read, hRead]
    exact ⟨declared, rfl⟩

theorem readMember_stub (readBody : BodyReader) (scope : Scope) (member : Member) (d : Declarations)
    {first : Token} {rest us : List Token} (h : IsStub (first :: rest))
    (hFirst : first.text ∉ Words.unlikeFunction) (hFresh : StartsFresh us) :
    ∃ declared, readMember readBody scope member d first (rest ++ us) = .ok (declared, ⟨d, us⟩) := by
  obtain ⟨form, hForm⟩ := Form.exists_starts passedMembers first.text
  rw [readMember_eq hForm]
  exact Form.read_stub readBody scope (some member) d hForm (by decide) h hFirst hFresh

theorem readItem_stub
    (readInner : Scope → Token → Declarations → List Token → Outcome Reached) (scope : Scope)
    (d : Declarations) {first : Token} {rest us : List Token} (h : IsStub (first :: rest))
    (hFirst : first.text ∉ Words.unlikeFunction) (hFresh : StartsFresh us) :
    ∃ e, e.classes = d.classes ∧
      readItem readInner scope d first (rest ++ us) = .ok ⟨e, us⟩ := by
  have hSub : ["namespace", "inline", "extern"] ⊆ Words.unlikeFunction := by decide
  obtain ⟨form, hForm⟩ := Form.exists_starts passedItems first.text
  have hItem : IsItem first (rest ++ us) (.shared form) :=
    .of_starts hForm fun hMem => hFirst (hSub hMem)
  obtain ⟨declared, hRead⟩ := Form.read_stub readBody scope none d hForm (by decide) h hFirst hFresh
  refine ⟨(form.record scope declared ⟨d, us⟩).declarations, form.record_classes scope declared _, ?_⟩
  rw [readItem_eq hItem, ItemForm.read, hRead]
  cases form <;> rfl

end Declaration

end SkeletonWeave
