import SkeletonWeave.Proofs.Declaration.Rewriting

/-!
# What can be decided about declarations

Types and classes are compared part by part. Brackets nest where a reader that
keeps the open ones meets the right closing one each time and has none left at the
end. So it can be decided whether tokens are nested, and whether they are a stub.
-/

set_option autoImplicit false

namespace SkeletonWeave

namespace TypeExpr

mutual

def decEq : (a b : TypeExpr) → Decidable (a = b)
  | ⟨spelling, base, isConst, depth, isReference, arguments, signature⟩,
    ⟨spelling', base', isConst', depth', isReference', arguments', signature'⟩ =>
    have := decEqList arguments arguments'
    have := decEqSignature signature signature'
    decidable_of_iff ((spelling = spelling' ∧ base = base' ∧ isConst = isConst' ∧ depth = depth' ∧
      isReference = isReference') ∧ arguments = arguments' ∧ signature = signature')
      (by simp [and_assoc])

def decEqList : (as bs : List TypeExpr) → Decidable (as = bs)
  | [], [] => isTrue rfl
  | [], _ :: _ => isFalse nofun
  | _ :: _, [] => isFalse nofun
  | a :: as, b :: bs =>
    have := decEq a b
    have := decEqList as bs
    decidable_of_iff (a = b ∧ as = bs) (by simp)

def decEqSignature : (a b : Option (TypeExpr × List TypeExpr)) → Decidable (a = b)
  | none, none => isTrue rfl
  | none, some _ => isFalse nofun
  | some _, none => isFalse nofun
  | some (a, as), some (b, bs) =>
    have := decEq a b
    have := decEqList as bs
    decidable_of_iff (a = b ∧ as = bs) (by simp)

end

instance : DecidableEq TypeExpr := decEq

end TypeExpr

deriving instance DecidableEq for Param, Method, Field, Class

namespace Token

/-- The brackets that are open after a token, the last one first. -/
def bracketStep? (opened : List String) (t : Token) : Option (List String) :=
  match brackets.find? t.isPunctuation with
  | some opener => some (opener :: opened)
  | none =>
    if t.isBracket then
      match opened with
      | opener :: outer => if t.isPunctuation (closer opener) then some outer else none
      | [] => none
    else some opened

def nests : List String → List Token → Bool
  | opened, [] => opened.isEmpty
  | opened, t :: ts =>
    match bracketStep? opened t with
    | some next => nests next ts
    | none => false

section Step

variable {t : Token} {opener : String}

theorem nests_cons {opened next : List String} (h : bracketStep? opened t = some next)
    (ts : List Token) : nests opened (t :: ts) = nests next ts := by
  rw [nests, h]

theorem bracketStep?_opens (hOpener : opener ∈ brackets) (h : t.isPunctuation opener = true)
    (opened : List String) : bracketStep? opened t = some (opener :: opened) := by
  have hFind : brackets.find? t.isPunctuation = some opener := by
    have hMark : t.isPunctuation = fun mark => decide (opener = mark) :=
      funext fun mark => isPunctuation_eq_decide h mark
    rw [hMark]
    rcases brackets_cases hOpener with rfl | rfl | rfl <;> decide
  rw [bracketStep?.eq_def, hFind]

theorem bracketStep?_closes (hOpener : opener ∈ brackets)
    (h : t.isPunctuation (closer opener) = true) (outer : List String) :
    bracketStep? (opener :: outer) t = some outer := by
  have hFind : brackets.find? t.isPunctuation = none := by
    rw [List.find?_eq_none]
    intro bracket hBracket
    rw [(marks_of_closer hOpener hBracket h).1]
    exact Bool.false_ne_true
  have hMark : t.isBracket = true :=
    List.any_eq_true.mpr ⟨opener, hOpener, by rw [h, Bool.or_true]⟩
  rw [bracketStep?.eq_def, hFind]
  simp only [hMark, h, if_true]

theorem bracketStep?_plain (h : t.isBracket = false) (opened : List String) :
    bracketStep? opened t = some opened := by
  have hFind : brackets.find? t.isPunctuation = none := by
    rw [List.find?_eq_none]
    intro bracket hBracket
    rw [(isPunctuation_of_isBracket h hBracket).1]
    exact Bool.false_ne_true
  rw [bracketStep?.eq_def, hFind]
  simp only [h, Bool.false_eq_true, if_false]

theorem bracketStep?_eq_some {opened next : List String} (h : bracketStep? opened t = some next) :
    (∃ opener ∈ brackets, t.isPunctuation opener = true ∧ next = opener :: opened) ∨
      (∃ opener, opened = opener :: next ∧ t.isPunctuation (closer opener) = true) ∨
      t.isBracket = false ∧ next = opened := by
  unfold bracketStep? at h
  split at h
  · next opener hOpener =>
    cases h
    exact .inl ⟨opener, List.mem_of_find?_eq_some hOpener, List.find?_some hOpener, rfl⟩
  · split at h
    · split at h
      · next opener outer =>
        split at h
        · next hClose =>
          cases h
          exact .inr (.inl ⟨opener, rfl, hClose⟩)
        · cases h
      · cases h
    · next hPlain =>
      cases h
      exact .inr (.inr ⟨by simpa using hPlain, rfl⟩)

end Step

theorem nests_append {ts : List Token} (h : Nested ts) (opened : List String) (rest : List Token) :
    nests opened (ts ++ rest) = nests opened rest := by
  induction h generalizing opened rest with
  | nil => rfl
  | plain hPlain _ ih => rw [List.cons_append, nests_cons (bracketStep?_plain hPlain _), ih]
  | group hText hOpen hClose _ _ ihInside ih =>
    rw [List.cons_append, nests_cons (bracketStep?_opens hText hOpen _), List.append_assoc, ihInside,
      List.cons_append, nests_cons (bracketStep?_closes hText hClose _), ih]

/-- Whether tokens close brackets that are open, and nest between and after them. -/
inductive NestedBelow : List String → List Token → Prop
  | done {ts : List Token} : Nested ts → NestedBelow [] ts
  | close {opener : String} {opened : List String} {inside rest : List Token} {close : Token} :
    Nested inside → close.isPunctuation (closer opener) = true → NestedBelow opened rest →
    NestedBelow (opener :: opened) (inside ++ close :: rest)

theorem NestedBelow.prepend {opened : List String} {ts us : List Token} (h : Nested ts)
    (h' : NestedBelow opened us) : NestedBelow opened (ts ++ us) := by
  cases h' with
  | done hRest => exact .done (h.append hRest)
  | close hInside hClose hRest =>
    rw [← List.append_assoc]
    exact .close (h.append hInside) hClose hRest

theorem nestedBelow_of_nests {opened : List String} {ts : List Token} (h : nests opened ts = true) :
    NestedBelow opened ts := by
  induction ts generalizing opened with
  | nil =>
    obtain rfl : opened = [] := List.isEmpty_iff.mp h
    exact .done .nil
  | cons t ts ih =>
    unfold nests at h
    split at h
    · next next hNext =>
      have hRest := ih h
      rcases bracketStep?_eq_some hNext with ⟨opener, hOpener, hOpen, rfl⟩ | ⟨opener, rfl, hClose⟩ |
        ⟨hPlain, rfl⟩
      · have hText := text_of_isPunctuation hOpen
        cases hRest with
        | @close _ _ inside rest close hInside hClose hRest =>
          have hGroup : Nested (t :: (inside ++ [close])) :=
            .group (by rwa [hText]) (by rwa [hText]) (by rwa [hText]) hInside .nil
          simpa using hRest.prepend hGroup
      · exact .close .nil hClose hRest
      · exact .prepend (.plain hPlain .nil) hRest
    · cases h

theorem nested_iff_nests (ts : List Token) : Nested ts ↔ nests [] ts = true := by
  constructor
  · intro h
    have hRest := nests_append h [] []
    rwa [List.append_nil] at hRest
  · intro h
    cases nestedBelow_of_nests h with
    | done hNested => exact hNested

instance : DecidablePred Nested := fun ts => decidable_of_iff _ (nested_iff_nests ts).symm

/-- The parts of a stub: its head, with the first and the last token, and its braces. -/
def stubParts? (ts : List Token) : Option (List Token × Token × Token × Token × Token) := do
  let head := ts.take (ts.length - 2)
  match ts.drop (ts.length - 2) with
  | [opening, closing] => return (head, ← head.head?, ← head.getLast?, opening, closing)
  | _ => none

theorem stubParts?_eq_some_iff {ts head : List Token} {first last opening closing : Token} :
    stubParts? ts = some (head, first, last, opening, closing) ↔
      ts = head ++ [opening, closing] ∧ head.head? = some first ∧ head.getLast? = some last := by
  constructor
  · intro h
    simp only [stubParts?] at h
    split at h
    · next opening' closing' hDrop =>
      simp only [Option.bind_eq_bind, Option.bind_eq_some_iff] at h
      obtain ⟨first', hFirst, last', hLast, h⟩ := h
      cases h
      refine ⟨?_, hFirst, hLast⟩
      rw [← hDrop, List.take_append_drop]
    · cases h
  · rintro ⟨rfl, hFirst, hLast⟩
    simp [stubParts?, hFirst, hLast]

instance : DecidablePred IsStub := fun ts =>
  match h : stubParts? ts with
  | none => isFalse fun hStub => by
    cases hStub with
    | intro hFirst _ _ _ hLast => simp [stubParts?_eq_some_iff.mpr ⟨rfl, hFirst, hLast⟩] at h
  | some (head, first, last, opening, closing) =>
    decidable_of_iff (first.text ∉ Words.unlikeFunction ∧ Nested head ∧
        (∀ t ∈ head, t.isPunctuation ";" = false ∧ t.isPunctuation "\x7b" = false ∧
          t.isPunctuation "\x7d" = false) ∧
        last.isPunctuation ")" = true ∧ opening.isPunctuation "\x7b" = true ∧
        closing.isPunctuation "\x7d" = true) (by
      obtain ⟨rfl, hFirst, hLast⟩ := stubParts?_eq_some_iff.mp h
      constructor
      · rintro ⟨hWord, hNested, hPlain, hParenthesis, hOpen, hClose⟩
        exact .intro hFirst hWord hNested hPlain hLast hParenthesis hOpen hClose
      · generalize hTs : head ++ [opening, closing] = ts
        rintro ⟨hFirst', hWord, hNested, hPlain, hLast', hParenthesis, hOpen, hClose⟩
        obtain ⟨rfl, hBraces⟩ := List.append_inj' hTs rfl
        cases hBraces
        cases hFirst.symm.trans hFirst'
        cases hLast.symm.trans hLast'
        exact ⟨hWord, hNested, hPlain, hParenthesis, hOpen, hClose⟩)

end Token

end SkeletonWeave
