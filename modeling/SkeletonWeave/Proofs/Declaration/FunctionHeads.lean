import SkeletonWeave.Proofs.Declaration.Deciding
import SkeletonWeave.Proofs.Declaration.Defaults

/-!
# Heads of functions

A head is taken for that of a function if a parenthesis opens outside of angle
brackets in it, and what stands before the first such parenthesis is the name. Taking
out attributes leaves brackets nested, so that the parameter list has an end.
-/

set_option autoImplicit false

namespace SkeletonWeave

open Grammar (mark)
open Token (Nested NestedBelow brackets closer nests)

namespace Token

theorem nests_of_nestedBelow {opened : List String} (hBrackets : ∀ opener ∈ opened, opener ∈ brackets)
    {ts : List Token} (h : NestedBelow opened ts) : nests opened ts = true := by
  induction h with
  | done hNested => exact (nested_iff_nests _).mp hNested
  | @close opener opened inside rest close hInside hClose _ ih =>
    obtain ⟨hOpener, hOpened⟩ := List.forall_mem_cons.mp hBrackets
    rw [nests_append hInside, nests_cons (bracketStep?_closes hOpener hClose opened)]
    exact ih hOpened

theorem exists_nests {before after : List Token} {opened : List String}
    (h : nests opened (before ++ after) = true) : ∃ opened', nests opened' after = true := by
  induction before generalizing opened with
  | nil => exact ⟨opened, h⟩
  | cons t before ih =>
    rw [List.cons_append, nests] at h
    split at h
    · exact ih h
    · cases h

theorem Nested.exists_group {before after : List Token} {opener : Token} {bracket : String}
    (h : Nested (before ++ opener :: after)) (hBracket : bracket ∈ brackets)
    (hOpen : opener.isPunctuation bracket = true) :
    ∃ inside close rest, closeGroup? bracket after = some (inside, close, rest) := by
  obtain ⟨opened, hAfter⟩ := exists_nests ((nested_iff_nests _).mp h)
  rw [nests_cons (bracketStep?_opens hBracket hOpen opened)] at hAfter
  cases nestedBelow_of_nests hAfter with
  | close hInside hClose hRest => exact ⟨_, _, _, closeGroup?_nested hInside hBracket hClose _⟩

end Token

namespace Declarator

theorem nests_dropGroup {bracket : String} (hBracket : bracket ∈ brackets) {opened : List String}
    (hBrackets : ∀ opener ∈ opened, opener ∈ brackets) {ts : List Token}
    (h : nests (bracket :: opened) ts = true) : nests opened (dropGroup bracket ts) = true := by
  cases Token.nestedBelow_of_nests h with
  | @close _ _ inside rest close hInside hClose hRest =>
    rw [dropGroup, Token.closeGroup?_nested hInside hBracket hClose]
    exact Token.nests_of_nestedBelow hBrackets hRest

theorem brackets_of_bracketStep? {opened next : List String} {t : Token}
    (hBrackets : ∀ opener ∈ opened, opener ∈ brackets) (h : Token.bracketStep? opened t = some next) :
    ∀ opener ∈ next, opener ∈ brackets := by
  rcases Token.bracketStep?_eq_some h with ⟨opener, hOpener, -, rfl⟩ | ⟨opener, rfl, -⟩ | ⟨-, rfl⟩
  · exact List.forall_mem_cons.mpr ⟨hOpener, hBrackets⟩
  · exact (List.forall_mem_cons.mp hBrackets).2
  · exact hBrackets

theorem nests_clean {opened : List String} (hBrackets : ∀ opener ∈ opened, opener ∈ brackets)
    {ts : List Token} (h : nests opened ts = true) : nests opened (clean ts) = true := by
  fun_induction clean ts generalizing opened with
  | case1 => exact h
  | case2 t => exact h
  | case3 t u rest hAttribute ih =>
    rw [Bool.and_eq_true] at hAttribute
    obtain ⟨hWord, hOpen⟩ := hAttribute
    have hPlain : t.isBracket = false := by
      rw [Token.isOneOf, Bool.and_eq_true, beq_iff_eq] at hWord
      simp [Token.isBracket, Token.isPunctuation, hWord.1]
    rw [Token.nests_cons (Token.bracketStep?_plain hPlain opened),
      Token.nests_cons (Token.bracketStep?_opens (by decide) hOpen opened)] at h
    exact ih hBrackets (nests_dropGroup (by decide) hBrackets h)
  | case4 t u rest _ hBracket ih =>
    rw [Bool.and_eq_true] at hBracket
    rw [Token.nests_cons (Token.bracketStep?_opens (by decide) hBracket.1 opened)] at h
    exact ih hBrackets (nests_dropGroup (by decide) hBrackets h)
  | case5 t u rest _ _ ih =>
    rw [nests] at h ⊢
    split at h
    · next next hNext => exact ih (brackets_of_bracketStep? hBrackets hNext) h
    · cases h

theorem nested_clean {ts : List Token} (h : Nested ts) : Nested (clean ts) := by
  rw [Token.nested_iff_nests] at h ⊢
  exact nests_clean (by simp) h

/-- The number of angle brackets that are open after tokens, from the number before them. One that
closes none does not count. -/
def openAngles (angles : Nat) (ts : List Token) : Nat :=
  ts.foldl (fun angles t =>
    if t.isPunctuation "<" then angles + 1 else if t.isPunctuation ">" then angles - 1 else angles) angles

theorem openAngles_append (angles : Nat) (ts us : List Token) :
    openAngles angles (ts ++ us) = openAngles (openAngles angles ts) us :=
  List.foldl_append

theorem openAngles_cons (angles : Nat) (t : Token) (ts : List Token) :
    openAngles angles (t :: ts) = openAngles (openAngles angles [t]) ts := rfl

theorem passesAngled_openAngles :
    Grammar.PassesAngled true fun angles _ ts => openAngles angles ts := by
  constructor
  · intro angles _ t ts hPlain
    have hNone := Token.isPunctuation_of_plain hPlain
    simp (disch := decide) [openAngles, hNone]
  · intro angles _ t ts _ hComma
    simp [openAngles, Token.isPunctuation_of_word hComma]
  · intro angles _ t ts hOpen
    simp [openAngles, Token.isPunctuation_of_word hOpen]
  · intro angles _ t ts hClose
    simp [openAngles, Token.isPunctuation_of_word hClose]

theorem openAngles_identifier {t : Token} (h : t.kind = .identifier) (angles : Nat) :
    openAngles angles [t] = angles := by
  simp [openAngles, Token.isPunctuation, h]

/-- Whether every parenthesis opens between angle brackets, of which some are open before the tokens. -/
def HidesParens (angles : Nat) (ts : List Token) : Prop :=
  ∀ before opener after, ts = before ++ opener :: after → opener.isPunctuation "(" = true →
    0 < openAngles angles before

theorem hidesParens_nil (angles : Nat) : HidesParens angles [] := by
  intro before opener after hCut
  simp at hCut

theorem hidesParens_cons {angles : Nat} {t : Token} {ts : List Token} :
    HidesParens angles (t :: ts) ↔ (t.isPunctuation "(" = true → 0 < angles) ∧
      HidesParens (openAngles angles [t]) ts := by
  constructor
  · intro h
    exact ⟨h [] t ts rfl, fun before opener after hCut => h (t :: before) opener after (by rw [hCut]; rfl)⟩
  · rintro ⟨hFirst, hRest⟩ before opener after hCut hOpen
    cases before with
    | nil =>
      obtain ⟨rfl, -⟩ := List.cons.inj hCut
      exact hFirst hOpen
    | cons u before =>
      obtain ⟨rfl, hTail⟩ := List.cons.inj hCut
      exact hRest before opener after hTail hOpen

theorem hidesParens_append {angles : Nat} {before ts : List Token} :
    HidesParens angles (before ++ ts) ↔
      HidesParens angles before ∧ HidesParens (openAngles angles before) ts := by
  induction before generalizing angles with
  | nil => exact ⟨fun h => ⟨hidesParens_nil angles, h⟩, And.right⟩
  | cons t before ih =>
    rw [List.cons_append, hidesParens_cons, hidesParens_cons, ih, and_assoc]
    rfl

theorem splitAtParams_cons {angles : Nat} {t : Token} (h : t.isPunctuation "(" = true → 0 < angles)
    (passed ts : List Token) :
    splitAtParams angles passed (t :: ts) = splitAtParams (openAngles angles [t]) (t :: passed) ts := by
  have hParen : ¬(angles = 0 ∧ t.isPunctuation "(" = true) := by
    rintro ⟨hZero, hOpen⟩
    have hAngles := h hOpen
    omega
  rw [splitAtParams]
  simp only [openAngles, List.foldl_cons, List.foldl_nil, hParen, if_false]
  split
  · rfl
  · split <;> rfl

theorem splitAtParams_append {angles : Nat} {before : List Token} (h : HidesParens angles before)
    (passed rest : List Token) :
    splitAtParams angles passed (before ++ rest) =
      splitAtParams (openAngles angles before) (before.reverse ++ passed) rest := by
  induction before generalizing angles passed with
  | nil => rfl
  | cons t before ih =>
    obtain ⟨hFirst, hRest⟩ := hidesParens_cons.mp h
    rw [List.cons_append, splitAtParams_cons hFirst, ih hRest, openAngles_cons angles t before]
    simp

theorem hidesParens_or (angles : Nat) (ts : List Token) : HidesParens angles ts ∨
    ∃ before opener after, ts = before ++ opener :: after ∧ opener.isPunctuation "(" = true ∧
      HidesParens angles before ∧ openAngles angles before = 0 := by
  induction ts generalizing angles with
  | nil => exact .inl (hidesParens_nil angles)
  | cons t ts ih =>
    by_cases hShown : t.isPunctuation "(" = true ∧ angles = 0
    · exact .inr ⟨[], t, ts, rfl, hShown.1, hidesParens_nil angles, hShown.2⟩
    · have hFirst : t.isPunctuation "(" = true → 0 < angles :=
        fun hOpen => Nat.pos_of_ne_zero fun hZero => hShown ⟨hOpen, hZero⟩
      cases ih (openAngles angles [t]) with
      | inl hRest => exact .inl (hidesParens_cons.mpr ⟨hFirst, hRest⟩)
      | inr hShown =>
        obtain ⟨before, opener, after, rfl, hOpen, hBefore, hZero⟩ := hShown
        exact .inr ⟨t :: before, opener, after, rfl, hOpen, hidesParens_cons.mpr ⟨hFirst, hBefore⟩, hZero⟩

theorem splitAtParams_shown {angles : Nat} {before after : List Token} {opener : Token}
    (hOpen : opener.isPunctuation "(" = true) (hBefore : HidesParens angles before)
    (hZero : openAngles angles before = 0) (passed : List Token) :
    splitAtParams angles passed (before ++ opener :: after) = some (passed.reverse ++ before, after) := by
  have hMark := Token.isPunctuation_eq_decide hOpen
  rw [splitAtParams_append hBefore, hZero, splitAtParams]
  simp [hMark]

theorem splitAtParams_eq_none_iff {angles : Nat} {passed ts : List Token} :
    splitAtParams angles passed ts = none ↔ HidesParens angles ts := by
  constructor
  · intro hNone
    cases hidesParens_or angles ts with
    | inl hHides => exact hHides
    | inr hShown =>
      obtain ⟨before, opener, after, rfl, hOpen, hBefore, hZero⟩ := hShown
      rw [splitAtParams_shown hOpen hBefore hZero] at hNone
      cases hNone
  · intro hHides
    have hAll := splitAtParams_append hHides passed []
    rw [List.append_nil] at hAll
    rw [hAll, splitAtParams]

theorem splitAtParams_eq_some_iff {angles : Nat} {passed ts before after : List Token} :
    splitAtParams angles passed ts = some (before, after) ↔ ∃ own opener,
      before = passed.reverse ++ own ∧ ts = own ++ opener :: after ∧
        opener.isPunctuation "(" = true ∧ HidesParens angles own ∧ openAngles angles own = 0 := by
  constructor
  · intro hSome
    cases hidesParens_or angles ts with
    | inl hHides =>
      rw [splitAtParams_eq_none_iff.mpr hHides] at hSome
      cases hSome
    | inr hShown =>
      obtain ⟨own, opener, rest, rfl, hOpen, hOwn, hZero⟩ := hShown
      rw [splitAtParams_shown hOpen hOwn hZero] at hSome
      cases hSome
      exact ⟨own, opener, rfl, rfl, hOpen, hOwn, hZero⟩
  · rintro ⟨own, opener, rfl, rfl, hOpen, hOwn, hZero⟩
    exact splitAtParams_shown hOpen hOwn hZero passed

structure HidesFunction (ts : List Token) : Prop where
  parens : HidesParens 0 ts
  noOperator : ∀ t ∈ ts, t.isIdentifier "operator" = false

def withoutTilde (ts : List Token) : List Token :=
  if ts.getLast?.any (·.isPunctuation "~") then ts.dropLast else ts

/-- Whether a name stands before the first parenthesis that is shown, where a head would name a
function. -/
structure NamesFunction (before : List Token) (named opener : Token) (after : List Token) : Prop where
  hides : HidesParens 0 before
  closed : openAngles 0 before = 0
  isName : named.kind = .identifier
  noOperator : named.text ∉ Words.operatorLike
  opens : opener.isPunctuation "(" = true
  noPointer : after.head?.any (·.isPunctuation "*") = false

/-- Whether tokens at the end of a head make it that of a method with some name. -/
def NamesMethod (name : String) (ts : List Token) : Prop :=
  (∀ t ∈ ts, t.isIdentifier "operator" = false) ∧ ∃ before named opener after,
    ts = before ++ named :: opener :: after ∧ NamesFunction before named opener after ∧
      named.text = name ∧ (withoutTilde before).getLast?.any (·.isPunctuation "::") = false

theorem any_isIdentifier_eq_false {ts : List Token} {text : String} :
    (ts.any fun t => t.isIdentifier text) = false ↔ ∀ t ∈ ts, t.isIdentifier text = false := by
  simp [List.any_eq_false]

theorem classify_of_hides {head : List Token} (h : HidesFunction head) (member : Member) :
    classify head (some member) = readFields head member.access := by
  rw [classify, any_isIdentifier_eq_false.mpr h.noOperator, if_neg Bool.false_ne_true,
    splitAtParams_eq_none_iff.mpr h.parens]

theorem signature_functionPointer? {head : List Token} {name? : Option String} {type : TypeExpr}
    (h : functionPointer? head = some (name?, type)) : type.signature ≠ none := by
  unfold functionPointer? readFunctionPointer? at h
  simp only [bind, Option.bind_eq_some_iff] at h
  obtain ⟨⟨result, rest⟩, -, -, -, ⟨inside, close, after⟩, -, h⟩ := h
  cases after with
  | nil => cases h
  | cons t list =>
    simp only [Option.bind_eq_some_iff] at h
    obtain ⟨-, -, ⟨params, close', after⟩, -, h⟩ := h
    cases h
    nofun

theorem readMethod_ne_fields (before : List Token) (name : Token) (rest : List Token)
    (member? : Option Member) (fields : List Field) :
    readMethod before name rest member? ≠ .fields fields := by
  unfold readMethod
  extract_lets isDestructor start result kind
  split
  · nofun
  · split
    · nofun
    · extract_lets qualifiers method
      split
      · split <;> nofun
      · nofun

theorem readFields_ne_method (head : List Token) (access : Access) (m : Method) :
    readFields head access ≠ .method m := by
  unfold readFields
  simp only
  split <;> nofun

theorem readPointerField_ne_method (head : List Token) (member? : Option Member) (m : Method) :
    readPointerField head member? ≠ .method m := by
  unfold readPointerField
  split <;> nofun

/-- What a head may declare, by the first parenthesis that is shown in it and what stands around it. -/
inductive Classified (head : List Token) (member? : Option Member) (declared : Declared) : Prop
  | fields {access : Access} :
    HidesFunction head → declared = readFields head access → Classified head member? declared
  | pointer : ¬HidesFunction head → declared = readPointerField head member? →
    Classified head member? declared
  | method {before after : List Token} {named opener : Token} :
    (∀ t ∈ head, t.isIdentifier "operator" = false) → head = before ++ named :: opener :: after →
    NamesFunction before named opener after → declared = readMethod before named after member? →
    Classified head member? declared
  | nothing : declared = .nothing → Classified head member? declared

theorem classified (head : List Token) (member? : Option Member) :
    Classified head member? (classify head member?) := by
  unfold classify
  split
  · exact .nothing rfl
  next hOperator =>
    rw [Bool.not_eq_true, any_isIdentifier_eq_false] at hOperator
    split
    · next hNone =>
      have hHides : HidesFunction head := ⟨splitAtParams_eq_none_iff.mp hNone, hOperator⟩
      cases member? with
      | none => exact .nothing rfl
      | some member => exact .fields hHides rfl
    · next before after hSplit =>
      obtain ⟨own, opener, hOwn, rfl, hOpen, hHides, hZero⟩ := splitAtParams_eq_some_iff.mp hSplit
      obtain rfl : before = own := hOwn
      split
      · refine .pointer ?_ rfl
        intro hFunction
        have hInside : 0 < openAngles 0 before := hFunction.parens before opener after rfl hOpen
        omega
      · next hStar =>
        rw [Bool.not_eq_true] at hStar
        split
        · next named hLast =>
          split
          · next hNamed =>
            rw [Bool.and_eq_true, beq_iff_eq, Bool.not_eq_true', List.contains_eq_mem,
              decide_eq_false_iff_not] at hNamed
            obtain ⟨front, rfl⟩ := List.getLast?_eq_some_iff.mp hLast
            rw [openAngles_append, openAngles_identifier hNamed.1] at hZero
            have hFront : HidesParens 0 front := (hidesParens_append.mp hHides).1
            rw [List.dropLast_concat]
            exact .method hOperator (List.append_cons _ _ _).symm
              ⟨hFront, hZero, hNamed.1, hNamed.2, hOpen, hStar⟩ rfl
          · exact .nothing rfl
        · exact .nothing rfl

theorem signature_of_classify {head : List Token} {member? : Option Member} {fields : List Field}
    (hShown : ¬HidesFunction head) (h : classify head member? = .fields fields) :
    ∀ f ∈ fields, f.type.signature ≠ none := by
  cases h ▸ classified head member? with
  | fields hHides => exact absurd hHides hShown
  | pointer _ hRead =>
    unfold readPointerField at hRead
    split at hRead
    · next hPointer =>
      cases hRead
      exact List.forall_mem_singleton.mpr (signature_functionPointer? hPointer)
    · cases hRead
  | method _ _ _ hRead => exact absurd hRead.symm (readMethod_ne_fields _ _ _ _ _)
  | nothing hNothing => cases hNothing

theorem classify_of_names {before after : List Token} {named opener : Token}
    (hNames : NamesFunction before named opener after)
    (hOperator : ∀ t ∈ before ++ named :: opener :: after, t.isIdentifier "operator" = false)
    (member? : Option Member) :
    classify (before ++ named :: opener :: after) member? = readMethod before named after member? := by
  have hNamed : named.isPunctuation "(" = false := by
    apply Token.isPunctuation_of_kind
    rw [hNames.isName]
    decide
  have hHides : HidesParens 0 (before ++ [named]) := by
    rw [hidesParens_append, hNames.closed, hidesParens_cons, hNamed]
    exact ⟨hNames.hides, nofun, hidesParens_nil _⟩
  have hZero : openAngles 0 (before ++ [named]) = 0 := by
    rw [openAngles_append, hNames.closed, openAngles_identifier hNames.isName]
  have hSplit : splitAtParams 0 [] (before ++ named :: opener :: after) =
      some (before ++ [named], after) := by
    rw [List.append_cons]
    exact splitAtParams_shown hNames.opens hHides hZero []
  unfold classify
  rw [any_isIdentifier_eq_false.mpr hOperator, hSplit]
  simp [hNames.noPointer, hNames.isName, hNames.noOperator]

theorem classify_eq_method_iff {head : List Token} {member? : Option Member} {m : Method} :
    classify head member? = .method m ↔ (∀ t ∈ head, t.isIdentifier "operator" = false) ∧
      ∃ before named opener after, head = before ++ named :: opener :: after ∧
        NamesFunction before named opener after ∧ readMethod before named after member? = .method m := by
  constructor
  · intro h
    cases h ▸ classified head member? with
    | fields _ hRead => exact absurd hRead.symm (readFields_ne_method _ _ _)
    | pointer _ hRead => exact absurd hRead.symm (readPointerField_ne_method _ _ _)
    | method hOperator hCut hNames hRead => exact ⟨hOperator, _, _, _, _, hCut, hNames, hRead.symm⟩
    | nothing hNothing => cases hNothing
  · rintro ⟨hOperator, before, named, opener, after, rfl, hNames, hRead⟩
    rw [classify_of_names hNames hOperator, hRead]

theorem readMethod_qualified {before : List Token}
    (h : (withoutTilde before).getLast?.any (·.isPunctuation "::") = true) (name : Token)
    (rest : List Token) (member? : Option Member) : readMethod before name rest member? = .nothing := by
  unfold readMethod
  rw [withoutTilde] at h
  simp only [h, if_true]

theorem exists_readMethod {before rest params trailing : List Token} {close u : Token}
    (hQualified : (withoutTilde before).getLast?.any (·.isPunctuation "::") = false)
    (hClose : Token.closeGroup? "(" rest = some (params, close, trailing)) (hu : u ∈ withoutTilde before)
    (hWord : (u.isOneOf Words.specifying || u.kind == .string) = false) (name : Token)
    (member? : Option Member) :
    ∃ m, readMethod before name rest member? = .method m ∧ m.name = name.text := by
  have hResult : ((withoutTilde before).filter fun t =>
      !(t.isOneOf Words.specifying || t.kind == .string)) ≠ [] := by
    refine List.ne_nil_of_mem (List.mem_filter.mpr ⟨hu, ?_⟩)
    rw [hWord]
    rfl
  obtain ⟨type, hType⟩ := returnType?_of_result hResult trailing
  unfold readMethod
  extract_lets isDestructor start result kind
  have hStart : start.getLast?.any (·.isPunctuation "::") = false := hQualified
  have hSome : returnType? result trailing = some type := hType
  rw [hStart, if_neg Bool.false_ne_true]
  simp only [hClose, hSome]
  split
  · exact ⟨_, rfl, rfl⟩
  · exact ⟨_, rfl, rfl⟩

/-- Whether tokens show no function, and end with an equals sign after the words of a type. -/
structure LeadsTo (lead : List Token) : Prop where
  hides : HidesFunction lead
  closed : openAngles 0 lead = 0
  result : ∃ u ∈ lead, (u.isOneOf Words.specifying || u.kind == .string) = false
  ends : ∃ front equals, lead = front ++ [equals] ∧ equals.word = mark "="

namespace LeadsTo

variable {lead ts : List Token}

theorem hidesFunction_append (h : LeadsTo lead) : HidesFunction (lead ++ ts) ↔ HidesFunction ts := by
  constructor
  · rintro ⟨hParens, hOperator⟩
    rw [hidesParens_append, h.closed] at hParens
    exact ⟨hParens.2, (List.forall_mem_append.mp hOperator).2⟩
  · rintro ⟨hParens, hOperator⟩
    refine ⟨?_, List.forall_mem_append.mpr ⟨h.hides.noOperator, hOperator⟩⟩
    rw [hidesParens_append, h.closed]
    exact ⟨h.hides.parens, hParens⟩

theorem getLast?_append (h : LeadsTo lead) {text : String} (hText : text ≠ "=") :
    (lead ++ ts).getLast?.any (·.isPunctuation text) = ts.getLast?.any (·.isPunctuation text) := by
  obtain ⟨front, equals, rfl, hEquals⟩ := h.ends
  rw [List.getLast?_append]
  cases ts.getLast? with
  | some t => rfl
  | none =>
    simp only [Option.none_or, List.getLast?_concat, Option.any_some, Option.any_none,
      Token.isPunctuation_of_word hEquals]
    simpa using hText.symm

theorem withoutTilde_append (h : LeadsTo lead) :
    withoutTilde (lead ++ ts) = lead ++ withoutTilde ts := by
  unfold withoutTilde
  rw [h.getLast?_append (by decide)]
  split
  · next hTilde =>
    apply List.dropLast_append_of_ne_nil
    rintro rfl
    cases hTilde
  · rfl

theorem namesFunction_append (h : LeadsTo lead) {own after : List Token} {named opener : Token} :
    NamesFunction (lead ++ own) named opener after ↔ NamesFunction own named opener after := by
  have hParens : HidesParens 0 (lead ++ own) ↔ HidesParens 0 own := by
    rw [hidesParens_append, h.closed, and_iff_right h.hides.parens]
  have hAngles : openAngles 0 (lead ++ own) = openAngles 0 own := by
    rw [openAngles_append, h.closed]
  constructor
  · intro hNames
    exact { hNames with hides := hParens.mp hNames.hides, closed := hAngles.symm.trans hNames.closed }
  · intro hNames
    exact { hNames with hides := hParens.mpr hNames.hides, closed := hAngles.trans hNames.closed }

theorem exists_of_names (h : LeadsTo lead) {before after : List Token} {named opener : Token}
    (hCut : lead ++ ts = before ++ named :: opener :: after)
    (hNames : NamesFunction before named opener after) :
    ∃ own, before = lead ++ own ∧ ts = own ++ named :: opener :: after := by
  cases List.append_eq_append_iff.mp hCut with
  | inl hAfter => exact hAfter
  | inr hInside =>
    obtain ⟨more, hLead, hMore⟩ := hInside
    -- The name is the first token after the equals sign, the equals sign or a token before it.
    match more, hMore with
    | [], hMore =>
      rw [List.append_nil] at hLead
      exact ⟨[], by rw [hLead, List.append_nil], hMore.symm⟩
    | [_], hMore =>
      obtain ⟨rfl, -⟩ := List.cons.inj hMore
      obtain ⟨front, equals, hEnds, hEquals⟩ := h.ends
      rw [hLead] at hEnds
      obtain ⟨-, hLast⟩ := List.append_inj' hEnds rfl
      obtain rfl := List.singleton_inj.mp hLast
      have hKind := hNames.isName
      rw [show named.kind = .punctuation from congrArg Word.kind hEquals] at hKind
      cases hKind
    | _ :: _ :: more, hMore =>
      cases hMore
      have hInside := h.hides.parens (before ++ [named]) opener more (by simp [hLead]) hNames.opens
      rw [openAngles_append, hNames.closed, openAngles_identifier hNames.isName] at hInside
      omega

theorem readMethod_iff (h : LeadsTo lead) {params after trailing : List Token} {close : Token}
    (hClose : Token.closeGroup? "(" after = some (params, close, trailing)) (named : Token)
    (member? : Option Member) (text : String) :
    (∃ m, readMethod (lead ++ ts) named after member? = .method m ∧ m.name = text) ↔
      named.text = text ∧ (withoutTilde ts).getLast?.any (·.isPunctuation "::") = false := by
  obtain ⟨u, hu, hWord⟩ := h.result
  have hStart : withoutTilde (lead ++ ts) = lead ++ withoutTilde ts := h.withoutTilde_append
  have hLast : (withoutTilde (lead ++ ts)).getLast?.any (·.isPunctuation "::") =
      (withoutTilde ts).getLast?.any (·.isPunctuation "::") := by
    rw [hStart]
    exact h.getLast?_append (by decide)
  cases hQualified : (withoutTilde ts).getLast?.any (·.isPunctuation "::") with
  | true =>
    rw [readMethod_qualified (hLast.trans hQualified)]
    simp
  | false =>
    have hIn : u ∈ withoutTilde (lead ++ ts) := by
      rw [hStart]
      exact List.mem_append_left _ hu
    obtain ⟨m, hRead, hName⟩ := exists_readMethod (hLast.trans hQualified) hClose hIn hWord named member?
    rw [hRead]
    simp [hName]

/-- Nested tokens after the equals sign make the head that of a method just if they name it. -/
theorem classify_method_iff (h : LeadsTo lead) (hNested : Nested ts) (member? : Option Member)
    (text : String) :
    (∃ m, classify (lead ++ ts) member? = .method m ∧ m.name = text) ↔ NamesMethod text ts := by
  have hGroup {own after : List Token} {named opener : Token} (hCut : ts = own ++ named :: opener :: after)
      (hNames : NamesFunction own named opener after) :
      ∃ inside close rest, Token.closeGroup? "(" after = some (inside, close, rest) := by
    rw [hCut, List.append_cons] at hNested
    exact hNested.exists_group (by decide) hNames.opens
  constructor
  · rintro ⟨m, hClassify, hName⟩
    obtain ⟨hOperator, before, named, opener, after, hCut, hNames, hRead⟩ :=
      classify_eq_method_iff.mp hClassify
    obtain ⟨own, rfl, hOwn⟩ := h.exists_of_names hCut hNames
    rw [h.namesFunction_append] at hNames
    obtain ⟨inside, close, rest, hClose⟩ := hGroup hOwn hNames
    have hMethod := (h.readMethod_iff hClose named member? text).mp ⟨m, hRead, hName⟩
    exact ⟨(List.forall_mem_append.mp hOperator).2, own, named, opener, after, hOwn, hNames, hMethod⟩
  · rintro ⟨hOperator, own, named, opener, after, hOwn, hNames, hMethod⟩
    obtain ⟨inside, close, rest, hClose⟩ := hGroup hOwn hNames
    obtain ⟨m, hRead, hName⟩ := (h.readMethod_iff hClose named member? text).mpr hMethod
    refine ⟨m, classify_eq_method_iff.mpr ⟨?_, lead ++ own, named, opener, after, ?_, ?_, hRead⟩, hName⟩
    · exact List.forall_mem_append.mpr ⟨h.hides.noOperator, hOperator⟩
    · rw [hOwn, List.append_assoc]
    · exact h.namesFunction_append.mpr hNames

end LeadsTo

end Declarator

end SkeletonWeave
