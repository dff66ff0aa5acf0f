import SkeletonWeave.Proofs.Declaration.Layout

/-!
# Forms of declarations

What a declaration is, told by the tokens that it starts with, and how a
declaration of each form is read. Scopes and classes share most forms; only
scopes have namespaces and linkages. The steps of the two loops are told apart
in the same way, so that a proof about reading is by cases on these forms.
-/

set_option autoImplicit false

namespace SkeletonWeave.Declaration

open Declarator (Declared Member)

def DefinesType (head rest : List Token) : Prop :=
  ∃ keyword inner brace after, head = keyword :: inner ∧ rest = brace :: after ∧
    keyword.isOneOf Words.classLike = true ∧ brace.isPunctuation "\x7b" = true

section

variable (readBody : BodyReader) (scope : Scope) (d : Declarations) {ts inner after : List Token}
  {keyword brace : Token}

theorem readTypedef_plain {head rest : List Token} (hSplit : splitDeclaration ts = .ok (head, rest))
    (hNot : ¬DefinesType head rest) :
    readTypedef readBody scope d ts =
      .ok ⟨(typedefNames head).foldl (fun d (name, type) => addTypedef d scope name type) d,
        dropSemicolon rest⟩ := by
  unfold readTypedef
  rw [hSplit]
  simp only [bind, Except.bind]
  split
  · next keyword inner brace after =>
    rw [if_neg]
    intro hDefinition
    rw [Bool.and_eq_true] at hDefinition
    exact hNot ⟨keyword, inner, brace, after, rfl, rfl, hDefinition⟩
  · rfl

theorem readTypedef_enum (hSplit : splitDeclaration ts = .ok (keyword :: inner, brace :: after))
    (hWord : keyword.isOneOf Words.classLike = true) (hBrace : brace.isPunctuation "\x7b" = true)
    (hEnum : keyword.isIdentifier "enum" = true) :
    readTypedef readBody scope d ts = (do
      let (_, _, later) ← closeGroup brace after
      let tag? := inner.reverse.find? fun t => t.kind == .identifier
      readAliases scope true ⟨d, tag?.map (·.text)⟩ later) := by
  unfold readTypedef
  rw [hSplit]
  simp only [bind, Except.bind, hWord, hBrace, Bool.and_self, if_true, hEnum]

theorem readTypedef_class (hSplit : splitDeclaration ts = .ok (keyword :: inner, brace :: after))
    (hWord : keyword.isOneOf Words.classLike = true) (hBrace : brace.isPunctuation "\x7b" = true)
    (hEnum : keyword.isIdentifier "enum" = false) :
    readTypedef readBody scope d ts = (do
      let reached ← readClass readBody scope d keyword inner brace after
      readAliases scope false
        ⟨reached.declarations, if className inner = "" then none else some (className inner)⟩
        reached.rest) := by
  unfold readTypedef
  rw [hSplit]
  simp only [bind, Except.bind, hWord, hBrace, Bool.and_self, if_true, hEnum, Bool.false_eq_true,
    if_false]

inductive FromTypedef (ts : List Token) : Reached → Prop
  | enum {keyword brace close : Token} {inner after body later : List Token} {r : Reached}
    (hSplit : splitDeclaration ts = .ok (keyword :: inner, brace :: after))
    (hWord : keyword.isOneOf Words.classLike = true) (hBrace : brace.isPunctuation "\x7b" = true)
    (hEnum : keyword.isIdentifier "enum" = true)
    (hGroup : closeGroup brace after = .ok (body, close, later))
    (hAliases : readAliases scope true
      ⟨d, (inner.reverse.find? fun t => t.kind == .identifier).map (·.text)⟩ later = .ok r) :
    FromTypedef ts r
  | classLike {keyword brace : Token} {inner after : List Token} {reached r : Reached}
    (hSplit : splitDeclaration ts = .ok (keyword :: inner, brace :: after))
    (hWord : keyword.isOneOf Words.classLike = true) (hBrace : brace.isPunctuation "\x7b" = true)
    (hEnum : keyword.isIdentifier "enum" = false)
    (hClass : readClass readBody scope d keyword inner brace after = .ok reached)
    (hAliases : readAliases scope false
      ⟨reached.declarations, if className inner = "" then none else some (className inner)⟩
      reached.rest = .ok r) :
    FromTypedef ts r
  | names {head rest : List Token} (hSplit : splitDeclaration ts = .ok (head, rest))
    (hNot : ¬DefinesType head rest) :
    FromTypedef ts
      ⟨(typedefNames head).foldl (fun d (name, type) => addTypedef d scope name type) d,
        dropSemicolon rest⟩

variable {readBody scope d}

theorem fromTypedef_of_read {r : Reached} (h : readTypedef readBody scope d ts = .ok r) :
    FromTypedef readBody scope d ts r := by
  have hRead := h
  unfold readTypedef at h
  rw [bind_eq_ok] at h
  obtain ⟨⟨head, rest⟩, hSplit, -⟩ := h
  by_cases hDefines : DefinesType head rest
  · obtain ⟨keyword, inner, brace, after, rfl, rfl, hWord, hBrace⟩ := hDefines
    cases hEnum : keyword.isIdentifier "enum" with
    | true =>
      rw [readTypedef_enum readBody scope d hSplit hWord hBrace hEnum, bind_eq_ok] at hRead
      obtain ⟨⟨body, close, later⟩, hGroup, hAliases⟩ := hRead
      exact .enum hSplit hWord hBrace hEnum hGroup hAliases
    | false =>
      rw [readTypedef_class readBody scope d hSplit hWord hBrace hEnum, bind_eq_ok] at hRead
      obtain ⟨reached, hClass, hAliases⟩ := hRead
      exact .classLike hSplit hWord hBrace hEnum hClass hAliases
  · rw [readTypedef_plain readBody scope d hSplit hDefines] at hRead
    cases hRead
    exact .names hSplit hDefines

end

def definesClass (head rest : List Token) : Bool :=
  rest.head?.any (·.isPunctuation "\x7b") &&
    !head.any fun t => t.isPunctuation "(" || t.isPunctuation "="

theorem exists_opener_of_defines {head rest : List Token} (h : definesClass head rest = true) :
    ∃ opener after, rest = opener :: after ∧ opener.isPunctuation "\x7b" = true := by
  cases rest with
  | nil => cases h
  | cons opener after => exact ⟨opener, after, rfl, (Bool.and_eq_true_iff.mp h).1⟩

def leaveClass (ts : List Token) : Outcome (List Token) :=
  if ts.head?.any (·.isPunctuation ";") then .ok ts.tail else skip ts

theorem leaveClass_suffix {ts rest : List Token} (h : leaveClass ts = .ok rest) : rest <:+ ts := by
  unfold leaveClass at h
  split at h
  · cases h
    exact List.tail_suffix ts
  · exact skip_suffix h

section

variable (readBody : BodyReader) (scope : Scope) (member? : Option Member) (d : Declarations)
  {t : Token} {ts head : List Token}

theorem readClassOrDeclaration_eq (t : Token) (ts : List Token) :
    readClassOrDeclaration readBody scope member? d t ts = (do
      let (head, rest) ← splitDeclaration (t :: ts)
      match definesClass head rest, rest with
      | true, opener :: after => do
        let reached ← readClass readBody scope d t head.tail opener after
        return (.nothing, ⟨reached.declarations, ← leaveClass reached.rest⟩)
      | _, _ => (readDeclaration member? (t :: ts)).map fun item => (item.declared, ⟨d, item.rest⟩)) := by
  unfold readClassOrDeclaration
  cases splitDeclaration (t :: ts) with
  | error f => rfl
  | ok parts =>
    obtain ⟨head, rest⟩ := parts
    simp only [bind, Except.bind]
    cases hDefines : definesClass head rest with
    | false =>
      rw [definesClass] at hDefines
      simp only [hDefines]
      cases readDeclaration member? (t :: ts) <;> rfl
    | true =>
      obtain ⟨opener, after, rfl, -⟩ := exists_opener_of_defines hDefines
      rw [definesClass] at hDefines
      simp only [hDefines]
      cases readClass readBody scope d t head.tail opener after with
      | error f => rfl
      | ok reached =>
        simp only [leaveClass]
        split <;> rfl

theorem readClassOrDeclaration_of_defines {opener : Token} {after : List Token}
    (hSplit : splitDeclaration (t :: ts) = .ok (head, opener :: after))
    (hDefines : definesClass head (opener :: after) = true) :
    readClassOrDeclaration readBody scope member? d t ts = do
      let reached ← readClass readBody scope d t head.tail opener after
      return (.nothing, ⟨reached.declarations, ← leaveClass reached.rest⟩) := by
  rw [readClassOrDeclaration_eq, hSplit]
  simp only [bind, Except.bind, hDefines]

theorem readClassOrDeclaration_of_not {rest : List Token}
    (hSplit : splitDeclaration (t :: ts) = .ok (head, rest)) (hNot : definesClass head rest = false) :
    readClassOrDeclaration readBody scope member? d t ts =
      (readDeclaration member? (t :: ts)).map fun item => (item.declared, ⟨d, item.rest⟩) := by
  rw [readClassOrDeclaration_eq, hSplit]
  simp only [bind, Except.bind, hNot]

inductive FromKeyword (t : Token) (ts : List Token) : Declared × Reached → Prop
  | definition {head after rest : List Token} {opener : Token} {reached : Reached}
    (hSplit : splitDeclaration (t :: ts) = .ok (t :: head, opener :: after))
    (hDefines : definesClass (t :: head) (opener :: after) = true)
    (hClass : readClass readBody scope d t head opener after = .ok reached)
    (hLeave : leaveClass reached.rest = .ok rest) :
    FromKeyword t ts (.nothing, ⟨reached.declarations, rest⟩)
  | declaration {head rest : List Token} {item : Item}
    (hSplit : splitDeclaration (t :: ts) = .ok (head, rest)) (hNot : definesClass head rest = false)
    (hItem : readDeclaration member? (t :: ts) = .ok item) :
    FromKeyword t ts (item.declared, ⟨d, item.rest⟩)

variable {readBody scope member? d}

theorem fromKeyword_of_read {result : Declared × Reached}
    (hWord : t.text = "class" ∨ t.text = "struct" ∨ t.text = "union")
    (h : readClassOrDeclaration readBody scope member? d t ts = .ok result) :
    FromKeyword readBody scope member? d t ts result := by
  have hRead := h
  unfold readClassOrDeclaration at h
  rw [bind_eq_ok] at h
  obtain ⟨⟨head, rest⟩, hSplit, -⟩ := h
  cases hDefines : definesClass head rest with
  | true =>
    obtain ⟨opener, after, rfl, hOpen⟩ := exists_opener_of_defines hDefines
    rw [readClassOrDeclaration_of_defines readBody scope member? d hSplit hDefines, bind_eq_ok] at hRead
    obtain ⟨reached, hClass, hRead⟩ := hRead
    rw [bind_eq_ok] at hRead
    obtain ⟨rest, hLeave, hRead⟩ := hRead
    cases hRead
    obtain ⟨head, rfl⟩ : ∃ inner, head = t :: inner := by
      rcases head with - | ⟨first, inner⟩
      · -- the keyword would be the brace itself
        obtain ⟨rfl, -⟩ := List.cons.inj (splitDeclaration_eq_ok hSplit)
        simp only [Token.isPunctuation, Bool.and_eq_true, beq_iff_eq] at hOpen
        rw [hOpen.2] at hWord
        exact absurd hWord (by decide)
      · obtain ⟨rfl, -⟩ := List.cons.inj (splitDeclaration_eq_ok hSplit)
        exact ⟨inner, rfl⟩
    exact .definition hSplit hDefines hClass hLeave
  | false =>
    rw [readClassOrDeclaration_of_not readBody scope member? d hSplit hDefines] at hRead
    obtain ⟨item, hItem, rfl⟩ := map_eq_ok hRead
    exact .declaration hSplit hDefines hItem

end

/-- The forms of a declaration that scopes and classes share. -/
inductive Form
  | passed
  | typeAlias
  | template
  | typedef
  | classLike
  | plain

def passedMembers : List String :=
  ["friend", "enum", "static_assert"]

/-- The words before declarations that a scope passes over. A scope has no friends. -/
def passedItems : List String :=
  ["enum", "static_assert"]

def leadingWords : List String :=
  ["friend", "enum", "static_assert", "using", "template", "typedef", "class", "struct", "union"]

namespace Form

/-- Whether a word starts the declarations of a form, where those that start with the given words are
passed over. -/
def Starts (passedWords : List String) (word : String) : Form → Prop
  | passed => word ∈ passedWords
  | typeAlias => word = "using"
  | template => word = "template"
  | typedef => word = "typedef"
  | classLike => word = "class" ∨ word = "struct" ∨ word = "union"
  | plain => word ∉ passedWords ++ ["using", "template", "typedef", "class", "struct", "union"]

instance (passedWords : List String) (word : String) : (form : Form) →
    Decidable (Starts passedWords word form)
  | passed => inferInstanceAs (Decidable (word ∈ passedWords))
  | typeAlias => inferInstanceAs (Decidable (word = "using"))
  | template => inferInstanceAs (Decidable (word = "template"))
  | typedef => inferInstanceAs (Decidable (word = "typedef"))
  | classLike => inferInstanceAs (Decidable (word = "class" ∨ word = "struct" ∨ word = "union"))
  | plain => inferInstanceAs (Decidable
    (word ∉ passedWords ++ ["using", "template", "typedef", "class", "struct", "union"]))

theorem exists_starts (passedWords : List String) (word : String) :
    ∃ form, Starts passedWords word form := by
  by_cases hPassed : word ∈ passedWords
  · exact ⟨passed, hPassed⟩
  by_cases hOther : word ∈ ["using", "template", "typedef", "class", "struct", "union"]
  · simp only [List.mem_cons, List.not_mem_nil, or_false] at hOther
    rcases hOther with h | h | h | hClass
    · exact ⟨typeAlias, h⟩
    · exact ⟨template, h⟩
    · exact ⟨typedef, h⟩
    · exact ⟨classLike, hClass⟩
  · refine ⟨plain, fun hMem => ?_⟩
    exact (List.mem_append.mp hMem).elim hPassed hOther

def read (readBody : BodyReader) (scope : Scope) (member? : Option Member) (d : Declarations)
    (t : Token) (ts : List Token) : Form → Outcome (Declared × Reached)
  | passed => do return (.nothing, ⟨d, ← skip (t :: ts)⟩)
  | typeAlias => do return (.nothing, ← readUsing scope d t ts)
  | template => do return (.nothing, ⟨d, ← skipTemplate ts⟩)
  | typedef => do return (.nothing, ← readTypedef readBody scope d ts)
  | classLike => readClassOrDeclaration readBody scope member? d t ts
  | plain => do
    let item ← readDeclaration member? (t :: ts)
    return (item.declared, ⟨d, item.rest⟩)

def record (scope : Scope) (declared : Declared) (r : Reached) : Form → Reached
  | plain => ⟨addFunction r.declarations scope declared, r.rest⟩
  | _ => r

@[simp]
theorem record_rest (form : Form) (scope : Scope) (declared : Declared) (r : Reached) :
    (form.record scope declared r).rest = r.rest := by
  cases form <;> rfl

end Form

theorem readMember_eq {form : Form} {t : Token} (h : form.Starts passedMembers t.text)
    (readBody : BodyReader) (scope : Scope) (member : Member) (d : Declarations) (ts : List Token) :
    readMember readBody scope member d t ts = form.read readBody scope (some member) d t ts := by
  unfold readMember
  cases form with
  | passed =>
    have hWord : t.text = "friend" ∨ t.text = "enum" ∨ t.text = "static_assert" := by
      simpa [Form.Starts, passedMembers] using h
    rw [if_pos hWord]
    rfl
  | typeAlias =>
    have hWord : t.text = "using" := h
    simp only [hWord, String.reduceEq, or_false, if_false, if_true]
    rfl
  | template =>
    have hWord : t.text = "template" := h
    simp only [hWord, String.reduceEq, or_false, if_false, if_true]
    rfl
  | typedef =>
    have hWord : t.text = "typedef" := h
    simp only [hWord, String.reduceEq, or_false, if_false, if_true]
    rfl
  | classLike =>
    rcases h with hWord | hWord | hWord <;>
      simp only [hWord, String.reduceEq, or_false, or_true, if_false, if_true] <;> rfl
  | plain =>
    have hWords : ∀ word ∈ leadingWords, t.text ≠ word := by
      rintro word hMem rfl
      exact h hMem
    simp (disch := decide) only [hWords, or_false, if_false]
    rfl

def StartsLinkage (ts : List Token) : Prop :=
  ∃ language brace after, ts = language :: brace :: after ∧ language.kind = .string ∧
    brace.isPunctuation "\x7b" = true

theorem startsLinkage_iff (ts : List Token) :
    (match ts with
      | language :: brace :: _ => language.kind == .string && brace.isPunctuation "\x7b"
      | _ => false) = true ↔ StartsLinkage ts := by
  constructor
  · intro h
    split at h
    · next language brace after =>
      rw [Bool.and_eq_true, beq_iff_eq] at h
      exact ⟨language, brace, after, rfl, h⟩
    · cases h
  · rintro ⟨language, brace, after, rfl, hKind, hBrace⟩
    simp [hKind, hBrace]

def spaceNames (ts : List Token) : List String :=
  ((ts.takeWhile inNamespaceName).filter fun t => t.kind == .identifier).map (·.text)

/-- The forms of a declaration outside of classes: a scope in braces inside further names, a namespace
without body, the word before an inline namespace, or one of the forms that classes share. -/
inductive ItemForm
  | inner (names : List String) (opener : Token) (after : List Token)
  | bodiless (rest : List Token)
  | inlineSpace
  | shared (form : Form)

inductive IsItem (t : Token) (ts : List Token) : ItemForm → Prop
  | space {opener : Token} {after : List Token} (hWord : t.text = "namespace")
    (hName : ts.dropWhile inNamespaceName = opener :: after)
    (hOpen : opener.isPunctuation "\x7b" = true) :
    IsItem t ts (.inner (spaceNames ts) opener after)
  | bodiless (hWord : t.text = "namespace")
    (hNot : (ts.dropWhile inNamespaceName).head?.any (·.isPunctuation "\x7b") = false) :
    IsItem t ts (.bodiless (ts.dropWhile inNamespaceName))
  | inlineSpace (hWord : t.text = "inline")
    (hNext : ts.head?.any (·.isIdentifier "namespace") = true) : IsItem t ts .inlineSpace
  | linkage {language opener : Token} {after : List Token} (hWord : t.text = "extern")
    (hCut : ts = language :: opener :: after) (hString : language.kind = .string)
    (hOpen : opener.isPunctuation "\x7b" = true) : IsItem t ts (.inner [] opener after)
  | shared {form : Form} (hSpace : t.text ≠ "namespace")
    (hInline : ¬(t.text = "inline" ∧ ts.head?.any (·.isIdentifier "namespace") = true))
    (hLinkage : ¬(t.text = "extern" ∧ StartsLinkage ts)) (hForm : form.Starts passedItems t.text) :
    IsItem t ts (.shared form)

theorem exists_isItem (t : Token) (ts : List Token) : ∃ form, IsItem t ts form := by
  by_cases hSpace : t.text = "namespace"
  · cases hName : ts.dropWhile inNamespaceName with
    | nil => exact ⟨_, .bodiless hSpace (by rw [hName]; rfl)⟩
    | cons opener after =>
      by_cases hOpen : opener.isPunctuation "\x7b" = true
      · exact ⟨_, .space hSpace hName hOpen⟩
      · exact ⟨_, .bodiless hSpace (by rw [hName]; simpa using hOpen)⟩
  by_cases hInline : t.text = "inline" ∧ ts.head?.any (·.isIdentifier "namespace") = true
  · exact ⟨_, .inlineSpace hInline.1 hInline.2⟩
  by_cases hLinkage : t.text = "extern" ∧ StartsLinkage ts
  · obtain ⟨hWord, language, opener, after, hCut, hString, hOpen⟩ := hLinkage
    exact ⟨_, .linkage hWord hCut hString hOpen⟩
  · obtain ⟨form, hForm⟩ := Form.exists_starts passedItems t.text
    exact ⟨_, .shared hSpace hInline hLinkage hForm⟩

abbrev ScopeReader := Scope → Token → Declarations → List Token → Outcome Reached

def ItemForm.read (readInner : ScopeReader) (scope : Scope) (d : Declarations) (t : Token)
    (ts : List Token) : ItemForm → Outcome Reached
  | inner names opener after => readInner (scope ++ names) opener d after
  | bodiless rest => do return ⟨d, ← skip rest⟩
  | inlineSpace => .ok ⟨d, ts⟩
  | shared form => do
    let (declared, r) ← form.read readBody scope none d t ts
    return form.record scope declared r

theorem readItem_shared {form : Form} {t : Token} {ts : List Token} (hSpace : t.text ≠ "namespace")
    (hInline : ¬(t.text = "inline" ∧ ts.head?.any (·.isIdentifier "namespace") = true))
    (hLinkage : ¬(t.text = "extern" ∧ StartsLinkage ts)) (h : form.Starts passedItems t.text)
    (readInner : ScopeReader) (scope : Scope) (d : Declarations) :
    readItem readInner scope d t ts =
      (ItemForm.shared form).read readInner scope d t ts := by
  unfold readItem
  extract_lets isLinkage names
  have hLinkage' : ¬(t.text = "extern" ∧ isLinkage = true) := fun hBoth =>
    hLinkage ⟨hBoth.1, (startsLinkage_iff ts).mp hBoth.2⟩
  rw [if_neg hSpace, if_neg hInline, if_neg hLinkage']
  simp only [ItemForm.read, Form.read, Form.record]
  cases form with
  | passed =>
    have hWord : t.text = "enum" ∨ t.text = "static_assert" := by
      simpa [Form.Starts, passedItems] using h
    rcases hWord with hWord | hWord <;> simp [hWord]
  | typeAlias =>
    have hWord : t.text = "using" := h
    simp [hWord]
  | template =>
    have hWord : t.text = "template" := h
    simp [hWord]
  | typedef =>
    have hWord : t.text = "typedef" := h
    simp [hWord]
  | classLike =>
    rcases h with hWord | hWord | hWord <;> simp [hWord]
  | plain =>
    have hWords : ∀ word ∈ passedItems ++ ["using", "template", "typedef", "class", "struct", "union"],
        t.text ≠ word := by
      rintro word hMem rfl
      exact h hMem
    simp (disch := decide) only [hWords, or_false, if_false]
    simp

theorem readItem_eq {form : ItemForm} {t : Token} {ts : List Token} (h : IsItem t ts form)
    (readInner : ScopeReader) (scope : Scope) (d : Declarations) :
    readItem readInner scope d t ts = form.read readInner scope d t ts := by
  cases h with
  | space hWord hName hOpen =>
    unfold readItem
    simp only [hWord, if_true, hName, hOpen]
    rfl
  | bodiless hWord hNot =>
    unfold readItem
    simp only [hWord, if_true]
    cases hName : ts.dropWhile inNamespaceName with
    | nil => rfl
    | cons opener after =>
      rw [hName] at hNot
      have hOpen : opener.isPunctuation "\x7b" = false := hNot
      simp only [hOpen, Bool.false_eq_true, if_false]
      rfl
  | inlineSpace hWord hNext =>
    unfold readItem
    simp only [hWord, hNext, String.reduceEq, if_false, and_self, if_true]
    rfl
  | linkage hWord hCut hString hOpen =>
    unfold readItem
    simp only [hWord, hCut, hString, hOpen, String.reduceEq, false_and, if_false, beq_self_eq_true,
      Bool.and_self, and_self, if_true, ItemForm.read, List.append_nil]
  | shared hSpace hInline hLinkage hForm => exact readItem_shared hSpace hInline hLinkage hForm ..

namespace IsItem

variable {t opener : Token} {ts after : List Token} {names : List String}

theorem inner_suffix (h : IsItem t ts (.inner names opener after)) : opener :: after <:+ ts := by
  cases h with
  | space _ hName _ =>
    rw [← hName]
    exact List.dropWhile_suffix inNamespaceName
  | linkage _ hCut _ _ =>
    rw [hCut]
    exact List.suffix_cons ..

theorem isPunctuation_opener (h : IsItem t ts (.inner names opener after)) :
    opener.isPunctuation "\x7b" = true := by
  cases h with
  | space _ _ hOpen => exact hOpen
  | linkage _ _ _ hOpen => exact hOpen

theorem bodiless_suffix {rest : List Token} (h : IsItem t ts (.bodiless rest)) : rest <:+ ts := by
  cases h
  exact List.dropWhile_suffix inNamespaceName

theorem of_starts {form : Form} (hForm : form.Starts passedItems t.text)
    (hNot : t.text ∉ ["namespace", "inline", "extern"]) : IsItem t ts (.shared form) := by
  have hWord : ∀ word ∈ ["namespace", "inline", "extern"], t.text ≠ word := by
    rintro word hMem rfl
    exact hNot hMem
  exact .shared (hWord _ (by decide)) (fun hBoth => hWord _ (by decide) hBoth.1)
    (fun hBoth => hWord _ (by decide) hBoth.1) hForm

theorem starts {form : Form} (h : IsItem t ts (.shared form)) : form.Starts passedItems t.text := by
  cases h with
  | shared _ _ _ hForm => exact hForm

end IsItem

/-- What a step in the body of a class meets. -/
inductive BodyPart
  | close
  | semicolon
  | label (access : Access)
  | member

namespace BodyPart

def Starts (t : Token) (ts : List Token) : BodyPart → Prop
  | close => t.isPunctuation "\x7d" = true
  | semicolon => t.isPunctuation "\x7d" = false ∧ t.isPunctuation ";" = true
  | label access => t.isPunctuation "\x7d" = false ∧ t.isPunctuation ";" = false ∧
    accessLabel? t ts = some access
  | member => t.isPunctuation "\x7d" = false ∧ t.isPunctuation ";" = false ∧ accessLabel? t ts = none

theorem exists_starts (t : Token) (ts : List Token) : ∃ part, Starts t ts part := by
  cases hClose : t.isPunctuation "\x7d" with
  | true => exact ⟨close, hClose⟩
  | false =>
    cases hSemicolon : t.isPunctuation ";" with
    | true => exact ⟨semicolon, hClose, hSemicolon⟩
    | false =>
      cases hLabel : accessLabel? t ts with
      | some access => exact ⟨label access, hClose, hSemicolon, hLabel⟩
      | none => exact ⟨member, hClose, hSemicolon, hLabel⟩

/-- Reads the members of a class from a part that starts with `t`, with `steps` steps after it. -/
def read (steps : Nat) (scope : Scope) (name : String) (opener : Token) (access : Access)
    (members : Members) (d : Declarations) (t : Token) (ts : List Token) : BodyPart → Outcome Body
  | close => .ok ⟨members, t, ⟨d, ts⟩⟩
  | semicolon => readMembers steps scope name opener access members d ts
  | label access => readMembers steps scope name opener access members d ts.tail
  | member => do
    let (declared, reached) ← readMember (bodyReader steps) scope ⟨name, access⟩ d t ts
    readMembers steps scope name opener access (members.add t.line declared) reached.declarations
      reached.rest

end BodyPart

theorem readMembers_eq {part : BodyPart} {t : Token} {ts : List Token} (h : part.Starts t ts)
    (steps : Nat) (scope : Scope) (name : String) (opener : Token) (access : Access)
    (members : Members) (d : Declarations) :
    readMembers (steps + 1) scope name opener access members d (t :: ts) =
      part.read steps scope name opener access members d t ts := by
  rw [readMembers]
  cases part with
  | close =>
    have hClose : t.isPunctuation "\x7d" = true := h
    rw [if_pos hClose]
    rfl
  | semicolon =>
    obtain ⟨hClose, hSemicolon⟩ := h
    simp only [hClose, hSemicolon, Bool.false_eq_true, if_false, if_true]
    rfl
  | label access =>
    obtain ⟨hClose, hSemicolon, hLabel⟩ := h
    simp only [hClose, hSemicolon, hLabel, Bool.false_eq_true, if_false]
    rfl
  | member =>
    obtain ⟨hClose, hSemicolon, hLabel⟩ := h
    simp only [hClose, hSemicolon, hLabel, Bool.false_eq_true, if_false]
    rfl

inductive ScopePart
  | close
  | semicolon
  | group
  | item

namespace ScopePart

def Starts (t : Token) : ScopePart → Prop
  | close => t.isPunctuation "\x7d" = true
  | semicolon => t.isPunctuation "\x7d" = false ∧ t.isPunctuation ";" = true
  | group => t.isPunctuation "\x7d" = false ∧ t.isPunctuation ";" = false ∧
    t.isPunctuation "\x7b" = true
  | item => t.isPunctuation "\x7d" = false ∧ t.isPunctuation ";" = false ∧
    t.isPunctuation "\x7b" = false

theorem exists_starts (t : Token) : ∃ part, Starts t part := by
  cases hClose : t.isPunctuation "\x7d" with
  | true => exact ⟨close, hClose⟩
  | false =>
    cases hSemicolon : t.isPunctuation ";" with
    | true => exact ⟨semicolon, hClose, hSemicolon⟩
    | false =>
      cases hOpen : t.isPunctuation "\x7b" with
      | true => exact ⟨group, hClose, hSemicolon, hOpen⟩
      | false => exact ⟨item, hClose, hSemicolon, hOpen⟩

def read (steps : Nat) (scope : Scope) (opener? : Option Token) (d : Declarations) (t : Token)
    (ts : List Token) : ScopePart → Outcome Reached
  | close => if opener?.isSome then .ok ⟨d, ts⟩ else .error ⟨.unexpected t.text, t.span⟩
  | semicolon => readScope steps scope opener? d ts
  | group => do
    let (_, _, after) ← closeGroup t ts
    readScope steps scope opener? d after
  | item => do
    let reached ← readItem (fun scope opener d ts => readScope steps scope (some opener) d ts) scope d t ts
    readScope steps scope opener? reached.declarations reached.rest

end ScopePart

theorem readScope_eq {part : ScopePart} {t : Token} (h : part.Starts t) (steps : Nat) (scope : Scope)
    (opener? : Option Token) (d : Declarations) (ts : List Token) :
    readScope (steps + 1) scope opener? d (t :: ts) = part.read steps scope opener? d t ts := by
  rw [readScope]
  cases part with
  | close =>
    have hClose : t.isPunctuation "\x7d" = true := h
    rw [if_pos hClose]
    rfl
  | semicolon =>
    obtain ⟨hClose, hSemicolon⟩ := h
    simp only [hClose, hSemicolon, Bool.false_eq_true, if_false, if_true]
    rfl
  | group =>
    obtain ⟨hClose, hSemicolon, hOpen⟩ := h
    simp only [hClose, hSemicolon, hOpen, Bool.false_eq_true, if_false, if_true]
    rfl
  | item =>
    obtain ⟨hClose, hSemicolon, hOpen⟩ := h
    simp only [hClose, hSemicolon, hOpen, Bool.false_eq_true, if_false]
    rfl

end SkeletonWeave.Declaration
