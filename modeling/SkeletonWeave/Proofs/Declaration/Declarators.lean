import Mathlib.Data.List.TakeWhile
import SkeletonWeave.Proofs.Declaration.Reading
import SkeletonWeave.Proofs.Declaration.TypeReading

/-!
# Declarators as they are written

A type and a name are read as a field or a parameter, and with a parameter list
as a method. The head of a class gives its name and its bases.
-/

set_option autoImplicit false

namespace SkeletonWeave

open Grammar

namespace Grammar

theorem foreign_attributes : Words.attributes.all isForeign = true := by decide

theorem foreign_specifying : Words.specifying.all isForeign = true := by decide

theorem foreign_inheriting : Words.inheriting.all isForeign = true := by decide

theorem IsTypeWord.text_notMem {w : Word} (h : IsTypeWord w) {texts : List String}
    (hForeign : texts.all isForeign = true) : w.text ∉ texts := by
  intro hMem
  exact h.text_ne (List.all_eq_true.mp hForeign _ hMem) rfl

theorem IsTypeWord.kind_ne_string {w : Word} (h : IsTypeWord w) : w.kind ≠ .string := by
  cases h <;> nofun

/-- Texts of the words that types and declarators do not have: ends of declarations, and what says
something of a declaration as a whole. -/
def declarationTexts : List String :=
  [";", "=", ":", "operator", "(", ")", "[", "]", "\x7b", "\x7d", "enum", "static_assert", "using",
    "template", "typedef", "class", "struct", "union"] ++
    Words.attributes ++ Words.specifying ++ Words.inheriting

theorem foreign_declarationTexts : declarationTexts.all isForeign = true := by decide

end Grammar

theorem Declarator.clean_eq_self {ts : List Token} (hAttributes : ∀ t ∈ ts, t.text ∉ Words.attributes)
    (hBracket : ∀ t ∈ ts, t.text ≠ "[") : Declarator.clean ts = ts := by
  induction ts with
  | nil => rw [clean]
  | cons t ts ih =>
    obtain ⟨hFirst, hAttributes⟩ := List.forall_mem_cons.mp hAttributes
    obtain ⟨hFirst', hBracket⟩ := List.forall_mem_cons.mp hBracket
    cases ts with
    | nil => rw [clean]
    | cons u ts =>
      rw [clean, Token.isOneOf_of_notMem hFirst, Token.isPunctuation_of_ne hFirst']
      simp only [Bool.false_and, Bool.false_eq_true, if_false]
      rw [ih hAttributes hBracket]

def Token.Bare (ts : List Token) : Prop :=
  ∀ t ∈ ts, t.text ∉ declarationTexts

namespace Token.Bare

variable {ts : List Token}

theorem of_words {ws : List Word} (hWords : ts.map Token.word = ws)
    (h : ∀ w ∈ ws, w.text ∉ declarationTexts) : Bare ts := by
  intro t ht
  exact h _ (Token.word_mem hWords ht)

theorem isPunctuation (h : Bare ts) {t : Token} (ht : t ∈ ts) :
    ∀ text ∈ declarationTexts, t.isPunctuation text = false := by
  intro text hText
  apply Token.isPunctuation_of_ne
  rintro rfl
  exact h t ht hText

theorem any_isPunctuation (h : Bare ts) (text : String) (hText : text ∈ declarationTexts) :
    (ts.any fun t => t.isPunctuation text) = false := by
  rw [List.any_eq_false]
  intro t ht
  rw [h.isPunctuation ht text hText]
  exact Bool.false_ne_true

theorem any_isIdentifier (h : Bare ts) (text : String) (hText : text ∈ declarationTexts) :
    (ts.any fun t => t.isIdentifier text) = false := by
  rw [List.any_eq_false]
  intro t ht
  rw [Token.isIdentifier_of_ne]
  · exact Bool.false_ne_true
  · rintro rfl
    exact h t ht hText

theorem withoutSpecifiers (h : Bare ts) : Declarator.withoutSpecifiers ts = ts := by
  apply List.filter_eq_self.mpr
  intro t ht
  rw [Token.isOneOf_of_notMem fun hMem => h t ht ?_]
  · rfl
  · simp [declarationTexts, hMem]

theorem clean (h : Bare ts) : Declarator.clean ts = ts := by
  refine Declarator.clean_eq_self (fun t ht hMem => h t ht ?_) fun t ht hText => h t ht ?_
  · simp [declarationTexts, hMem]
  · simp [declarationTexts, hText]

theorem stripInitializer (h : Bare ts) : Declarator.stripInitializer ts = ts := by
  apply List.takeWhile_eq_self_iff.mpr
  intro t ht
  simp (disch := decide) [h.isPunctuation ht]

theorem readFunctionPointer? (h : Bare ts) (readParam? : List Token → Option Param) :
    Declarator.readFunctionPointer? readParam? ts = none := by
  have hDrop : ts.dropWhile (fun t => !t.isPunctuation "(") = [] := by
    apply List.dropWhile_eq_nil_iff.mpr
    intro t ht
    simp (disch := decide) [h.isPunctuation ht]
  rw [Declarator.readFunctionPointer?, Declarator.splitAtParenthesis?, hDrop]
  rfl

end Token.Bare

namespace Grammar

def Typelike (ts : List Token) : Prop :=
  ∀ t ∈ ts, IsTypeWord t.word

namespace Typelike

theorem of_words {ts : List Token} {ws : List Word} (hWords : ts.map Token.word = ws)
    (h : ∀ w ∈ ws, IsTypeWord w) : Typelike ts := by
  intro t ht
  exact h _ (Token.word_mem hWords ht)

theorem isPunctuation {ts : List Token} (h : Typelike ts) {t : Token} (ht : t ∈ ts) (text : String)
    (hForeign : isForeign text = true) : t.isPunctuation text = false :=
  Token.isPunctuation_of_ne ((h t ht).text_ne hForeign)

theorem isOneOf {ts : List Token} (h : Typelike ts) {t : Token} (ht : t ∈ ts) {words : List String}
    (hForeign : words.all isForeign = true) : t.isOneOf words = false :=
  Token.isOneOf_of_notMem ((h t ht).text_notMem hForeign)

theorem filter_result {ts : List Token} (h : Typelike ts) :
    (ts.filter fun t => !(t.isOneOf Words.specifying || t.kind == .string)) = ts := by
  apply List.filter_eq_self.mpr
  intro t ht
  have hKind : t.kind ≠ .string := (h t ht).kind_ne_string
  rw [h.isOneOf ht foreign_specifying]
  simpa using hKind

theorem bare {ts : List Token} (h : Typelike ts) : Token.Bare ts :=
  fun t ht => (h t ht).text_notMem foreign_declarationTexts

end Typelike

end Grammar

namespace Declarator

theorem name_notMem_of_word {name : Token} {n : Name} (h : name.word = n.word) (words : List String)
    (hNone : (words.all fun w => !isName w) = true) : name.text ∉ words := by
  rw [show name.text = n.text from congrArg Word.text h]
  intro hMem
  have hWord := List.all_eq_true.mp hNone _ hMem
  rw [n.isName] at hWord
  cases hWord

theorem splitName?_named {type : List Token} {name : Token} {n : Name} (hName : name.word = n.word)
    (hNames : ∃ u ∈ type, u.kind = .identifier ∧ u.text ∉ Words.qualifying)
    (hLast : type.getLast?.any (·.isPunctuation "::") = false) :
    splitName? (type ++ [name]) = some (n.text, type) := by
  have hQualified : type.reverse.head?.any (·.isPunctuation "::") = false := by
    rw [List.head?_reverse]
    exact hLast
  have hNames : (type.reverse.any fun u => u.kind == .identifier &&
      !Words.qualifying.contains u.text) = true := by
    obtain ⟨u, hu, hKind, hText⟩ := hNames
    rw [List.any_eq_true]
    refine ⟨u, List.mem_reverse.mpr hu, ?_⟩
    rw [hKind]
    simpa using hText
  have hBuiltin : name.text ∉ Words.builtin := name_notMem_of_word hName _ (by decide)
  have hQualifying : name.text ∉ Words.qualifying := name_notMem_of_word hName _ (by decide)
  have hKind : name.kind = .identifier := congrArg Word.kind hName
  simp only [splitName?, List.reverse_append, List.reverse_singleton, List.singleton_append,
    hQualified, hNames]
  simp [hKind, hBuiltin, hQualifying]
  exact congrArg Word.text hName

theorem stripArray_concat (ts : List Token) {t : Token} (h : t.isPunctuation "]" = false) :
    stripArray (ts ++ [t]) = ts ++ [t] := by
  rw [stripArray, List.reverse_append, List.reverse_singleton, List.singleton_append,
    dropExtents, if_neg (by rw [h]; exact Bool.false_ne_true)]
  simp

structure Declares (type : List Token) (name : Token) (t : TypeSyntax) (n : Name) : Prop where
  type : type.map Token.word = t.words
  name : name.word = n.word

namespace Declares

variable {type : List Token} {name : Token} {t : TypeSyntax} {n : Name}

theorem words (h : Declares type name t n) :
    (type ++ [name]).map Token.word = t.words ++ [n.word] := by
  rw [List.map_append, h.type, List.map_singleton, h.name]

theorem exists_of_words {ts : List Token} (h : ts.map Token.word = t.words ++ [n.word]) :
    ∃ type name, ts = type ++ [name] ∧ Declares type name t n := by
  obtain ⟨type, last, rfl, hType, hLast⟩ := List.map_eq_append_iff.mp h
  obtain ⟨name, rfl, hName⟩ := List.map_eq_singleton_iff.mp hLast
  exact ⟨type, name, rfl, hType, hName⟩

theorem typelike_type (h : Declares type name t n) : Typelike type :=
  .of_words h.type t.isTypeWord

theorem typelike (h : Declares type name t n) : Typelike (type ++ [name]) := by
  intro u hMem
  rcases List.mem_append.mp hMem with hType | hName
  · exact h.typelike_type u hType
  · obtain rfl := List.mem_singleton.mp hName
    rw [h.name]
    exact .name n

theorem angled (_ : Declares type name t n) : Angled false (t.words ++ [n.word]) :=
  t.angled.append (.plain n.plain .nil)

theorem kind_name (h : Declares type name t n) : name.kind = .identifier :=
  congrArg Word.kind h.name

theorem text_name (h : Declares type name t n) : name.text = n.text :=
  congrArg Word.text h.name

theorem name_notMem (h : Declares type name t n) (words : List String)
    (hNone : (words.all fun w => !isName w) = true) : name.text ∉ words :=
  name_notMem_of_word h.name words hNone

theorem exists_type_eq (h : Declares type name t n) :
    ∃ before last, type = before ++ [last] ∧ last.word ≠ mark "::" := by
  obtain ⟨ws, w, hWords, hLast⟩ := t.exists_words_eq
  obtain ⟨before, ts, rfl, -, hTs⟩ := List.map_eq_append_iff.mp (h.type.trans hWords)
  obtain ⟨last, rfl, rfl⟩ := List.map_eq_singleton_iff.mp hTs
  exact ⟨before, last, rfl, hLast⟩

theorem type_ne_nil (h : Declares type name t n) : type ≠ [] := by
  obtain ⟨before, last, rfl, -⟩ := h.exists_type_eq
  simp

theorem getLast?_type (h : Declares type name t n) (text : String)
    (hForeign : isForeign text = true ∨ text = "::") :
    type.getLast?.any (·.isPunctuation text) = false := by
  obtain ⟨before, last, rfl, hLast⟩ := h.exists_type_eq
  rw [List.getLast?_concat, Option.any_some]
  rcases hForeign with hForeign | rfl
  · exact h.typelike_type.isPunctuation (List.mem_append_right _ List.mem_cons_self) text hForeign
  · rw [Bool.eq_false_iff]
    intro hPunctuation
    exact hLast (Token.isPunctuation_iff.mp hPunctuation)

theorem splitName? (h : Declares type name t n) :
    Declarator.splitName? (type ++ [name]) = some (n.text, type) := by
  refine splitName?_named h.name ?_ (h.getLast?_type "::" (.inr rfl))
  obtain ⟨w, hMem, hKind, hText⟩ := t.exists_naming
  rw [← h.type] at hMem
  obtain ⟨u, hu, rfl⟩ := List.mem_map.mp hMem
  exact ⟨u, hu, hKind, hText⟩

theorem stripArray (h : Declares type name t n) :
    Declarator.stripArray (type ++ [name]) = type ++ [name] :=
  stripArray_concat type (h.typelike.isPunctuation (by simp) "]" (by decide))

theorem splitAtCommas (h : Declares type name t n) :
    Token.splitAtCommas (type ++ [name]) = [type ++ [name]] := by
  obtain ⟨hHidden, -⟩ := h.angled.hides (Int.le_refl 0) nofun
  have hSplit := Token.splitTopFrom_hidden hHidden h.words [] []
  rw [List.append_nil] at hSplit
  rw [Token.splitAtCommas, hSplit, Token.splitTopFrom, List.append_nil, List.reverse_reverse]

theorem readFields (h : Declares type name t n) (access : Access) :
    Declarator.readFields (type ++ [name]) access =
      .fields [⟨n.text, t.denotes, access, false⟩] := by
  have hStatic := h.typelike.bare.any_isIdentifier "static" (by decide)
  simp only [Declarator.readFields, hStatic, h.typelike.bare.withoutSpecifiers, splitDeclarators,
    h.splitAtCommas, h.typelike.bare.stripInitializer, h.stripArray, h.splitName?, List.filterMap_nil,
    TypeExpr.ofTokens_words h.type, List.map_cons, List.map_nil]

theorem readPlainParam (h : Declares type name t n) (hasDefault : Bool) :
    Declarator.readPlainParam (type ++ [name]) hasDefault =
      ⟨some n.text, t.denotes, hasDefault⟩ := by
  have hLast : (type ++ [name]).getLast?.any (·.isPunctuation "]") = false := by
    rw [List.getLast?_concat, Option.any_some]
    exact h.typelike.isPunctuation (by simp) "]" (by decide)
  simp only [Declarator.readPlainParam, h.stripArray, h.splitName?, hLast,
    TypeExpr.ofTokens_words h.type]
  rfl

theorem readParamWithin_succ (levels : Nat) (ts : List Token) :
    readParamWithin (levels + 1) ts =
      (let hasDefault := ts.any (·.isPunctuation "=")
      let ts := ts.takeWhile fun t => !t.isPunctuation "="
      let isNone :=
        match ts with
        | [] => true
        | [t] => t.isIdentifier "void" || t.isPunctuation "..."
        | _ => false
      if isNone then none
      else
        match Declarator.readFunctionPointer? (readParamWithin levels) ts with
        | some (name?, type) => some ⟨name?, type, hasDefault⟩
        | none => some (Declarator.readPlainParam ts hasDefault)) := rfl

theorem readParam?_default (h : Declares type name t n) {rest : List Token}
    (hRest : ∀ u us, rest = u :: us → u.word = mark "=") :
    Declarator.readParam? (type ++ name :: rest) =
      some ⟨some n.text, t.denotes, !rest.isEmpty⟩ := by
  have hBefore : type ++ name :: rest = (type ++ [name]) ++ rest := by simp
  have hFirst (u : Token) (us : List Token) (hCons : rest = u :: us) : u.isPunctuation "=" = true :=
    Token.isPunctuation_iff.mpr (hRest u us hCons)
  have hDefault : ((type ++ name :: rest).any fun u => u.isPunctuation "=") = !rest.isEmpty := by
    rw [hBefore, List.any_append, h.typelike.bare.any_isPunctuation "=" (by decide), Bool.false_or]
    cases rest with
    | nil => rfl
    | cons u us => simp [hFirst u us rfl]
  have hTake : (type ++ name :: rest).takeWhile (fun u => !u.isPunctuation "=") = type ++ [name] := by
    have hAll : ∀ u ∈ type ++ [name], (!u.isPunctuation "=") = true := by
      intro u hu
      rw [h.typelike.isPunctuation hu "=" (by decide)]
      rfl
    rw [hBefore, List.takeWhile_append_of_pos hAll]
    cases rest with
    | nil => simp
    | cons u us => simp [hFirst u us rfl]
  obtain ⟨before, last, hType, -⟩ := h.exists_type_eq
  -- A type and a name are at least two tokens, and so neither a single `void` nor an ellipsis.
  have hSome : ∃ first second more, type ++ [name] = first :: second :: more := by
    rw [hType]
    cases before with
    | nil => exact ⟨last, name, [], rfl⟩
    | cons first before =>
      cases before with
      | nil => exact ⟨first, last, [name], rfl⟩
      | cons second before => exact ⟨first, second, _, rfl⟩
  have hPointer := h.typelike.bare.readFunctionPointer?
  have hPlain := h.readPlainParam (!rest.isEmpty)
  obtain ⟨first, second, more, hCons⟩ := hSome
  have hLevels : (type ++ name :: rest).length = (type ++ rest).length + 1 := by simp; omega
  rw [hCons] at hTake hPointer hPlain
  rw [Declarator.readParam?, hLevels, readParamWithin_succ]
  simp only [hDefault, hTake, hPointer, hPlain]
  rfl

theorem readParam? (h : Declares type name t n) :
    Declarator.readParam? (type ++ [name]) = some ⟨some n.text, t.denotes, false⟩ :=
  h.readParam?_default nofun

end Declares

variable {type : List Token} {name : Token} {t : TypeSyntax} {n : Name}

theorem classify_field (h : Declares type name t n) (member : Member) :
    classify (clean (type ++ [name])) (some member) =
      .fields [⟨n.text, t.denotes, member.access, false⟩] := by
  have hOperator := h.typelike.bare.any_isIdentifier "operator" (by decide)
  have hParams : splitAtParams 0 [] (type ++ [name]) = none := by
    have hPass := passesAngled_splitAtParams.pass h.angled h.words 0 nofun [] []
    rw [List.append_nil] at hPass
    rw [hPass, splitAtParams]
  rw [h.typelike.bare.clean, classify, hOperator, if_neg Bool.false_ne_true, hParams]
  exact h.readFields member.access

theorem angled_params {params : List ParamSyntax} {ws : List Word}
    (h : ws ∈ params.map ParamSyntax.words) : Angled false ws := by
  obtain ⟨p, -, rfl⟩ := List.mem_map.mp h
  exact p.type.angled.append (.plain p.name.plain .nil)

theorem typelike_params {params : List ParamSyntax} {ts : List Token}
    (hWords : ts.map Token.word = separated (params.map ParamSyntax.words)) : Typelike ts := by
  apply Typelike.of_words hWords
  refine forall_mem_separated (.mark (by decide)) ?_
  intro ws hPart
  obtain ⟨p, -, rfl⟩ := List.mem_map.mp hPart
  rw [ParamSyntax.words, List.forall_mem_append, List.forall_mem_singleton]
  exact ⟨p.type.isTypeWord, .name p.name⟩

theorem readParam?_words {p : ParamSyntax} {part : List Token}
    (hWords : part.map Token.word = p.words) : readParam? part = some p.denotes := by
  obtain ⟨type, name, rfl, h⟩ := Declares.exists_of_words hWords
  exact h.readParam?

theorem readParams {params : List ParamSyntax} {ts : List Token}
    (hWords : ts.map Token.word = separated (params.map ParamSyntax.words)) :
    (Token.splitAtCommas ts).filterMap readParam? = params.map ParamSyntax.denotes := by
  cases params with
  | nil =>
    obtain rfl := List.map_eq_nil_iff.mp hWords
    rfl
  | cons p params =>
    have hSplit := Token.splitAtCommas_separated (fun _ => angled_params) (by simp) hWords
    exact TypeExpr.filterMap_eq_of_words hSplit fun q _ part hPart => readParam?_words hPart

def methodAt (m : MethodSyntax) (access : Access) (name : Token) : Method :=
  { m.denotes access with
    line := name.line
    nameSpan := name.span
    body? := none }

theorem closeGroup?_parens {inside : List Token} {close : Token} (h : Typelike inside)
    (hClose : close.word = mark ")") (rest : List Token) :
    Token.closeGroup? "(" (inside ++ close :: rest) = some (inside, close, rest) := by
  have hPass (passed : List Token) : Token.closeGroupFrom? "(" 0 passed (inside ++ close :: rest) =
      some (passed.reverse ++ inside, close, rest) := by
    induction inside generalizing passed with
    | nil => simp [Token.closeGroupFrom?, Token.closer, Token.isPunctuation_of_word hClose]
    | cons t ts ih =>
      have hOpen := h.isPunctuation List.mem_cons_self "(" (by decide)
      have hShut := h.isPunctuation List.mem_cons_self ")" (by decide)
      have hLater : Typelike ts := fun u hu => h u (List.mem_cons_of_mem _ hu)
      rw [List.cons_append, Token.closeGroupFrom?]
      simp [Token.closer, hOpen, hShut, ih hLater]
  rw [Token.closeGroup?, hPass]
  rfl

theorem readMethod_words {m : MethodSyntax} (h : Declares type name m.result m.name)
    {params : List Token} {close : Token}
    (hParams : params.map Token.word = separated (m.params.map ParamSyntax.words))
    (hClose : close.word = mark ")") (member : Member) :
    readMethod type name (params ++ [close]) (some member) = .method (methodAt m member.access name) := by
  have hDestructor := h.getLast?_type "~" (.inl (by decide))
  have hQualified := h.getLast?_type "::" (.inr rfl)
  have hStatic := h.typelike_type.bare.any_isIdentifier "static" (by decide)
  have hVirtual := h.typelike_type.bare.any_isIdentifier "virtual" (by decide)
  have hSome : type.isEmpty = false := by simpa using h.type_ne_nil
  have hType : returnType? type [] = some m.result.denotes := by
    simp [returnType?, hSome, TypeExpr.ofTokens_words h.type]
  unfold readMethod
  simp only [hDestructor, hQualified, h.typelike_type.filter_result, hStatic, hVirtual, hSome,
    closeGroup?_parens (typelike_params hParams) hClose, Bool.false_eq_true, if_false,
    Bool.and_false, List.takeWhile_nil, List.any_nil, hType, readParams hParams, h.text_name]
  rfl

theorem head?_params {params : List ParamSyntax} {ts : List Token} {close : Token}
    (hWords : ts.map Token.word = separated (params.map ParamSyntax.words))
    (hClose : close.word = mark ")") :
    (ts ++ [close]).head?.any (·.isPunctuation "*") = false := by
  cases params with
  | nil =>
    obtain rfl := List.map_eq_nil_iff.mp hWords
    exact Token.isPunctuation_of_word hClose "*"
  | cons p params =>
    obtain ⟨w, ws, hCons, hKind⟩ := p.type.exists_words_eq_cons
    have hStart : ∃ more, separated ((p :: params).map ParamSyntax.words) = w :: more := by
      rw [List.map_cons, ParamSyntax.words, hCons]
      cases params with
      | nil => exact ⟨_, by simp [separated]; rfl⟩
      | cons q params => exact ⟨_, by simp [separated]; rfl⟩
    obtain ⟨more, hStart⟩ := hStart
    obtain ⟨t, ts, rfl, rfl, -⟩ := List.map_eq_cons_iff.mp (hWords.trans hStart)
    apply Token.isPunctuation_of_kind
    rw [show t.kind = .identifier from hKind]
    decide

theorem text_methodHead {m : MethodSyntax} (h : Declares type name m.result m.name)
    {params : List Token} {opener close : Token} (hOpen : opener.word = mark "(")
    (hParams : params.map Token.word = separated (m.params.map ParamSyntax.words))
    (hClose : close.word = mark ")") (texts : List String)
    (hForeign : texts.all isForeign = true) (hParens : "(" ∉ texts ∧ ")" ∉ texts) :
    ∀ u ∈ type ++ name :: opener :: (params ++ [close]), u.text ∉ texts := by
  intro u hu
  have hu : u ∈ type ++ [name] ∨ u = opener ∨ u ∈ params ∨ u = close := by
    simpa [or_assoc] using hu
  rcases hu with hDeclared | rfl | hParam | rfl
  · exact (h.typelike u hDeclared).text_notMem hForeign
  · rw [show u.text = "(" from congrArg Word.text hOpen]
    exact hParens.1
  · exact (typelike_params hParams u hParam).text_notMem hForeign
  · rw [show u.text = ")" from congrArg Word.text hClose]
    exact hParens.2

theorem classify_method {m : MethodSyntax} (h : Declares type name m.result m.name)
    {params : List Token} {opener close : Token} (hOpen : opener.word = mark "(")
    (hParams : params.map Token.word = separated (m.params.map ParamSyntax.words))
    (hClose : close.word = mark ")") (member : Member) :
    classify (clean (type ++ name :: opener :: (params ++ [close]))) (some member) =
      .method (methodAt m member.access name) := by
  have hText := text_methodHead h hOpen hParams hClose
  have hClean : clean (type ++ name :: opener :: (params ++ [close])) =
      type ++ name :: opener :: (params ++ [close]) := by
    apply clean_eq_self
    · exact hText _ foreign_attributes (by decide)
    · intro u hu hBracket
      exact hText ["["] (by decide) (by decide) u hu (List.mem_singleton.mpr hBracket)
  have hOperator : ((type ++ name :: opener :: (params ++ [close])).any
      fun u => u.isIdentifier "operator") = false := by
    rw [List.any_eq_false]
    intro u hu
    have hNone := hText ["operator"] (by decide) (by decide) u hu
    rw [Token.isIdentifier_of_ne fun hEq => hNone (List.mem_singleton.mpr hEq)]
    exact Bool.false_ne_true
  have hSplit : splitAtParams 0 [] (type ++ name :: opener :: (params ++ [close])) =
      some (type ++ [name], params ++ [close]) := by
    have hPass := passesAngled_splitAtParams.pass h.angled h.words 0 nofun []
      (opener :: (params ++ [close]))
    rw [List.append_assoc, List.singleton_append, List.append_nil] at hPass
    rw [hPass, splitAtParams]
    simp [Token.isPunctuation_of_word hOpen]
  have hOperatorLike : Words.operatorLike.contains name.text = false := by
    simpa using h.name_notMem Words.operatorLike (by decide)
  rw [hClean, classify, hOperator, if_neg Bool.false_ne_true, hSplit]
  simp only [head?_params hParams hClose, List.getLast?_concat, List.dropLast_concat, h.kind_name,
    hOperatorLike, readMethod_words h hParams hClose member]
  rfl

end Declarator

namespace Grammar

theorem Name.text_ne_empty (n : Name) : n.text ≠ "" :=
  n.text_ne (by decide)

theorem Path.text_ne_empty (p : Path) : p.text ≠ "" := by
  obtain ⟨first, more⟩ := p
  cases more with
  | nil => simpa [Path.text] using first.text_ne_empty
  | cons n more => simp [Path.text]

theorem kind_accessWord (access : Access) : (accessWord access).kind = .identifier := by
  cases access <;> rfl

theorem text_accessWord (access : Access) : (accessWord access).text ∈ Words.inheriting := by
  cases access <;> decide

theorem angled_bases {bases : List (Access × Path)} {ws : List Word}
    (h : ws ∈ bases.map baseWords) : Angled false ws := by
  obtain ⟨b, -, rfl⟩ := List.mem_map.mp h
  have hNone : ∀ text ∈ Words.inheriting, text ∉ delimiters := by decide
  exact .plain (hNone _ (text_accessWord b.1)) b.2.angled

end Grammar

namespace Declaration

theorem spell_base {b : Access × Path} {part : List Token}
    (hWords : part.map Token.word = baseWords b) :
    Token.spell (part.filter fun t => !t.isOneOf Words.inheriting) = b.2.text := by
  obtain ⟨t, path, rfl, hAccess, hPath⟩ := List.map_eq_cons_iff.mp hWords
  have hFirst : t.isOneOf Words.inheriting = true := by
    have hKind : t.kind = .identifier := (congrArg Word.kind hAccess).trans (kind_accessWord b.1)
    have hText : t.text ∈ Words.inheriting := by
      rw [show t.text = _ from congrArg Word.text hAccess]
      exact text_accessWord b.1
    simp [Token.isOneOf, hKind, hText]
  have hRest : path.filter (fun t => !t.isOneOf Words.inheriting) = path := by
    apply List.filter_eq_self.mpr
    intro u hu
    have hTypelike : Typelike path := .of_words hPath b.2.isTypeWord
    rw [hTypelike.isOneOf hu foreign_inheriting]
    rfl
  rw [List.filter_cons_of_neg (by rw [hFirst]; decide), hRest]
  exact b.2.spelled.spell_eq hPath

theorem bases_cases {bases : List (Access × Path)} {rest : List Token}
    (hWords : rest.map Token.word = basesWords bases) :
    rest = [] ∧ bases = [] ∨
      ∃ colon list, rest = colon :: list ∧ bases ≠ [] ∧ colon.word = mark ":" ∧
        list.map Token.word = separated (bases.map baseWords) := by
  unfold basesWords at hWords
  split at hWords
  · next hNone => exact .inl ⟨List.map_eq_nil_iff.mp hWords, hNone⟩
  · next hSome =>
    obtain ⟨colon, list, rfl, hColon, hList⟩ := List.map_eq_cons_iff.mp hWords
    exact .inr ⟨colon, list, rfl, hSome, hColon, hList⟩

theorem className_words {n : Name} {bases : List (Access × Path)} {name : Token}
    {rest : List Token} (hName : name.word = n.word) (hBases : rest.map Token.word = basesWords bases) :
    className (name :: rest) = n.text := by
  have hKind : name.kind = .identifier := congrArg Word.kind hName
  have hText : name.text = n.text := congrArg Word.text hName
  have hFinal : name.isIdentifier "final" = false := by
    apply Token.isIdentifier_of_ne
    rw [hText]
    exact n.text_ne (by decide)
  have hOwn : (name :: rest).takeWhile (fun t => !t.isPunctuation ":") = [name] := by
    rw [List.takeWhile_cons_of_pos (by simp [Token.isPunctuation_of_kind, hKind])]
    rcases bases_cases hBases with ⟨rfl, -⟩ | ⟨colon, list, rfl, -, hColon, -⟩
    · rfl
    · rw [List.takeWhile_cons_of_neg (by simp [Token.isPunctuation_of_word hColon])]
  simp [className, hOwn, hKind, hFinal, hText]

theorem baseClasses_words {n : Name} {bases : List (Access × Path)} {name : Token}
    {rest : List Token} (hName : name.word = n.word) (hBases : rest.map Token.word = basesWords bases) :
    baseClasses (name :: rest) = bases.map fun b => b.2.text := by
  have hKind : name.kind ≠ .punctuation := by
    rw [show name.kind = .identifier from congrArg Word.kind hName]
    decide
  have hDrop : (name :: rest).dropWhile (fun t => !t.isPunctuation ":") =
      rest.dropWhile fun t => !t.isPunctuation ":" := by
    rw [List.dropWhile_cons_of_pos (by simp [Token.isPunctuation_of_kind hKind])]
  rw [baseClasses, hDrop]
  rcases bases_cases hBases with ⟨rfl, rfl⟩ | ⟨colon, list, rfl, hSome, hColon, hList⟩
  · rfl
  · have hParts := Token.splitAtCommas_separated (fun _ => angled_bases) (by simpa using hSome) hList
    have hSpell : (Token.splitAtCommas list).map (fun part =>
        Token.spell (part.filter fun t => !t.isOneOf Words.inheriting)) =
        bases.map fun b => b.2.text :=
      TypeExpr.map_eq_of_words hParts fun b _ part hPart => spell_base hPart
    rw [List.dropWhile_cons_of_neg (by simp [Token.isPunctuation_of_word hColon])]
    simp only [hSpell]
    apply List.filter_eq_self.mpr
    intro text hText
    obtain ⟨b, -, rfl⟩ := List.mem_map.mp hText
    simpa using b.2.text_ne_empty

end Declaration

end SkeletonWeave
