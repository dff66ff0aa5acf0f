import SkeletonWeave.Proofs.Declaration.Defaults
import SkeletonWeave.Proofs.Declaration.SharedBase

/-!
# Two ways to name a type

`using X = T;` and a `typedef` of `X` name the same type, and a type of the grammar
is read alike in both. A pointer to a function is looked for in a `typedef` only:
after `using` its tokens are read as those of any other type, so that the name
stands for a type without signature.
-/

set_option autoImplicit false

namespace SkeletonWeave

open Token (Nested brackets closer)

namespace Grammar

/-- A type that may be given a name: one of the grammar, or a pointer to a function with such a
result and any list of parameters. -/
inductive AliasedSyntax where
  | plain (type : TypeSyntax)
  | function (result : TypeSyntax) (params : List Word) (isNested : Nested (params.map bare))

namespace AliasedSyntax

def around (declared : List Word) : AliasedSyntax → List Word
  | plain type => type.words ++ declared
  | function result params _ =>
    result.words ++ mark "(" :: mark "*" :: (declared ++ mark ")" :: mark "(" :: (params ++ [mark ")"]))

def usingWords (a : AliasedSyntax) (name : Name) : List Word :=
  word "using" :: name.word :: mark "=" :: (a.around [] ++ [mark ";"])

def typedefWords (a : AliasedSyntax) (name : Name) : List Word :=
  word "typedef" :: (a.around [name.word] ++ [mark ";"])

def isPlain : AliasedSyntax → Bool
  | plain _ => true
  | function _ _ _ => false

/-- Whether a type is the one that is written. The parameters of a function have the types that are
read of them. -/
def Denotes : AliasedSyntax → TypeExpr → Prop
  | plain type, read => read = type.denotes
  | function result params _, read => ∃ list : List Token, list.map Token.word = params ∧
    read = .functionPointer result.denotes
      (((Token.splitAtCommas list).filterMap Declarator.readParam?).map (·.type))

theorem Denotes.of_params {result : TypeSyntax} {ps : List ParamSyntax} {read : TypeExpr}
    {isNested : Nested ((separated (ps.map ParamSyntax.words)).map bare)}
    (h : (function result (separated (ps.map ParamSyntax.words)) isNested).Denotes read) :
    read = .functionPointer result.denotes (ps.map (·.type.denotes)) := by
  obtain ⟨list, hList, rfl⟩ := h
  rw [Declarator.readParams hList, List.map_map]
  rfl

end AliasedSyntax

/-- The tokens of a pointer to a function, with words of types between its first parentheses. -/
structure PointerTokens (result : TypeSyntax) (declared params : List Word) where
  type : List Token
  opener : Token
  star : Token
  names : List Token
  close : Token
  listOpener : Token
  list : List Token
  listClose : Token
  isType : type.map Token.word = result.words
  opens : opener.word = mark "("
  isStar : star.word = mark "*"
  isNames : names.map Token.word = declared
  closes : close.word = mark ")"
  opensList : listOpener.word = mark "("
  isList : list.map Token.word = params
  closesList : listClose.word = mark ")"
  declared : ∀ w ∈ declared, IsTypeWord w
  nested : Nested (params.map bare)

namespace PointerTokens

variable {result : TypeSyntax} {declared params : List Word}

def tokens (p : PointerTokens result declared params) : List Token :=
  p.type ++ p.opener :: p.star ::
    (p.names ++ p.close :: p.listOpener :: (p.list ++ [p.listClose]))

theorem exists_of_words (hDeclared : ∀ w ∈ declared, IsTypeWord w) (hNested : Nested (params.map bare))
    {ts : List Token}
    (hWords : ts.map Token.word = (AliasedSyntax.function result params hNested).around declared) :
    ∃ p : PointerTokens result declared params, p.tokens = ts := by
  obtain ⟨type, ts, rfl, hType, hWords⟩ := List.map_eq_append_iff.mp hWords
  obtain ⟨opener, ts, rfl, hOpen, hWords⟩ := List.map_eq_cons_iff.mp hWords
  obtain ⟨star, ts, rfl, hStar, hWords⟩ := List.map_eq_cons_iff.mp hWords
  obtain ⟨names, ts, rfl, hNames, hWords⟩ := List.map_eq_append_iff.mp hWords
  obtain ⟨close, ts, rfl, hClose, hWords⟩ := List.map_eq_cons_iff.mp hWords
  obtain ⟨listOpener, ts, rfl, hOpenList, hWords⟩ := List.map_eq_cons_iff.mp hWords
  obtain ⟨list, last, rfl, hList, hLast⟩ := List.map_eq_append_iff.mp hWords
  obtain ⟨listClose, rfl, hCloseList⟩ := List.map_eq_singleton_iff.mp hLast
  exact ⟨⟨type, opener, star, names, close, listOpener, list, listClose, hType, hOpen, hStar, hNames,
    hClose, hOpenList, hList, hCloseList, hDeclared, hNested⟩, rfl⟩

variable (p : PointerTokens result declared params)

theorem typelike_type : Typelike p.type :=
  .of_words p.isType result.isTypeWord

theorem nested_list : Nested p.list :=
  nested_of_words p.nested p.isList

theorem nested_inside : Nested (p.star :: p.names) := by
  have hNames : Typelike p.names := .of_words p.isNames p.declared
  refine .plain (isBracket_of_text ?_) hNames.nested
  rw [show p.star.text = "*" from congrArg Word.text p.isStar]
  decide

theorem isHead {semicolon : Token} (hSemicolon : semicolon.word = mark ";") :
    Declaration.Head semicolon none false false p.tokens := by
  refine .append_plain p.typelike_type.outside (fun previous? => ?_) none
  have hList (params : Bool) : Declaration.Head semicolon (some p.close) params false
      (p.listOpener :: (p.list ++ [p.listClose])) :=
    head_marked (by decide) p.opensList p.closesList p.nested_list (by simp)
      (.done (.inl (Token.isPunctuation_iff.mpr hSemicolon)))
  exact head_marked (by decide) p.opens p.closes p.nested_inside (by simp) (hList _)

theorem splitAtParenthesis? : Declarator.splitAtParenthesis? p.tokens =
    some (p.type, p.star :: (p.names ++ p.close :: p.listOpener :: (p.list ++ [p.listClose]))) := by
  have hOpen : p.opener.isPunctuation "(" = true := Token.isPunctuation_iff.mpr p.opens
  have hType : ∀ t ∈ p.type, (!t.isPunctuation "(") = true := by
    intro t ht
    rw [p.typelike_type.isPunctuation ht "(" (by decide)]
    rfl
  rw [Declarator.splitAtParenthesis?, tokens, List.dropWhile_append_of_pos hType,
    List.takeWhile_append_of_pos hType, List.dropWhile_cons_of_neg (by simp [hOpen]),
    List.takeWhile_cons_of_neg (by simp [hOpen]), List.append_nil]

end PointerTokens

theorem PointerTokens.functionPointer? {result : TypeSyntax} {n : Name} {params : List Word}
    (p : PointerTokens result [n.word] params) :
    Declarator.functionPointer? p.tokens = some (some n.text, .functionPointer result.denotes
      (((Token.splitAtCommas p.list).filterMap Declarator.readParam?).map (·.type))) := by
  obtain ⟨name, hNames, hName⟩ := List.map_eq_singleton_iff.mp p.isNames
  have hStar : p.star.isPunctuation "*" = true := Token.isPunctuation_iff.mpr p.isStar
  have hOpen : p.listOpener.isPunctuation "(" = true := Token.isPunctuation_iff.mpr p.opensList
  have hInside := Token.closeGroup?_nested p.nested_inside (by decide : "(" ∈ brackets)
    (Token.isPunctuation_iff.mpr p.closes) (p.listOpener :: (p.list ++ [p.listClose]))
  have hList := Token.closeGroup?_nested p.nested_list (by decide : "(" ∈ brackets)
    (Token.isPunctuation_iff.mpr p.closesList) []
  have hKind : name.kind = .identifier := congrArg Word.kind hName
  have hText : name.text = n.text := congrArg Word.text hName
  have hQualifying : n.text ∉ Words.qualifying := by
    rw [← hText]
    exact Declarator.name_notMem_of_word hName _ (by decide)
  rw [hNames, List.cons_append, List.singleton_append] at hInside
  rw [Declarator.functionPointer?, Declarator.readFunctionPointer?, p.splitAtParenthesis?]
  simp [hStar, hNames, hInside, hKind, hQualifying, hText, hOpen, hList, List.map_filterMap,
    p.typelike_type.bare.withoutSpecifiers, TypeExpr.ofTokens_words p.isType]

end Grammar

open Grammar

theorem TypeExpr.signature_ofTokens (ts : List Token) : (TypeExpr.ofTokens ts).signature = none := by
  unfold ofTokens
  cases ts.length <;> rfl

namespace Declaration

theorem addsTypedefs_using {keyword named equals semicolon : Token} {target : List Token}
    (hKeyword : keyword.word = word "using") (hNamed : named.kind = .identifier)
    (hEquals : equals.word = mark "=")
    (hSplit : ∀ rest, splitDeclaration (target ++ semicolon :: rest) = .ok (target, semicolon :: rest))
    (hSemicolon : semicolon.word = mark ";") :
    AddsTypedefs (keyword :: named :: equals :: (target ++ [semicolon]))
      [(named.text, TypeExpr.ofTokens target)] := by
  have hText : keyword.text = "using" := congrArg Word.text hKeyword
  have hRead (scope : Scope) (d : Declarations) (rest : List Token) :
      readUsing scope d keyword (named :: equals :: (target ++ [semicolon]) ++ rest) =
        .ok ⟨addTypedefs d scope [(named.text, TypeExpr.ofTokens target)], rest⟩ := by
    have hMark : equals.isPunctuation "=" = true := Token.isPunctuation_iff.mpr hEquals
    have hDrop : dropSemicolon (semicolon :: rest) = rest := by
      rw [dropSemicolon, Token.isPunctuation_of_word hSemicolon]
      rfl
    rw [List.cons_append, List.cons_append, List.append_assoc, List.singleton_append, readUsing]
    simp only [hNamed, hMark, and_self, if_true, hSplit, bind, Except.bind, hDrop]
    rfl
  refine .of_reads (congrArg Word.kind hKeyword) (by rw [hText]; decide) ?_ ?_
  · intro readInner scope d rest
    have hForm : Form.typeAlias.Starts passedItems keyword.text := hText
    rw [readItem_eq (.of_starts hForm (by rw [hText]; decide)), ItemForm.read, Form.read, hRead]
    rfl
  · intro readBody scope member d rest
    have hForm : Form.typeAlias.Starts passedMembers keyword.text := hText
    rw [readMember_eq hForm, Form.read, hRead]
    rfl

theorem typedefNames_declares {type : List Token} {name : Token} {t : TypeSyntax} {n : Name}
    (h : Declarator.Declares type name t n) : typedefNames (type ++ [name]) = [(n.text, t.denotes)] := by
  rw [typedefNames, Declarator.functionPointer?, h.typelike.bare.readFunctionPointer?]
  simp only [Declarator.splitDeclarators, h.splitAtCommas, h.stripArray, h.splitName?,
    TypeExpr.ofTokens_words h.type, List.filterMap_nil]

theorem addsTypedefs_named (a : AliasedSyntax) (n : Name) {ts : List Token}
    (hWords : ts.map Token.word = a.typedefWords n) :
    ∃ type, AddsTypedefs ts [(n.text, type)] ∧ a.Denotes type := by
  obtain ⟨keyword, ts, rfl, hKeyword, hWords⟩ := List.map_eq_cons_iff.mp hWords
  obtain ⟨head, last, rfl, hHead, hLast⟩ := List.map_eq_append_iff.mp hWords
  obtain ⟨semicolon, rfl, hSemicolon⟩ := List.map_eq_singleton_iff.mp hLast
  cases a with
  | plain type =>
    obtain ⟨type, name, rfl, h⟩ := Declarator.Declares.exists_of_words hHead
    refine ⟨_, ?_, rfl⟩
    rw [← typedefNames_declares h]
    exact addsTypedefs_typedef hKeyword
      (splitDeclaration_quiet h.typelike.bare.quiet (.inl hSemicolon)) hSemicolon
  | function result params hNested =>
    obtain ⟨p, rfl⟩ := PointerTokens.exists_of_words
      (List.forall_mem_singleton.mpr (.name n)) hNested hHead
    refine ⟨_, ?_, p.list, p.isList, rfl⟩
    have hNames := addsTypedefs_typedef hKeyword (splitDeclaration_head (p.isHead hSemicolon)) hSemicolon
    rw [typedefNames, p.functionPointer?] at hNames
    exact hNames

theorem addsTypedefs_alias (a : AliasedSyntax) (n : Name) {ts : List Token}
    (hWords : ts.map Token.word = a.usingWords n) :
    ∃ type, AddsTypedefs ts [(n.text, type)] ∧ type.signature = none ∧
      (a.isPlain = true → a.Denotes type) := by
  obtain ⟨keyword, ts, rfl, hKeyword, hWords⟩ := List.map_eq_cons_iff.mp hWords
  obtain ⟨named, ts, rfl, hNamed, hWords⟩ := List.map_eq_cons_iff.mp hWords
  obtain ⟨equals, ts, rfl, hEquals, hWords⟩ := List.map_eq_cons_iff.mp hWords
  obtain ⟨target, last, rfl, hTarget, hLast⟩ := List.map_eq_append_iff.mp hWords
  obtain ⟨semicolon, rfl, hSemicolon⟩ := List.map_eq_singleton_iff.mp hLast
  have hHead : Head semicolon none false false target := by
    cases a with
    | plain type =>
      rw [AliasedSyntax.around, List.append_nil] at hTarget
      have hType : Typelike target := .of_words hTarget type.isTypeWord
      rw [← List.append_nil target]
      exact .append_plain hType.outside (fun _ => .done (.inl (Token.isPunctuation_iff.mpr hSemicolon))) none
    | function result params hNested =>
      obtain ⟨p, rfl⟩ := PointerTokens.exists_of_words (by simp) hNested hTarget
      exact p.isHead hSemicolon
  refine ⟨TypeExpr.ofTokens target, ?_, TypeExpr.signature_ofTokens target, fun hPlain => ?_⟩
  · rw [show n.text = named.text from (congrArg Word.text hNamed).symm]
    exact addsTypedefs_using hKeyword (congrArg Word.kind hNamed) hEquals (splitDeclaration_head hHead)
      hSemicolon
  · cases a with
    | plain type =>
      rw [AliasedSyntax.around, List.append_nil] at hTarget
      exact TypeExpr.ofTokens_words hTarget
    | function result params hNested => cases hPlain

/-- The two ways to name a type add the same name in every scope just if the type is no pointer to a
function: a `typedef` gives the type that is written, and `using` never one with a signature. -/
theorem aliases_agree_iff (a : AliasedSyntax) (n : Name) {us ts : List Token}
    (hUsing : us.map Token.word = a.usingWords n) (hTypedef : ts.map Token.word = a.typedefWords n) :
    ∃ aliased named, AddsTypedefs us [(n.text, aliased)] ∧ AddsTypedefs ts [(n.text, named)] ∧
      a.Denotes named ∧ aliased.signature = none ∧ (aliased = named ↔ a.isPlain = true) := by
  obtain ⟨aliased, hAliased, hNone, hPlain⟩ := addsTypedefs_alias a n hUsing
  obtain ⟨named, hNamed, hDenotes⟩ := addsTypedefs_named a n hTypedef
  refine ⟨aliased, named, hAliased, hNamed, hDenotes, hNone, ?_⟩
  cases a with
  | plain type =>
    have hSame : aliased = named := (hPlain rfl).trans hDenotes.symm
    simp [hSame, AliasedSyntax.isPlain]
  | function result params hNested =>
    obtain ⟨list, -, rfl⟩ := hDenotes
    refine iff_of_false ?_ nofun
    rintro rfl
    cases hNone

theorem aliases_of_callback :
    let void : TypeSyntax := .mk false (.builtin ⟨"void", by decide⟩) 0 false
    let int : TypeSyntax := .mk false (.builtin ⟨"int", by decide⟩) 0 false
    let params := separated ([ParamSyntax.mk int ⟨"code", by decide⟩].map ParamSyntax.words)
    ∃ hNested : Nested (params.map bare),
      let a := AliasedSyntax.function void params hNested
      let n : Name := ⟨"F", by decide⟩
      ∃ aliased, AddsTypedefs ((a.usingWords n).map bare) [("F", aliased)] ∧ aliased.signature = none ∧
        AddsTypedefs ((a.typedefWords n).map bare)
          [("F", .functionPointer void.denotes [int.denotes])] := by
  intro void int params
  have hNested : Nested (params.map bare) := by
    rw [← List.append_nil (params.map bare)]
    exact nested_plain_append (by decide) .nil
  refine ⟨hNested, ?_⟩
  intro a n
  have hWords (ws : List Word) : (ws.map bare).map Token.word = ws := by
    rw [List.map_map]
    exact List.map_id ws
  obtain ⟨aliased, named, hAliased, hNamed, hDenotes, hNone, -⟩ :=
    aliases_agree_iff a n (hWords _) (hWords _)
  rw [hDenotes.of_params] at hNamed
  exact ⟨aliased, hAliased, hNone, hNamed⟩

/-- Of two declarations that name one type, the second loses its result and its parameters. -/
theorem alias_loses_signature :
    let signatures (text : String) : Option (List (String × Option (String × List String))) := do
      let ts ← (Token.lex 0 "t.cpp" text).toOption
      let d ← (read [] ts).toOption
      return d.typedefs.map fun t => (t.qualifiedName, t.target.signature.map fun (result, parameters) =>
        (result.spelling, parameters.map (·.spelling)))
    signatures "typedef void (*F)(int);" = some [("F", some ("void", ["int"]))] ∧
      signatures "using F = void (*)(int);" = some [("F", none)] := by
  exact ⟨by decide +kernel, by decide +kernel⟩

end Declaration

end SkeletonWeave
