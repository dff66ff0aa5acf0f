import Mathlib.Algebra.Order.BigOperators.Group.List
import Mathlib.Algebra.Order.Ring.Nat
import SkeletonWeave.Proofs.Declaration.Places
import SkeletonWeave.Proofs.Declaration.RoundTrip

/-!
# Declarators that share a base

Variables and type names may share the base of their types. The reader takes the
pointers of the first declarator back from its type before it adds those of the
others, and takes those in template arguments with them: the others have the
types that they would have on their own just if no argument has a pointer or a
reference.
-/

set_option autoImplicit false

namespace SkeletonWeave

open Declarator (Member)

namespace Grammar

def typeOf (ws : List Word) : TypeExpr :=
  TypeExpr.ofTokens (ws.map bare)

theorem ofTokens_eq_typeOf (ts : List Token) : TypeExpr.ofTokens ts = typeOf (ts.map Token.word) := by
  rw [typeOf, List.map_map]
  exact (TypeExpr.ofTokens_map Token.keepsWords_bare ts).symm

theorem count_spell {c : Char} (hc : c ≠ ' ') (ts : List Token) :
    (Token.spell ts).toList.count c = (ts.map fun t => t.text.toList.count c).sum := by
  fun_induction Token.spell ts with
  | case1 => rfl
  | case2 a => simp
  | case3 a b rest ih =>
    have hGap : (if Token.needsSpace a b then " " else "").toList.count c = 0 := by
      split
      · exact List.count_eq_zero.mpr (by simpa using hc)
      · rfl
    rw [String.toList_append, String.toList_append, List.count_append, List.count_append, hGap, ih]
    simp

/-- A type but for the blanks in its spelling. -/
def unspaced (declared : String × TypeExpr) : String × List Char :=
  (declared.1, declared.2.spelling.toList.filter (· ≠ ' '))

theorem count_unspaced {c : Char} (hc : c ≠ ' ') (name : String) (ws : List Word) :
    (unspaced (name, typeOf ws)).2.count c = (ws.map fun w => w.text.toList.count c).sum := by
  have hSpelling : (typeOf ws).spelling = Token.spell (ws.map bare) := by
    unfold typeOf TypeExpr.ofTokens
    cases (ws.map bare).length <;> rfl
  rw [unspaced, List.count_filter (by simpa using hc), hSpelling, count_spell hc, List.map_map]
  rfl

/-- Words that name a type, and that declarators with pointers may follow. -/
structure IsBase (ws : List Word) : Prop where
  angled : Angled false ws
  plain : ∀ w ∈ ws, w.text ∉ declarationTexts
  names : ∃ w ∈ ws, w.kind = .identifier ∧ w.text ∉ Words.qualifying
  whole : ws.getLast? ≠ some (mark "::")

theorem isBase_of_syntax (isConst : Bool) (base : BaseSyntax) :
    IsBase (TypeSyntax.mk isConst base 0 false).words where
  angled := TypeSyntax.angled _
  plain w hw := (TypeSyntax.isTypeWord _ w hw).text_notMem foreign_declarationTexts
  names := TypeSyntax.exists_naming _
  whole := by
    obtain ⟨ws, w, hWords, hLast⟩ := TypeSyntax.exists_words_eq (.mk isConst base 0 false)
    rw [hWords, List.getLast?_concat]
    exact fun hEq => hLast (Option.some.inj hEq)

structure DeclaratorSyntax where
  pointers : Nat
  name : Name

namespace DeclaratorSyntax

def stars (d : DeclaratorSyntax) : List Word :=
  List.replicate d.pointers (mark "*")

def words (d : DeclaratorSyntax) : List Word :=
  d.stars ++ [d.name.word]

end DeclaratorSyntax

def sharedWords (base : List Word) (ds : List DeclaratorSyntax) : List Word :=
  base ++ (separated (ds.map DeclaratorSyntax.words) ++ [mark ";"])

def isPointerMark (w : Word) : Bool :=
  w = mark "*" || w = mark "&"

/-- What the declarators of one declaration declare: all but the first have a base without pointers
and references, at any depth. -/
def sharedTypes (base : List Word) : List DeclaratorSyntax → List (String × TypeExpr)
  | [] => []
  | d :: ds =>
    (d.name.text, typeOf (base ++ d.stars)) ::
      ds.map fun d => (d.name.text, typeOf (base.filter (!isPointerMark ·) ++ d.stars))

def separateTypes (base : List Word) (ds : List DeclaratorSyntax) : List (String × TypeExpr) :=
  ds.map fun d => (d.name.text, typeOf (base ++ d.stars))

theorem sum_filter_lt {ws : List Word} {p : Word → Bool} {f : Word → Nat} {w : Word} (hw : w ∈ ws)
    (hLost : p w = false) (hSome : 0 < f w) : ((ws.filter p).map f).sum < (ws.map f).sum := by
  obtain ⟨front, back, rfl⟩ := List.append_of_mem hw
  have hRest : ((front ++ back).filter p).Sublist (front ++ back) := List.filter_sublist
  have hSum := (hRest.map f).sum_le_sum fun _ _ => Nat.zero_le _
  simp only [List.filter_append, List.filter_cons_of_neg (by simp [hLost] : ¬p w = true), List.map_append,
    List.map_cons, List.sum_append, List.sum_cons] at hSum ⊢
  omega

/-- A later declarator loses the pointers and references in the arguments of its base, and its type
shows it however it is spaced. -/
theorem types_agree_iff (base : List Word) {ds : List DeclaratorSyntax} (hSome : 2 ≤ ds.length) :
    (sharedTypes base ds = separateTypes base ds ↔ ∀ w ∈ base, isPointerMark w = false) ∧
      ((sharedTypes base ds).map unspaced = (separateTypes base ds).map unspaced ↔
        ∀ w ∈ base, isPointerMark w = false) := by
  match ds with
  | first :: second :: ds =>
    have hSame (h : ∀ w ∈ base, isPointerMark w = false) :
        sharedTypes base (first :: second :: ds) = separateTypes base (first :: second :: ds) := by
      have hAll : base.filter (!isPointerMark ·) = base := by
        refine List.filter_eq_self.mpr fun w hw => ?_
        rw [h w hw]
        rfl
      rw [sharedTypes, hAll]
      rfl
    have hOther (h : (sharedTypes base (first :: second :: ds)).map unspaced =
        (separateTypes base (first :: second :: ds)).map unspaced) :
        ∀ w ∈ base, isPointerMark w = false := by
      -- the second declarator tells: its spelling has the marks of the base or has them not
      have hSecond : unspaced (second.name.text,
          typeOf (base.filter (!isPointerMark ·) ++ second.stars)) =
          unspaced (second.name.text, typeOf (base ++ second.stars)) := by
        simp only [sharedTypes, separateTypes, List.map_cons, List.cons.injEq] at h
        exact h.2.1
      have hCount {c : Char} (hc : c ≠ ' ') {w : Word} (hw : w ∈ base) (hLost : isPointerMark w = true)
          (hText : 0 < w.text.toList.count c) : False := by
        have hSum := congrArg (fun p => p.2.count c) hSecond
        simp only [count_unspaced hc, List.map_append, List.sum_append] at hSum
        have hLess := sum_filter_lt (f := fun w => w.text.toList.count c) (p := (!isPointerMark ·)) hw
          (by simp [hLost]) hText
        omega
      intro w hw
      by_contra hMark
      rw [Bool.not_eq_false] at hMark
      have hText : w = mark "*" ∨ w = mark "&" := by simpa [isPointerMark] using hMark
      rcases hText with rfl | rfl
      · exact hCount (c := '*') (by decide) hw hMark (by decide)
      · exact hCount (c := '&') (by decide) hw hMark (by decide)
    exact ⟨⟨fun h => hOther (congrArg _ h), hSame⟩, ⟨hOther, fun h => congrArg _ (hSame h)⟩⟩

theorem separated_append_cons (front ws : List Word) (parts : List (List Word)) :
    separated ((front ++ ws) :: parts) = front ++ separated (ws :: parts) := by
  cases parts <;> simp [separated]

namespace DeclaratorSyntax

theorem plain (d : DeclaratorSyntax) : ∀ w ∈ d.words, w.text ∉ declarationTexts := by
  rw [words, List.forall_mem_append, List.forall_mem_singleton]
  refine ⟨fun w hw => ?_, (IsTypeWord.name d.name).text_notMem foreign_declarationTexts⟩
  rw [List.eq_of_mem_replicate hw]
  decide

theorem angled (d : DeclaratorSyntax) : Angled false d.words := by
  refine Angled.append (.of_plain fun w hw => ?_) (.plain d.name.plain .nil)
  rw [List.eq_of_mem_replicate hw]
  decide

theorem exists_of_words {d : DeclaratorSyntax} (front : List Word) {ts : List Token}
    (h : ts.map Token.word = front ++ d.words) :
    ∃ before name, ts = before ++ [name] ∧ before.map Token.word = front ++ d.stars ∧
      name.word = d.name.word := by
  rw [words, ← List.append_assoc] at h
  obtain ⟨before, last, rfl, hBefore, hLast⟩ := List.map_eq_append_iff.mp h
  obtain ⟨name, rfl, hName⟩ := List.map_eq_singleton_iff.mp hLast
  exact ⟨before, name, rfl, hBefore, hName⟩

end DeclaratorSyntax

theorem IsBase.whole_stars {base : List Word} (hBase : IsBase base) (d : DeclaratorSyntax) :
    (base ++ d.stars).getLast? ≠ some (mark "::") := by
  rw [List.getLast?_append]
  cases hStars : d.stars.getLast? with
  | none => exact hBase.whole
  | some w =>
    rw [List.eq_of_mem_replicate (List.mem_of_getLast? hStars)]
    exact fun hEq => absurd (Option.some.inj hEq) (by decide)

theorem plain_declarators (ds : List DeclaratorSyntax) :
    ∀ w ∈ separated (ds.map DeclaratorSyntax.words), w.text ∉ declarationTexts := by
  refine forall_mem_separated (by decide) fun ws hPart => ?_
  obtain ⟨d, -, rfl⟩ := List.mem_map.mp hPart
  exact d.plain

end Grammar

open Grammar

theorem Token.Bare.quiet {ts : List Token} (h : Bare ts) : Declaration.Quiet ts := by
  intro t ht hMem
  have hSub : ∀ text ∈ Declaration.stopTexts, text ∈ declarationTexts := by decide
  exact h t ht (hSub _ hMem)

section

variable {base : List Word} {d : DeclaratorSyntax} {ds : List DeclaratorSyntax} {head : List Token}

namespace Declarator

theorem withoutPointers_words {type : List Token}
    (hWords : type.map Token.word = base ++ d.stars) :
    (withoutPointers type).map Token.word = base.filter (!isPointerMark ·) := by
  have hMark : (fun t : Token => !(t.isPunctuation "*" || t.isPunctuation "&")) =
      (!isPointerMark ·) ∘ Token.word := by
    funext t
    rw [Function.comp_apply]
    congr 1
    rw [Bool.eq_iff_iff]
    simp [isPointerMark, Token.isPunctuation_iff]
  have hStars : d.stars.filter (!isPointerMark ·) = [] := by
    refine List.filter_eq_nil_iff.mpr fun w hw => ?_
    rw [List.eq_of_mem_replicate hw]
    decide
  rw [withoutPointers, hMark, ← List.filter_map, hWords, List.filter_append, hStars,
    List.append_nil]

theorem splitDeclarators_shared (hBase : IsBase base) (prepare : List Token → List Token)
    (hPrepare : ∀ (ts : List Token) (t : Token), Token.Bare (ts ++ [t]) →
      prepare (ts ++ [t]) = ts ++ [t])
    (hWords : head.map Token.word = base ++ separated ((d :: ds).map DeclaratorSyntax.words)) :
    splitDeclarators prepare head = sharedTypes base (d :: ds) := by
  rw [List.map_cons, ← separated_append_cons] at hWords
  have hAngled : ∀ ws ∈ (base ++ d.words) :: ds.map DeclaratorSyntax.words, Angled false ws := by
    refine List.forall_mem_cons.mpr ⟨hBase.angled.append d.angled, fun ws hPart => ?_⟩
    obtain ⟨e, -, rfl⟩ := List.mem_map.mp hPart
    exact e.angled
  obtain ⟨first, others, hSplit, hFirst, hOthers⟩ :=
    List.map_eq_cons_iff.mp (Token.splitAtCommas_separated hAngled (by simp) hWords)
  have hPlain : Token.Bare first :=
    .of_words hFirst (List.forall_mem_append.mpr ⟨hBase.plain, d.plain⟩)
  obtain ⟨type, name, rfl, hType, hName⟩ := DeclaratorSyntax.exists_of_words _ hFirst
  have hNames : ∃ u ∈ type, u.kind = .identifier ∧ u.text ∉ Words.qualifying := by
    obtain ⟨w, hw, hKind, hText⟩ := hBase.names
    obtain ⟨u, hu, rfl⟩ := List.mem_map.mp (hType ▸ List.mem_append_left d.stars hw)
    exact ⟨u, hu, hKind, hText⟩
  have hLast : type.getLast?.any (·.isPunctuation "::") = false := by
    cases hEnd : type.getLast? with
    | none => rfl
    | some t =>
      rw [Option.any_some, Bool.eq_false_iff]
      intro hMark
      apply hBase.whole_stars d
      rw [← hType, List.getLast?_map, hEnd, Option.map_some, Token.isPunctuation_iff.mp hMark]
  rw [splitDeclarators, hSplit]
  simp only [hPrepare type name hPlain, splitName?_named hName hNames hLast]
  rw [sharedTypes, ofTokens_eq_typeOf, hType]
  refine congrArg _ (TypeExpr.filterMap_eq_of_words hOthers fun e _ part hPart => ?_)
  obtain ⟨marks, name, rfl, hMarks, hName⟩ := DeclaratorSyntax.exists_of_words [] hPart
  have hKind : name.kind = .identifier := congrArg Word.kind hName
  have hText : name.text = e.name.text := congrArg Word.text hName
  rw [hPrepare marks name (.of_words hPart e.plain), splitExtraName?, List.reverse_append]
  simp [hKind, hText, ofTokens_eq_typeOf, withoutPointers_words hType, hMarks]

theorem stripArray_bare {ts : List Token} {t : Token} (h : Token.Bare (ts ++ [t])) :
    stripArray (ts ++ [t]) = ts ++ [t] :=
  stripArray_concat ts (h.isPunctuation (by simp) "]" (by decide))

theorem classify_shared (hBase : IsBase base)
    (hWords : head.map Token.word = base ++ separated ((d :: ds).map DeclaratorSyntax.words))
    (member : Member) :
    classify (clean head) (some member) =
      .fields ((sharedTypes base (d :: ds)).map fun (name, type) => ⟨name, type, member.access, false⟩) := by
  have hBare : Token.Bare head :=
    .of_words hWords (List.forall_mem_append.mpr ⟨hBase.plain, plain_declarators _⟩)
  have hParams : splitAtParams 0 [] head = none := by
    have hAngled : Angled true (base ++ separated ((d :: ds).map DeclaratorSyntax.words)) := by
      refine hBase.angled.weaken.append (.separated fun ws hPart => ?_)
      obtain ⟨e, -, rfl⟩ := List.mem_map.mp hPart
      exact e.angled
    have hPass := passesAngled_splitAtParams.pass hAngled hWords 0 (fun _ => .inl rfl) [] []
    rw [List.append_nil] at hPass
    rw [hPass, splitAtParams]
  have hFound := splitDeclarators_shared hBase (fun ts => stripArray (stripInitializer ts))
    (fun ts t h => by simp only [h.stripInitializer, stripArray_bare h]) hWords
  rw [hBare.clean, classify, hBare.any_isIdentifier "operator" (by decide), if_neg Bool.false_ne_true, hParams]
  simp only [readFields, hBare.any_isIdentifier "static" (by decide),
    hBare.withoutSpecifiers, hFound]
  rfl

end Declarator

namespace Declaration

theorem typedefNames_shared (hBase : IsBase base)
    (hWords : head.map Token.word = base ++ separated ((d :: ds).map DeclaratorSyntax.words)) :
    typedefNames head = sharedTypes base (d :: ds) := by
  have hBare : Token.Bare head :=
    .of_words hWords (List.forall_mem_append.mpr ⟨hBase.plain, plain_declarators _⟩)
  rw [typedefNames, Declarator.functionPointer?, hBare.readFunctionPointer?]
  exact Declarator.splitDeclarators_shared hBase _ (fun ts t h => Declarator.stripArray_bare h) hWords

theorem readDeclaration_shared (hBase : IsBase base)
    (hWords : head.map Token.word = base ++ separated ((d :: ds).map DeclaratorSyntax.words))
    {semicolon : Token} (hSemicolon : semicolon.word = mark ";") (member : Member) (rest : List Token) :
    readDeclaration (some member) (head ++ semicolon :: rest) =
      .ok ⟨.fields ((sharedTypes base (d :: ds)).map fun (name, type) =>
        ⟨name, type, member.access, false⟩), rest⟩ := by
  have hBare : Token.Bare head :=
    .of_words hWords (List.forall_mem_append.mpr ⟨hBase.plain, plain_declarators _⟩)
  have hSplit := splitDeclaration_quiet hBare.quiet (.inl hSemicolon) rest
  rw [readDeclaration_eq_ok_iff.mpr (.semicolon hSplit (Token.isPunctuation_iff.mpr hSemicolon)),
    Declarator.classify_shared hBase hWords member]

def addTypedefs (d : Declarations) (scope : Scope) (found : List (String × TypeExpr)) : Declarations :=
  found.foldl (fun d (name, type) => addTypedef d scope name type) d

theorem addTypedefs_append (d : Declarations) (scope : Scope) (found more : List (String × TypeExpr)) :
    addTypedefs d scope (found ++ more) = addTypedefs (addTypedefs d scope found) scope more :=
  List.foldl_append

theorem readTypedef_names {head rest : List Token} {semicolon : Token}
    (hSplit : splitDeclaration (head ++ semicolon :: rest) = .ok (head, semicolon :: rest))
    (hSemicolon : semicolon.word = mark ";") (readBody : BodyReader) (scope : Scope)
    (e : Declarations) :
    readTypedef readBody scope e (head ++ semicolon :: rest) =
      .ok ⟨addTypedefs e scope (typedefNames head), rest⟩ := by
  have hMark := Token.isPunctuation_of_word hSemicolon
  rw [readTypedef, hSplit]
  have hBrace : semicolon.isPunctuation "\x7b" = false := hMark "\x7b"
  have hDrop : dropSemicolon (semicolon :: rest) = rest := by
    rw [dropSemicolon, if_pos (by rw [hMark]; rfl)]
  cases head with
  | nil =>
    simp only [bind, Except.bind, hDrop]
    rfl
  | cons keyword inner =>
    simp only [bind, Except.bind, hDrop, hBrace, Bool.and_false, Bool.false_eq_true, if_false]
    rfl

end Declaration

end

namespace Declaration

/-- Whether reading tokens in a class adds fields with some names and types to it, and nothing else. -/
def AddsFields (ts : List Token) (found : List (String × TypeExpr)) : Prop :=
  ∃ taken, ∀ (steps : Nat) (scope : Scope) (name : String) (opener : Token) (access : Access)
    (members : Members) (d : Declarations) (rest : List Token), ∃ firstLine?,
    readMembers (steps + taken) scope name opener access members d (ts ++ rest) =
      readMembers steps scope name opener access
        ⟨members.methods,
          members.fields ++ found.map (fun (name, type) => ⟨name, type, access, false⟩), firstLine?⟩
        d rest

def AddsTypedefs (ts : List Token) (found : List (String × TypeExpr)) : Prop :=
  ∃ taken, ∀ (steps : Nat) (scope : Scope) (d : Declarations) (rest : List Token),
    (∀ opener?, readScope (steps + taken) scope opener? d (ts ++ rest) =
      readScope steps scope opener? (addTypedefs d scope found) rest) ∧
    ∀ (name : String) (opener : Token) (access : Access) (members : Members),
      readMembers (steps + taken) scope name opener access members d (ts ++ rest) =
        readMembers steps scope name opener access members (addTypedefs d scope found) rest

theorem AddsFields.nil : AddsFields [] [] := by
  refine ⟨0, fun steps scope name opener access members d rest => ⟨members.firstLine?, ?_⟩⟩
  simp

theorem AddsFields.append {ts us : List Token} {found more : List (String × TypeExpr)}
    (h : AddsFields ts found) (h' : AddsFields us more) : AddsFields (ts ++ us) (found ++ more) := by
  obtain ⟨taken, hFirst⟩ := h
  obtain ⟨taken', hRest⟩ := h'
  refine ⟨taken' + taken, fun steps scope name opener access members d rest => ?_⟩
  obtain ⟨line?, hStep⟩ := hFirst (steps + taken') scope name opener access members d (us ++ rest)
  obtain ⟨line?', hStep'⟩ := hRest steps scope name opener access _ d rest
  refine ⟨line?', ?_⟩
  rw [← Nat.add_assoc, List.append_assoc, hStep, hStep', List.map_append, List.append_assoc]

theorem AddsTypedefs.nil : AddsTypedefs [] [] :=
  ⟨0, fun _ _ _ _ => ⟨fun _ => rfl, fun _ _ _ _ => rfl⟩⟩

theorem AddsTypedefs.append {ts us : List Token} {found more : List (String × TypeExpr)}
    (h : AddsTypedefs ts found) (h' : AddsTypedefs us more) :
    AddsTypedefs (ts ++ us) (found ++ more) := by
  obtain ⟨taken, hFirst⟩ := h
  obtain ⟨taken', hRest⟩ := h'
  refine ⟨taken' + taken, fun steps scope d rest => ?_⟩
  obtain ⟨hScope, hMembers⟩ := hFirst (steps + taken') scope d (us ++ rest)
  obtain ⟨hScope', hMembers'⟩ := hRest steps scope (addTypedefs d scope found) rest
  refine ⟨fun opener? => ?_, fun name opener access members => ?_⟩
  · rw [← Nat.add_assoc, List.append_assoc, hScope, hScope', addTypedefs_append]
  · rw [← Nat.add_assoc, List.append_assoc, hMembers, hMembers', addTypedefs_append]

theorem AddsTypedefs.of_reads {keyword : Token} {ts : List Token} {found : List (String × TypeExpr)}
    (hKind : keyword.kind = .identifier) (hLabel : keyword.text ∉ Words.inheriting)
    (hItem : ∀ readInner scope d rest, readItem readInner scope d keyword (ts ++ rest) =
      .ok ⟨addTypedefs d scope found, rest⟩)
    (hMember : ∀ readBody scope member d rest, readMember readBody scope member d keyword (ts ++ rest) =
      .ok (.nothing, ⟨addTypedefs d scope found, rest⟩)) : AddsTypedefs (keyword :: ts) found :=
  ⟨1, fun _ scope d rest => ⟨fun opener? => readScope_step opener? hKind (hItem _ scope d rest),
    fun _ _ _ _ => readMembers_step hKind hLabel (hMember _ scope _ d rest)⟩⟩

theorem addsTypedefs_typedef {keyword semicolon : Token} {head : List Token}
    (hKeyword : keyword.word = word "typedef")
    (hSplit : ∀ rest, splitDeclaration (head ++ semicolon :: rest) = .ok (head, semicolon :: rest))
    (hSemicolon : semicolon.word = mark ";") :
    AddsTypedefs (keyword :: (head ++ [semicolon])) (typedefNames head) := by
  have hText : keyword.text = "typedef" := congrArg Word.text hKeyword
  have hRead (readBody : BodyReader) (scope : Scope) (d : Declarations) (rest : List Token) :
      readTypedef readBody scope d (head ++ [semicolon] ++ rest) =
        .ok ⟨addTypedefs d scope (typedefNames head), rest⟩ := by
    rw [List.append_assoc, List.singleton_append]
    exact readTypedef_names (hSplit rest) hSemicolon readBody scope d
  refine .of_reads (congrArg Word.kind hKeyword) (by rw [hText]; decide) ?_ ?_
  · intro readInner scope d rest
    have hForm : Form.typedef.Starts passedItems keyword.text := hText
    rw [readItem_eq (.of_starts hForm (by rw [hText]; decide)), ItemForm.read, Form.read, hRead]
    rfl
  · intro readBody scope member d rest
    have hForm : Form.typedef.Starts passedMembers keyword.text := hText
    rw [readMember_eq hForm, Form.read, hRead]
    rfl

variable {base : List Word} {ts : List Token}

theorem addsFields_shared (hBase : IsBase base) {ds : List DeclaratorSyntax} (hSome : ds ≠ [])
    (hWords : ts.map Token.word = sharedWords base ds) : AddsFields ts (sharedTypes base ds) := by
  obtain ⟨d, ds, rfl⟩ := List.exists_cons_of_ne_nil hSome
  rw [sharedWords, ← List.append_assoc] at hWords
  obtain ⟨head, last, rfl, hHead, hLast⟩ := List.map_eq_append_iff.mp hWords
  obtain ⟨semicolon, rfl, hSemicolon⟩ := List.map_eq_singleton_iff.mp hLast
  have hBare : Token.Bare head :=
    .of_words hHead (List.forall_mem_append.mpr ⟨hBase.plain, plain_declarators _⟩)
  refine ⟨1, fun steps scope name opener access members e rest => ?_⟩
  have hRead := readDeclaration_shared hBase hHead hSemicolon ⟨name, access⟩ rest
  obtain ⟨first, more, rfl⟩ : ∃ first more, head = first :: more := by
    refine List.exists_cons_of_ne_nil ?_
    rintro rfl
    obtain ⟨w, hw, -⟩ := hBase.names
    have hNil := List.append_eq_nil_iff.mp hHead.symm
    rw [hNil.1] at hw
    cases hw
  have hLabel : first.text ∉ Words.inheriting := fun hMem =>
    hBare first (by simp) (by simp [declarationTexts, hMem])
  have hLeading : first.text ∉ leadingWords := by
    have hSub : ∀ text ∈ leadingWords, text ∈ declarationTexts := by decide
    exact fun hMem => hBare first (by simp) (hSub _ hMem)
  have hMember : readMember (bodyReader steps) scope ⟨name, access⟩ e first _ = _ :=
    readMember_plain hLeading hRead
  refine ⟨members.firstLine? <|> some first.line, ?_⟩
  rw [List.append_assoc, List.singleton_append]
  exact readMembers_next (hBare.isPunctuation (by simp) _ (by decide))
    (hBare.isPunctuation (by simp) _ (by decide)) (accessLabel?_eq_none hLabel _) hMember

theorem addsTypedefs_shared (hBase : IsBase base) {ds : List DeclaratorSyntax} (hSome : ds ≠ [])
    (hWords : ts.map Token.word = word "typedef" :: sharedWords base ds) :
    AddsTypedefs ts (sharedTypes base ds) := by
  obtain ⟨d, ds, rfl⟩ := List.exists_cons_of_ne_nil hSome
  obtain ⟨keyword, ts, rfl, hKeyword, hWords⟩ := List.map_eq_cons_iff.mp hWords
  rw [sharedWords, ← List.append_assoc] at hWords
  obtain ⟨head, last, rfl, hHead, hLast⟩ := List.map_eq_append_iff.mp hWords
  obtain ⟨semicolon, rfl, hSemicolon⟩ := List.map_eq_singleton_iff.mp hLast
  have hBare : Token.Bare head :=
    .of_words hHead (List.forall_mem_append.mpr ⟨hBase.plain, plain_declarators _⟩)
  rw [← typedefNames_shared hBase hHead]
  exact addsTypedefs_typedef hKeyword (splitDeclaration_quiet hBare.quiet (.inl hSemicolon)) hSemicolon

theorem addsFields_separate (hBase : IsBase base) (ds : List DeclaratorSyntax)
    (hWords : ts.map Token.word = ds.flatMap fun d => sharedWords base [d]) :
    AddsFields ts (separateTypes base ds) := by
  induction ds generalizing ts with
  | nil =>
    obtain rfl := List.map_eq_nil_iff.mp hWords
    exact .nil
  | cons d ds ih =>
    obtain ⟨first, rest, rfl, hFirst, hRest⟩ := List.map_eq_append_iff.mp hWords
    exact (addsFields_shared hBase (by simp) hFirst).append (ih hRest)

theorem addsTypedefs_separate (hBase : IsBase base) (ds : List DeclaratorSyntax)
    (hWords : ts.map Token.word = ds.flatMap fun d => word "typedef" :: sharedWords base [d]) :
    AddsTypedefs ts (separateTypes base ds) := by
  induction ds generalizing ts with
  | nil =>
    obtain rfl := List.map_eq_nil_iff.mp hWords
    exact .nil
  | cons d ds ih =>
    obtain ⟨first, rest, rfl, hFirst, hRest⟩ := List.map_eq_append_iff.mp hWords
    exact (addsTypedefs_shared hBase (by simp) hFirst).append (ih hRest)

/-- Declarators that share a base declare what they would declare on their own, as fields and as type
names, just if the base has no pointer and no reference in it. -/
theorem shared_declarators_agree_iff (hBase : IsBase base) {ds : List DeclaratorSyntax}
    (hSome : 2 ≤ ds.length) :
    (∀ ts : List Token, ts.map Token.word = sharedWords base ds →
      AddsFields ts (sharedTypes base ds)) ∧
    (∀ ts : List Token, ts.map Token.word = ds.flatMap (fun d => sharedWords base [d]) →
      AddsFields ts (separateTypes base ds)) ∧
    (∀ ts : List Token, ts.map Token.word = word "typedef" :: sharedWords base ds →
      AddsTypedefs ts (sharedTypes base ds)) ∧
    (∀ ts : List Token,
      ts.map Token.word = ds.flatMap (fun d => word "typedef" :: sharedWords base [d]) →
      AddsTypedefs ts (separateTypes base ds)) ∧
    (sharedTypes base ds = separateTypes base ds ↔ ∀ w ∈ base, isPointerMark w = false) ∧
    ((sharedTypes base ds).map unspaced = (separateTypes base ds).map unspaced ↔
      ∀ w ∈ base, isPointerMark w = false) := by
  have hNonempty : ds ≠ [] := by
    rintro rfl
    cases hSome
  exact ⟨fun _ => addsFields_shared hBase hNonempty, fun _ => addsFields_separate hBase ds,
    fun _ => addsTypedefs_shared hBase hNonempty, fun _ => addsTypedefs_separate hBase ds,
    types_agree_iff base hSome⟩

theorem shared_declarators_of_applied :
    let base := (TypeSyntax.mk true
      (.applied ⟨⟨"V", by decide⟩, []⟩ [.mk false (.builtin ⟨"int", by decide⟩) 0 false]) 0 false).words
    let ds : List DeclaratorSyntax := [⟨2, ⟨"a", by decide⟩⟩, ⟨0, ⟨"b", by decide⟩⟩]
    IsBase base ∧ 2 ≤ ds.length ∧ (∀ w ∈ base, isPointerMark w = false) ∧
      ∀ ts : List Token, ts.map Token.word = sharedWords base ds →
        AddsFields ts (separateTypes base ds) := by
  intro base ds
  have hBase : IsBase base := isBase_of_syntax _ _
  have hPlain : ∀ w ∈ base, isPointerMark w = false := by decide
  obtain ⟨hShared, -, -, -, hAgree, -⟩ := shared_declarators_agree_iff hBase (by decide : 2 ≤ ds.length)
  exact ⟨hBase, by decide, hPlain, hAgree.mpr hPlain ▸ hShared⟩

/-- Of two type names for `V<int*>`, the second becomes one for `V<int>`. -/
theorem shared_argument_loses_pointer :
    let targets (text : String) : Option (List (String × String)) := do
      let ts ← (Token.lex 0 "t.cpp" text).toOption
      let d ← (read [] ts).toOption
      return d.typedefs.map fun t => (t.name, t.target.spelling)
    targets "typedef V<int*> a; typedef V<int*> b;" = some [("a", "V<int*>"), ("b", "V<int*>")] ∧
      targets "typedef V<int*> a, b;" = some [("a", "V<int*>"), ("b", "V<int>")] := by
  exact ⟨by decide +kernel, by decide +kernel⟩

end Declaration

end SkeletonWeave
