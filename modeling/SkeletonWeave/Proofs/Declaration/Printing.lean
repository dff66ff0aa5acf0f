import Mathlib.Data.List.TakeWhile
import SkeletonWeave.Proofs.Declaration.Types

/-!
# Declarations in print

All that a tree of declarations is printed with is tokens, so its words are
read again from the print.
-/

set_option autoImplicit false

namespace SkeletonWeave

namespace Grammar

theorem memberInduction {P : List MemberSyntax → Prop} (nil : P [])
    (label : ∀ access ms, P ms → P (.label access :: ms))
    (field : ∀ type name ms, P ms → P (.field type name :: ms))
    (method : ∀ m ms, P ms → P (.method m :: ms))
    (nested : ∀ head inner ms, P inner → P ms → P (.nested head inner :: ms)) :
    (ms : List MemberSyntax) → P ms
  | [] => nil
  | .label access :: ms => label access ms (memberInduction nil label field method nested ms)
  | .field type name :: ms => field type name ms (memberInduction nil label field method nested ms)
  | .method m :: ms => method m ms (memberInduction nil label field method nested ms)
  | .nested head inner :: ms =>
    nested head inner ms (memberInduction nil label field method nested inner)
      (memberInduction nil label field method nested ms)

theorem itemInduction {P : List ItemSyntax → Prop} (nil : P [])
    (space : ∀ name inner items, P inner → P items → P (.space name inner :: items))
    (definition : ∀ head members items, P items → P (.definition head members :: items)) :
    (items : List ItemSyntax) → P items
  | [] => nil
  | .space name inner :: items =>
    space name inner items (itemInduction nil space definition inner)
      (itemInduction nil space definition items)
  | .definition head members :: items =>
    definition head members items (itemInduction nil space definition items)

end Grammar

namespace Grammar

theorem Name.isToken (n : Name) : n.word.isToken = true := by
  have hName := n.isName
  unfold Grammar.isName at hName
  split at hName
  · cases hName
  · next c cs hText =>
    simp only [Bool.and_eq_true] at hName
    obtain ⟨⟨hStart, hParts⟩, -⟩ := hName
    have hOther {other : Char} (hNone : Lexeme.isNameStart other = false) : c ≠ other := by
      rintro rfl
      rw [hNone] at hStart
      cases hStart
    have hToken : Lexeme.StartsToken c cs := by
      refine ⟨hOther (by decide), ?_, ?_, ?_⟩
      · simp (disch := decide) [Lexeme.isBlankInLine, hOther]
      · exact fun hc => absurd hc (hOther (by decide))
      · exact fun hc => absurd hc (hOther (by decide))
    have hTake : cs.takeWhile Lexeme.isNamePart = cs :=
      List.takeWhile_eq_self_iff.mpr (List.all_eq_true.mp hParts)
    have hDrop : cs.dropWhile Lexeme.isNamePart = [] :=
      List.dropWhile_eq_nil_iff.mpr (List.all_eq_true.mp hParts)
    have hNext : Lexeme.next false c cs = .ok ⟨.plain .identifier, c :: cs⟩ := by
      rw [Lexeme.next_eq_token hToken false nofun, Lexeme.token, if_pos hStart, Lexeme.word, hTake,
        hDrop]
    unfold Word.isToken
    rw [show n.word.text.toList = c :: cs from hText]
    simp only [hNext, Except.toOption]
    exact beq_self_eq_true _

theorem IsTypeWord.isToken {w : Word} (h : IsTypeWord w) : w.isToken = true := by
  cases h with
  | const => decide
  | builtin hWord =>
    have hAll : ∀ text ∈ Words.builtin, (word text).isToken = true := by decide
    exact hAll _ hWord
  | name n => exact n.isToken
  | mark hWord =>
    have hAll : ∀ text ∈ typeMarks, (Grammar.mark text).isToken = true := by decide
    exact hAll _ hWord

theorem isToken_accessWord (access : Access) : (accessWord access).isToken = true := by
  cases access <;> decide

theorem TypeSyntax.isToken (t : TypeSyntax) : ∀ w ∈ t.words, w.isToken = true :=
  fun w hMem => (t.isTypeWord w hMem).isToken

theorem ParamSyntax.isToken (p : ParamSyntax) : ∀ w ∈ p.words, w.isToken = true := by
  simp only [ParamSyntax.words, List.forall_mem_append, List.forall_mem_singleton]
  exact ⟨p.type.isToken, p.name.isToken⟩

theorem MethodSyntax.isToken (m : MethodSyntax) : ∀ w ∈ m.words, w.isToken = true := by
  have hParams : ∀ w ∈ separated (m.params.map ParamSyntax.words), w.isToken = true := by
    refine forall_mem_separated (by decide) ?_
    intro ws hPart
    obtain ⟨p, -, rfl⟩ := List.mem_map.mp hPart
    exact p.isToken
  have hEnd : ∀ w ∈ (m.body?.map BodySyntax.braced).getD [mark ";"], w.isToken = true := by
    cases m.body? with
    | none => decide
    | some body =>
      simp only [Option.map_some, Option.getD_some, BodySyntax.braced, List.forall_mem_cons,
        List.forall_mem_append]
      exact ⟨by decide, body.areTokens, by decide⟩
  simp only [MethodSyntax.words, List.forall_mem_append, List.forall_mem_cons]
  exact ⟨m.result.isToken, m.name.isToken, by decide, hParams, by decide, hEnd⟩

theorem ClassHead.isToken (h : ClassHead) : ∀ w ∈ h.words, w.isToken = true := by
  refine h.forall_mem_words (fun w hWord => hWord.isToken) ?_ isToken_accessWord (by decide)
  cases h.kind <;> decide

theorem isToken_memberWords (ms : List MemberSyntax) : ∀ w ∈ memberWords ms, w.isToken = true := by
  induction ms using memberInduction with
  | nil => exact fun w hMem => absurd hMem List.not_mem_nil
  | label access ms ih =>
    simp only [memberWords, MemberSyntax.words, List.forall_mem_append, List.forall_mem_cons]
    exact ⟨⟨isToken_accessWord access, by decide, by decide⟩, ih⟩
  | field type name ms ih =>
    simp only [memberWords, MemberSyntax.words, List.forall_mem_append, List.forall_mem_cons]
    exact ⟨⟨type.isToken, name.isToken, by decide, by decide⟩, ih⟩
  | method m ms ih =>
    simp only [memberWords, MemberSyntax.words, List.forall_mem_append]
    exact ⟨m.isToken, ih⟩
  | nested head inner ms ihInner ih =>
    simp only [memberWords, MemberSyntax.words, List.forall_mem_append, List.forall_mem_cons]
    exact ⟨⟨head.isToken, by decide, ihInner, by decide, by decide, by decide⟩, ih⟩

theorem isToken_itemWords (items : List ItemSyntax) : ∀ w ∈ itemWords items, w.isToken = true := by
  induction items using itemInduction with
  | nil => exact fun w hMem => absurd hMem List.not_mem_nil
  | space name inner items ihInner ih =>
    simp only [itemWords, ItemSyntax.words, List.forall_mem_append, List.forall_mem_cons]
    exact ⟨⟨by decide, name.isToken, by decide, ihInner, by decide, by decide⟩, ih⟩
  | definition head members items ih =>
    simp only [itemWords, ItemSyntax.words, List.forall_mem_append, List.forall_mem_cons]
    exact ⟨⟨head.isToken, by decide, isToken_memberWords members, by decide, by decide, by decide⟩,
      ih⟩

def print (items : List ItemSyntax) : String :=
  Word.print (itemWords items)

theorem exists_lex_print (items : List ItemSyntax) (file : Nat) (name : String) :
    ∃ ts, Token.lex file name (print items) = .ok ts ∧ ts.map Token.word = itemWords items := by
  apply Word.exists_lex_print (isToken_itemWords items)
  intro w hFirst
  cases items with
  | nil => cases hFirst
  | cons item items =>
    cases item with
    | space name inner =>
      cases hFirst
      decide
    | definition head members =>
      cases hFirst
      cases head.kind <;> decide

example :
    let element : Path := ⟨⟨"N", by decide⟩, [⟨"E", by decide⟩]⟩
    let list : TypeSyntax :=
      .mk true (.applied ⟨⟨"List", by decide⟩, []⟩ [.mk false (.named element) 1 false]) 0 true
    let body : BodySyntax := ⟨[mark "\x7b", mark "\x7d"], by decide, by decide⟩
    print [.space ⟨"N", by decide⟩ [.definition ⟨.isClass, ⟨"C", by decide⟩, [(.isPublic, element)]⟩
      [.label .isPublic, .method ⟨.mk false (.builtin ⟨"int", by decide⟩) 0 false, ⟨"f", by decide⟩,
        [⟨list, ⟨"es", by decide⟩⟩], some body⟩]]] =
      "namespace N \x7b class C : public N :: E \x7b public : " ++
        "int f ( const List < N :: E * > & es ) \x7b \x7b \x7d \x7d \x7d ; \x7d" := by
  decide +kernel

end Grammar

end SkeletonWeave
