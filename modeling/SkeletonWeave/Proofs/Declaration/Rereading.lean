import Mathlib.Data.List.Forall2
import SkeletonWeave.Proofs.Declaration.Definition
import SkeletonWeave.Proofs.Declaration.Rewriting

/-!
# Reading rewritten tokens

Rewritten tokens declare what they declared: the same classes under the same
names, and in the class of the keyword the same methods. Each reader is followed
over both streams; what a reader takes holds a place of the rewriting only if
the class of the keyword, or the method of the body, is among what it declares.
-/

set_option autoImplicit false

namespace SkeletonWeave

open Declarator (Declared Member)
open Token (Alike Nested IsStub unplaced isPunctuation_of_alike)

def Class.StartsAt (c : Class) (t : Token) : Prop :=
  c.span.file = t.span.file ∧ c.span.start = t.span.start

def Token.Apart (t u : Token) : Prop :=
  ¬(t.span.file = u.span.file ∧ t.span.start = u.span.start)

theorem Token.Apart.symm {t u : Token} (h : t.Apart u) : u.Apart t :=
  fun hSame => h ⟨hSame.1.symm, hSame.2.symm⟩

theorem Token.Apart.span_ne {t u : Token} (h : t.Apart u) : t.span ≠ u.span :=
  fun hSame => h ⟨by rw [hSame], by rw [hSame]⟩

def Token.Distinct (ts : List Token) : Prop :=
  ts.Pairwise Token.Apart

namespace Token.Distinct

variable {ts us : List Token}

theorem part (h : Distinct ts) (hPart : us.Sublist ts) : Distinct us :=
  List.Pairwise.sublist hPart h

theorem apart (h : Distinct (ts ++ us)) : ∀ t ∈ ts, ∀ u ∈ us, t.Apart u :=
  (List.pairwise_append.mp h).2.2

end Token.Distinct

/-- Whether a class of rewritten tokens is the one it was: it keeps its name, and the class of the
keyword keeps its methods. -/
structure Class.Matches (w : Rewrite) (c c' : Class) : Prop where
  name : c.name = c'.name
  qualifiedName : c.qualifiedName = c'.qualifiedName
  file : c.span.file = c'.span.file
  methods : c.StartsAt w.keyword → c.methods.map Method.signature = c'.methods.map Method.signature

def Declarations.Matches (w : Rewrite) (d d' : Declarations) : Prop :=
  List.Forall₂ (Class.Matches w) d.classes d'.classes

def Declarator.Declared.methods : Declared → List Method
  | .method m => [m]
  | _ => []

/-- Whether the places of a rewriting among some tokens belong to given classes and methods. -/
structure Rewrite.Covered (w : Rewrite) (taken : List Token) (cs : List Class) (ms : List Method) :
    Prop where
  keyword : w.keyword ∈ taken → ∃ c ∈ cs, c.StartsAt w.keyword
  bodies : ∀ b ∈ w.bodies, ∀ t ∈ taken, t.span = b.opening → ∃ m ∈ ms, m.body? = some b

namespace Rewrite.Covered

variable {w : Rewrite} {taken part other : List Token} {cs cs' : List Class} {ms ms' : List Method}

theorem restrict (h : w.Covered taken cs ms) (hPart : part ⊆ taken)
    (hApart : ∀ t ∈ part, ∀ u ∈ other, t.Apart u)
    (hClasses : ∀ c ∈ cs, c ∈ cs' ∨ ∃ u ∈ other, c.StartsAt u)
    (hMethods : ∀ m ∈ ms, m ∈ ms' ∨ ∀ b, m.body? = some b → ∃ u ∈ other, u.span = b.opening) :
    w.Covered part cs' ms' where
  keyword := by
    intro hMem
    obtain ⟨c, hc, hStarts⟩ := h.keyword (hPart hMem)
    rcases hClasses c hc with hc | ⟨u, hu, hElse⟩
    · exact ⟨c, hc, hStarts⟩
    · refine absurd ?_ (hApart _ hMem u hu)
      exact ⟨hStarts.1.symm.trans hElse.1, hStarts.2.symm.trans hElse.2⟩
  bodies := by
    intro b hb t ht hOpening
    obtain ⟨m, hm, hBody⟩ := h.bodies b hb t (hPart ht) hOpening
    rcases hMethods m hm with hm | hElse
    · exact ⟨m, hm, hBody⟩
    · obtain ⟨u, hu, hSpan⟩ := hElse b hBody
      exact absurd (hOpening.trans hSpan.symm) (hApart t ht u hu).span_ne

theorem subset (h : w.Covered taken cs ms) (hPart : part ⊆ taken) : w.Covered part cs ms where
  keyword := fun hMem => h.keyword (hPart hMem)
  bodies := fun b hb t ht => h.bodies b hb t (hPart ht)

theorem mono (h : w.Covered taken cs ms) (hMethods : ∀ m ∈ ms, m ∈ ms') : w.Covered taken cs ms' where
  keyword := h.keyword
  bodies := by
    intro b hb t ht hOpening
    obtain ⟨m, hm, hBody⟩ := h.bodies b hb t ht hOpening
    exact ⟨m, hMethods m hm, hBody⟩

theorem spares (h : w.Covered taken [] ms)
    (hBodies : ∀ m ∈ ms, ∀ b ∈ w.bodies, m.body? = some b → ∀ t ∈ taken, t.span ≠ b.opening) :
    w.Spares taken := by
  intro t ht
  refine ⟨?_, ?_⟩
  · rintro rfl
    obtain ⟨c, hc, -⟩ := h.keyword ht
    cases hc
  · intro b hb hOpening
    obtain ⟨m, hm, hBody⟩ := h.bodies b hb t ht hOpening
    exact hBodies m hm b hb hBody t ht hOpening

theorem spares_of_nil (h : w.Covered taken [] []) : w.Spares taken :=
  h.spares (by simp)

end Rewrite.Covered

namespace Declaration

variable {w : Rewrite} {Added : List Token → Prop}

theorem withBody_unplaced (opening closing : Token) (declared : Declared) :
    (withBody opening closing declared).unplaced = declared.unplaced := by
  cases declared with
  | method m => rfl
  | nothing => rfl
  | fields fs => rfl

theorem classify_alike {head head' : List Token} (h : Alike head head') (member? : Option Member) :
    (Declarator.classify (Declarator.clean head) member?).unplaced =
      (Declarator.classify (Declarator.clean head') member?).unplaced := by
  rw [← Declarator.classify_unplaced, ← Declarator.clean_unplaced, h, Declarator.clean_unplaced,
    Declarator.classify_unplaced]

theorem eq_of_span_eq {inside inside' after after' : List Token} {close close' : Token}
    (h : inside' ++ close' :: after' = inside ++ close :: after) (hSpan : close'.span = close.span)
    (hDistinct : Token.Distinct (inside ++ close :: after)) :
    inside' = inside ∧ close' = close ∧ after' = after := by
  induction inside generalizing inside' with
  | nil =>
    cases inside' with
    | nil =>
      obtain ⟨rfl, rfl⟩ := List.cons.inj h
      exact ⟨rfl, rfl, rfl⟩
    | cons t inside' =>
      obtain ⟨rfl, rfl⟩ := List.cons.inj h
      have hApart := List.rel_of_pairwise_cons hDistinct (List.mem_append_right _ List.mem_cons_self)
      exact absurd hSpan.symm (Token.Apart.span_ne hApart)
  | cons t inside ih =>
    cases inside' with
    | nil =>
      obtain ⟨rfl, rfl⟩ := List.cons.inj h
      have hApart := List.rel_of_pairwise_cons hDistinct (List.mem_append_right _ List.mem_cons_self)
      exact absurd hSpan (Token.Apart.span_ne hApart)
    | cons t' inside' =>
      obtain ⟨rfl, hRest⟩ := List.cons.inj h
      obtain ⟨rfl, rfl, rfl⟩ := ih hRest hDistinct.tail
      exact ⟨rfl, rfl, rfl⟩

theorem withBody_methods {opening closing : Token} {declared : Declared} {m : Method}
    (h : m ∈ (withBody opening closing declared).methods) :
    m.body? = some ⟨opening.span, closing.span⟩ := by
  cases declared with
  | method own =>
    rw [withBody, Declared.methods, List.mem_singleton] at h
    rw [h]
  | nothing => cases h
  | fields fs => cases h

theorem classify_methods {head : List Token} {member? : Option Member} {m : Method}
    (h : m ∈ (Declarator.classify head member?).methods) : m.body? = none := by
  have hBraces := Declarator.classify_braces head member?
  cases hDeclared : Declarator.classify head member? with
  | method own =>
    rw [hDeclared] at h hBraces
    rw [Declared.methods, List.mem_singleton] at h
    rw [Declared.braces, Method.braces] at hBraces
    rw [h]
    cases hBody : own.body? with
    | none => rfl
    | some body =>
      rw [hBody] at hBraces
      cases hBraces
  | nothing =>
    rw [hDeclared] at h
    cases h
  | fields fs =>
    rw [hDeclared] at h
    cases h

/-- The head of a function or of variables is no place of a rewriting: a body follows it. -/
theorem readDeclaration_spares {member? : Option Member} {ts taken head rest : List Token}
    {item : Item} (h : readDeclaration member? ts = .ok item) (hTaken : ts = taken ++ item.rest)
    (hCovered : w.Covered taken [] item.declared.methods) (hDistinct : Token.Distinct ts)
    (hSplit : splitDeclaration ts = .ok (head, rest)) : w.Spares head := by
  have hBodies : ∀ m ∈ item.declared.methods, ∀ b, m.body? = some b →
      ∃ u ∈ rest, u.span = b.opening := by
    intro m hm b hBody
    cases readDeclaration_eq_ok_iff.mp h with
    | file _ => cases hm
    | scope _ _ => cases hm
    | semicolon _ _ =>
      rw [classify_methods hm] at hBody
      cases hBody
    | @body opener _ _ _ _ _ hSplit' _ _ =>
      cases hSplit.symm.trans hSplit'
      rw [withBody_methods hm] at hBody
      rw [← Option.some.inj hBody]
      exact ⟨opener, List.mem_cons_self, rfl⟩
  obtain ⟨_, _, hSplit', hLeft⟩ := exists_leftOver_of_read h
  cases hSplit.symm.trans hSplit'
  have hHead : head <+: taken := hLeft.head_prefix hSplit hTaken
  obtain rfl := splitDeclaration_eq_ok hSplit
  have hPart : w.Covered head [] [] :=
    hCovered.restrict hHead.subset hDistinct.apart (by simp) fun m hm => .inr (hBodies m hm)
  exact hPart.spares_of_nil

/-- A body ends where it did. It is rewritten as a whole, or no place of the rewriting stands in
it. -/
theorem closeBody_rewritten {opener close : Token} {inside later us : List Token}
    (hGroup : closeGroup opener (inside ++ close :: later) = .ok (inside, close, later))
    (hDistinct : Token.Distinct (inside ++ close :: later))
    (hKeyword : w.keyword ∉ opener :: (inside ++ [close]))
    (hBodies : ∀ b ∈ w.bodies, ∀ t ∈ opener :: (inside ++ [close]), t.span = b.opening →
      b = ⟨opener.span, close.span⟩)
    (hTokens : Rewritten w Nested Added (opener :: (inside ++ close :: later)) us) :
    ∃ opener' after' inside' close' later', us = opener' :: after' ∧
      opener.unplaced = opener'.unplaced ∧
      closeGroup opener' after' = .ok (inside', close', later') ∧
      Rewritten w Nested Added later later' := by
  by_cases hMarked : ∃ b ∈ w.bodies, opener.span = b.opening
  · obtain ⟨b, hb, hOpening⟩ := hMarked
    generalize hWhole : opener :: (inside ++ close :: later) = whole at hTokens
    cases hTokens with
    | nil => cases hWhole
    | keep _ hNot =>
      obtain ⟨rfl, -⟩ := List.cons.inj hWhole
      exact absurd hOpening (hNot b hb)
    | insert =>
      obtain ⟨rfl, -⟩ := List.cons.inj hWhole
      exact absurd List.mem_cons_self hKeyword
    | @body b' _ closing opening' closing' _ inside' after after' hb' hOpening' hClosing hOpen hCloseMark
        hToken hCloseAlike hNested hAfter =>
      obtain ⟨rfl, hTail⟩ := List.cons.inj hWhole
      rw [hBodies b' hb' opener List.mem_cons_self hOpening'] at hClosing
      obtain ⟨rfl, rfl, rfl⟩ := eq_of_span_eq hTail.symm hClosing hDistinct
      refine ⟨opening', _, inside', closing', after', rfl, hToken, ?_, hAfter⟩
      apply closeGroup_nested hNested
      · rw [isPunctuation_of_alike hToken, hOpen]
      · rw [isPunctuation_of_alike hCloseAlike, hCloseMark]
  · have hAll : w.Spares (opener :: (inside ++ [close])) := by
      intro t ht
      refine ⟨fun hSame => hKeyword (hSame ▸ ht), fun b hb hOpening => hMarked ⟨b, hb, ?_⟩⟩
      rw [hBodies b hb t ht hOpening]
    obtain ⟨opener', after', rfl, hToken, hAfter⟩ := hTokens.exists_cons (hAll.part (by simp))
    obtain ⟨inside', close', later', -, -, -, hLater, hGroup'⟩ :=
      closeGroup_rewritten hToken hGroup (hAll.part (List.subset_cons_self opener _)) hAfter
    exact ⟨opener', after', inside', close', later', rfl, hToken, hGroup', hLater⟩

theorem readDeclaration_rewritten (hAdded : ∀ added, Added added → IsStub added)
    {member? : Option Member} {ts us taken : List Token} {item : Item}
    (h : readDeclaration member? ts = .ok item) (hTaken : ts = taken ++ item.rest)
    (hCovered : w.Covered taken [] item.declared.methods) (hDistinct : Token.Distinct ts)
    (hTokens : Rewritten w Nested Added ts us) :
    ∃ item', readDeclaration member? us = .ok item' ∧ Rewritten w Nested Added item.rest item'.rest ∧
      item.declared.unplaced = item'.declared.unplaced := by
  have hFollow {head rest : List Token} (hSplit : splitDeclaration ts = .ok (head, rest)) :
      ∃ head' rest', us = head' ++ rest' ∧ Alike head head' ∧ Rewritten w Nested Added rest rest' ∧
        splitDeclaration us = .ok (head', rest') :=
    splitDeclaration_rewritten hSplit (readDeclaration_spares h hTaken hCovered hDistinct hSplit)
      hTokens
  have hOwn {head rest own : List Token} (hSplit : splitDeclaration ts = .ok (head, rest))
      (hRest : rest = own ++ item.rest) : own ⊆ taken := by
    rw [splitDeclaration_eq_ok hSplit, hRest, ← List.append_assoc] at hTaken
    rw [← List.append_cancel_right hTaken]
    exact List.subset_append_right head own
  cases readDeclaration_eq_ok_iff.mp h with
  | file hSplit =>
    obtain ⟨head', rest', -, -, hRest, hSplit'⟩ := hFollow hSplit
    rw [hRest.eq_nil] at hSplit'
    exact ⟨_, readDeclaration_eq_ok_iff.mpr (.file hSplit'), .nil, rfl⟩
  | scope hSplit hClose =>
    obtain ⟨head', rest', -, -, hRest, hSplit'⟩ := hFollow hSplit
    obtain ⟨t', after', rfl, hMark⟩ := hRest.isPunctuation_head hAdded "\x7d" (by simp)
    exact ⟨_, readDeclaration_eq_ok_iff.mpr (.scope hSplit' (hMark.trans hClose)), hRest, rfl⟩
  | @semicolon t _ _ hSplit hSemicolon =>
    obtain ⟨head', rest', -, hHead, hRest, hSplit'⟩ := hFollow hSplit
    have hSpares : w.Spares taken := by
      refine hCovered.spares fun m hm b _ hBody => ?_
      rw [classify_methods hm] at hBody
      cases hBody
    obtain ⟨t', after', rfl, hToken, hAfter⟩ :=
      hRest.exists_cons (hSpares.part (@hOwn _ _ [t] hSplit rfl))
    have hMark := (isPunctuation_of_alike hToken ";").trans hSemicolon
    exact ⟨_, readDeclaration_eq_ok_iff.mpr (.semicolon hSplit' hMark), hAfter,
      classify_alike hHead member?⟩
  | @body opener close head _ inside later hSplit hOpen hGroup =>
    obtain ⟨head', rest', -, hHead, hRest, hSplit'⟩ := hFollow hSplit
    obtain rfl := closeGroup_eq_ok hGroup
    have hPart : opener :: (inside ++ [close]) ⊆ taken := by
      obtain ⟨semis, hSemis⟩ := dropSemicolon_suffix later
      have hTail := @hOwn _ _ (opener :: (inside ++ close :: semis)) hSplit (by simp [hSemis])
      exact List.Subset.trans (List.IsPrefix.subset ⟨semis, by simp⟩) hTail
    have hKeyword : w.keyword ∉ taken := by
      intro hMem
      obtain ⟨c, hc, -⟩ := hCovered.keyword hMem
      cases hc
    -- a body that is rewritten is the one of the method that is declared
    have hBodies : ∀ b ∈ w.bodies, ∀ t ∈ taken, t.span = b.opening → b = ⟨opener.span, close.span⟩ := by
      intro b hb t ht hOpening
      obtain ⟨m, hm, hBody⟩ := hCovered.bodies b hb t ht hOpening
      rw [withBody_methods hm] at hBody
      exact (Option.some.inj hBody).symm
    have hAfter : Token.Distinct (opener :: (inside ++ close :: later)) :=
      hDistinct.part (splitDeclaration_eq_ok hSplit ▸ List.sublist_append_right head _)
    obtain ⟨opener', after', inside', close', later', rfl, hToken, hGroup', hLater⟩ :=
      closeBody_rewritten hGroup hAfter.tail (fun hMem => hKeyword (hPart hMem))
        (fun b hb t ht => hBodies b hb t (hPart ht)) hRest
    have hMark := (isPunctuation_of_alike hToken "\x7b").trans hOpen
    refine ⟨_, readDeclaration_eq_ok_iff.mpr (.body hSplit' hMark hGroup'),
      hLater.dropSemicolon hAdded, ?_⟩
    rw [withBody_unplaced, withBody_unplaced, classify_alike hHead]

end Declaration

end SkeletonWeave
