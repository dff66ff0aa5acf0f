import SkeletonWeave.Proofs.Declaration.Definition
import SkeletonWeave.Proofs.Token.Place

/-!
# Where classes and methods lie

What a class keeps of its tokens lies in the order of the tokens: its keyword,
then of each method with a body the name and the two braces, and its closing
brace. The braces of a body are partners, bodies follow one another, and of two
classes one lies inside the other unless they are apart.
-/

set_option autoImplicit false

namespace SkeletonWeave

open Declarator (Declared Member)

def Source.Span.Inside (s t : Source.Span) : Prop :=
  s.file = t.file ∧ t.start < s.start ∧ s.stop < t.stop

namespace Token

/-- Whether each curly brace among the tokens has its partner there. Other brackets do not count. -/
inductive Matched : List Token → Prop
  | nil : Matched []
  | pass {t : Token} {ts : List Token} : t.isPunctuation "\x7b" = false →
    t.isPunctuation "\x7d" = false → Matched ts → Matched (t :: ts)
  | group {opening closing : Token} {inside rest : List Token} :
    opening.isPunctuation "\x7b" = true → closing.isPunctuation "\x7d" = true →
    Matched inside → Matched rest → Matched (opening :: (inside ++ closing :: rest))

def Partners (ts : List Token) (opening closing : Token) : Prop :=
  opening.isPunctuation "\x7b" = true ∧ closing.isPunctuation "\x7d" = true ∧
    ∃ before inside after, ts = before ++ opening :: (inside ++ closing :: after) ∧ Matched inside

theorem Partners.mono {ts us : List Token} {opening closing : Token}
    (h : Partners ts opening closing) (hInfix : ts <:+: us) : Partners us opening closing := by
  obtain ⟨hOpen, hClose, before, inside, after, rfl, hInside⟩ := h
  obtain ⟨first, last, rfl⟩ := hInfix
  exact ⟨hOpen, hClose, first ++ before, inside, after ++ last, by simp, hInside⟩

theorem Matched.append {ts us : List Token} (h : Matched ts) (h' : Matched us) :
    Matched (ts ++ us) := by
  induction h with
  | nil => exact h'
  | pass hOpens hCloses _ ih => exact .pass hOpens hCloses ih
  | group hOpen hClose hInside _ _ ih =>
    rw [List.cons_append, List.append_assoc, List.cons_append]
    exact .group hOpen hClose hInside ih

/-- Whether the tokens close so many braces more than they open, each after all that were opened
since the one before. -/
inductive Closing : Nat → List Token → Prop
  | done {ts : List Token} : Matched ts → Closing 0 ts
  | close {depth : Nat} {closing : Token} {ts us : List Token} : Matched ts →
    closing.isPunctuation "\x7d" = true → Closing depth us →
    Closing (depth + 1) (ts ++ closing :: us)

theorem Closing.before {depth : Nat} {ts us : List Token} (h : Matched ts) (h' : Closing depth us) :
    Closing depth (ts ++ us) := by
  cases h' with
  | done hRest => exact .done (h.append hRest)
  | close hFirst hClose hRest =>
    rw [← List.append_assoc]
    exact .close (h.append hFirst) hClose hRest

theorem closing_of_closeGroupFrom? {depth : Nat} {passed ts group rest : List Token} {close : Token}
    (h : closeGroupFrom? "\x7b" depth passed ts = some (group, close, rest)) :
    ∃ inside, ts = inside ++ close :: rest ∧ Closing depth inside := by
  fun_induction closeGroupFrom? "\x7b" depth passed ts with
  | case1 => cases h
  | case2 depth passed t ts hOpen ih =>
    obtain ⟨inside, rfl, hInside⟩ := ih h
    cases hInside with
    | @close _ closing first more hFirst hClose hMore =>
      have hGroup : Matched (t :: (first ++ closing :: [])) := .group hOpen hClose hFirst .nil
      exact ⟨t :: (first ++ closing :: more), by simp, by simpa using hMore.before hGroup⟩
  | case3 passed t ts _ _ =>
    cases h
    exact ⟨[], rfl, .done .nil⟩
  | case4 passed t ts _ hClose depth ih =>
    obtain ⟨inside, rfl, hInside⟩ := ih h
    exact ⟨t :: inside, rfl, .close .nil hClose hInside⟩
  | case5 depth passed t ts hOpen hClose ih =>
    obtain ⟨inside, rfl, hInside⟩ := ih h
    rw [Bool.not_eq_true] at hOpen hClose
    exact ⟨t :: inside, rfl, hInside.before (.pass hOpen hClose .nil)⟩

theorem matched_of_closeGroup? {ts inside rest : List Token} {close : Token}
    (h : closeGroup? "\x7b" ts = some (inside, close, rest)) : Matched inside := by
  obtain ⟨_, rfl, hCut⟩ := closeGroupFrom?_eq_some h
  obtain ⟨inside', hCut', hClosing⟩ := closing_of_closeGroupFrom? h
  rw [hCut'] at hCut
  obtain rfl := List.append_cancel_right hCut
  cases hClosing with
  | done hMatched => simpa using hMatched

/-- Whether the tokens cover some bytes each, one after the other, of one file. -/
structure InOrder (file : Nat) (ts : List Token) : Prop where
  own : ∀ t ∈ ts, t.span.file = file
  start_lt_stop : ∀ t ∈ ts, t.span.start < t.span.stop
  pairwise : ts.Pairwise fun t u => t.span.stop ≤ u.span.start

theorem inOrder_of_lex {file : Source.File} {ts : List Token}
    (hLex : lex file.id file.path file.text = .ok ts) : InOrder file.id ts where
  own := file_of_lex hLex
  start_lt_stop := fun t ht => (stands_of_lex hLex t ht).start_lt_stop
  pairwise := pairwise_of_lex hLex

namespace InOrder

variable {file : Nat} {ts us : List Token} {first last t u : Token}

theorem sublist (h : InOrder file ts) (hPart : us.Sublist ts) : InOrder file us where
  own := fun t ht => h.own t (hPart.subset ht)
  start_lt_stop := fun t ht => h.start_lt_stop t (hPart.subset ht)
  pairwise := h.pairwise.sublist hPart

theorem stop_le_start (h : InOrder file (ts ++ us)) (ht : t ∈ ts) (hu : u ∈ us) :
    t.span.stop ≤ u.span.start :=
  (List.pairwise_append.mp h.pairwise).2.2 t ht u hu

theorem inner (h : InOrder file (first :: (ts ++ [last]))) : InOrder file ts :=
  h.sublist ((List.sublist_append_left ts [last]).cons first)

theorem between (h : InOrder file (first :: (ts ++ [last]))) (ht : t ∈ ts) :
    first.span.start < t.span.start ∧ t.span.stop < last.span.stop := by
  have hFirst := List.rel_of_pairwise_cons h.pairwise (List.mem_append_left [last] ht)
  have hRest := h.sublist (List.sublist_cons_self first _)
  have hLast := hRest.stop_le_start ht (List.mem_singleton_self last)
  have hWidth := h.start_lt_stop first (by simp)
  have hWidth' := h.start_lt_stop last (by simp)
  omega

end InOrder

end Token

open Token (InOrder Matched Partners)

/-- Whether the name of a method and the braces around its body lie in a class, one after the
other. -/
structure Class.Encloses (c : Class) (m : Method) (body : Source.Body) : Prop where
  own : m.nameSpan.file = c.span.file ∧ body.opening.file = c.span.file ∧
    body.closing.file = c.span.file
  start_le_name : c.span.start ≤ m.nameSpan.start
  name : m.nameSpan.start < m.nameSpan.stop
  name_le_opening : m.nameSpan.stop ≤ body.opening.start
  opening : body.opening.start < body.opening.stop
  opening_le_closing : body.opening.stop ≤ body.closing.start
  closing : body.closing.start < body.closing.stop
  closing_le_stop : body.closing.stop ≤ c.span.stop

/-- Whether the bodies of a class lie in it between braces that are partners, in the order of the
methods. -/
structure Class.Bodied (c : Class) (ts : List Token) : Prop where
  encloses : ∀ m ∈ c.methods, ∀ body, m.body? = some body → c.Encloses m body
  partners : ∀ m ∈ c.methods, ∀ body, m.body? = some body →
    ∃ opening closing, Partners ts opening closing ∧ body = ⟨opening.span, closing.span⟩
  increasing : (c.methods.filterMap (·.body?)).Pairwise fun a b => a.closing.stop ≤ b.opening.start

theorem Method.TakenFrom.partners {m : Method} {head inside : List Token} {opening closing : Token}
    (h : m.TakenFrom head opening inside closing) :
    Partners (head ++ opening :: (inside ++ [closing])) opening closing := by
  obtain ⟨hOpen, hClose, -, _, _, hGroup, -⟩ := h
  exact ⟨hOpen, hClose, head, inside, [], rfl, Token.matched_of_closeGroup? hGroup⟩

namespace Declaration

variable {file : Nat} {c e : Class} {ts us inside : List Token} {keyword close : Token}

theorem encloses_of_takenFrom (hOrder : InOrder file (keyword :: (inside ++ [close])))
    (hTaken : c.TakenFrom (keyword :: (inside ++ [close]))) {m : Method} (hm : m ∈ c.methods)
    {body : Source.Body} (hBody : m.body? = some body) : c.Encloses m body := by
  obtain ⟨-, hSpan, -, -⟩ := spans_of_takenFrom hTaken
  obtain ⟨head, opening, within, closing, hIn, rfl, ⟨name, hName, hNamed⟩, -⟩ :=
    definition_of_takenFrom hTaken hm hBody
  have hMem {t : Token} (ht : t ∈ head ++ opening :: (within ++ [closing])) : t ∈ inside :=
    hIn.subset ht
  have hNameIn : name ∈ inside := hMem (List.mem_append_left _ hName)
  have hOpeningIn : opening ∈ inside := hMem (by simp)
  have hClosingIn : closing ∈ inside := hMem (by simp)
  have hOwn {t : Token} (ht : t ∈ inside) : t.span.file = keyword.span.file :=
    (hOrder.own t (by simp [ht])).trans (hOrder.own keyword (by simp)).symm
  have hWidth {t : Token} (ht : t ∈ inside) : t.span.start < t.span.stop :=
    hOrder.start_lt_stop t (by simp [ht])
  have hPart : InOrder file (head ++ opening :: (within ++ [closing])) :=
    hOrder.inner.sublist hIn.sublist
  have hBody : InOrder file ([opening] ++ (within ++ [closing])) :=
    hPart.sublist (List.sublist_append_right head _)
  constructor
  case own =>
    rw [hSpan, hNamed]
    exact ⟨hOwn hNameIn, hOwn hOpeningIn, hOwn hClosingIn⟩
  case start_le_name =>
    rw [hSpan, hNamed]
    exact Nat.le_of_lt (hOrder.between hNameIn).1
  case name =>
    rw [hNamed]
    exact hWidth hNameIn
  case name_le_opening =>
    rw [hNamed]
    exact hPart.stop_le_start hName List.mem_cons_self
  case opening => exact hWidth hOpeningIn
  case opening_le_closing => exact hBody.stop_le_start (by simp) (by simp)
  case closing => exact hWidth hClosingIn
  case closing_le_stop =>
    rw [hSpan]
    exact Nat.le_of_lt (hOrder.between hClosingIn).2

theorem pairwise_bodies {ms : List Method}
    (h : (ms.flatMap (·.braces)).Pairwise fun s t => s.stop ≤ t.start) :
    (ms.filterMap (·.body?)).Pairwise fun a b => a.closing.stop ≤ b.opening.start := by
  rw [List.pairwise_filterMap]
  refine (List.pairwise_flatMap.mp h).2.imp ?_
  intro m n hBraces a ha b hb
  exact hBraces a.closing (by simp [Method.braces, ha]) b.opening (by simp [Method.braces, hb])

theorem bodied_of_takenFrom (hOrder : InOrder file ts)
    (hTaken : c.TakenFrom (keyword :: (inside ++ [close])))
    (hIn : keyword :: (inside ++ [close]) <:+: ts) : c.Bodied ts := by
  have hExtent : InOrder file (keyword :: (inside ++ [close])) := hOrder.sublist hIn.sublist
  constructor
  case encloses => exact fun m hm body hBody => encloses_of_takenFrom hExtent hTaken hm hBody
  case partners =>
    intro m hm body hBody
    obtain ⟨head, opening, within, closing, hWithin, hSpans, -, hFrom⟩ :=
      definition_of_takenFrom hTaken hm hBody
    have hInside : inside <:+: ts := List.IsInfix.trans ⟨[keyword], [close], by simp⟩ hIn
    exact ⟨opening, closing, hFrom.partners.mono (hWithin.trans hInside), hSpans⟩
  case increasing =>
    obtain ⟨-, -, -, hBraces⟩ := spans_of_takenFrom hTaken
    exact pairwise_bodies ((List.pairwise_map.mpr hExtent.inner.pairwise).sublist hBraces)

theorem exists_ends_of_standsIn (h : c.StandsIn ts) :
    ∃ first ∈ ts, ∃ last ∈ ts, c.span = ⟨first.span.file, first.span.start, last.span.stop⟩ := by
  obtain ⟨keyword, inside, close, hTaken, hIn⟩ := h
  obtain ⟨-, hSpan, -, -⟩ := spans_of_takenFrom hTaken
  exact ⟨keyword, hIn.subset (by simp), close, hIn.subset (by simp), hSpan⟩

theorem stop_le_start_of_standsIn (hOrder : InOrder file (ts ++ us)) (hc : c.StandsIn ts)
    (he : e.StandsIn us) : c.span.stop ≤ e.span.start := by
  obtain ⟨_, -, last, hLast, hSpan⟩ := exists_ends_of_standsIn hc
  obtain ⟨first, hFirst, _, -, hSpan'⟩ := exists_ends_of_standsIn he
  rw [hSpan, hSpan']
  exact hOrder.stop_le_start hLast hFirst

theorem inside_of_standsIn (hOrder : InOrder file (keyword :: (inside ++ [close])))
    (hc : c.StandsIn inside) (he : e.TakenFrom (keyword :: (inside ++ [close]))) :
    c.span.Inside e.span := by
  obtain ⟨first, hFirst, last, hLast, hSpan⟩ := exists_ends_of_standsIn hc
  obtain ⟨-, hSpan', -, -⟩ := spans_of_takenFrom he
  rw [hSpan, hSpan']
  refine ⟨?_, (hOrder.between hFirst).1, (hOrder.between hLast).2⟩
  exact (hOrder.own first (by simp [hFirst])).trans (hOrder.own keyword (by simp)).symm

/-- Of two classes the one that ends first stands before the other or inside of it. -/
theorem Placed.pairwise {cs : List Class} (h : Placed cs ts) (hOrder : InOrder file ts) :
    cs.Pairwise fun c e => c.span.stop ≤ e.span.start ∨ c.span.Inside e.span := by
  induction h with
  | none => exact .nil
  | pass us _ ih => exact ih (hOrder.sublist (List.sublist_append_left _ us))
  | @add cs inner c before inside keyword close hBefore hInside hTaken ihBefore ihInside =>
    have hExtent : InOrder file (keyword :: (inside ++ [close])) :=
      hOrder.sublist (List.sublist_append_right before _)
    have hStands : c.StandsIn (keyword :: (inside ++ [close])) :=
      ⟨keyword, inside, close, hTaken, List.infix_rfl⟩
    have hNested (e : Class) (he : e ∈ inner) : e.StandsIn (keyword :: (inside ++ [close])) :=
      (hInside.standsIn e he).mono ⟨[keyword], [close], by simp⟩
    rw [List.pairwise_append, List.pairwise_append]
    refine ⟨⟨?_, ?_, ?_⟩, List.pairwise_singleton _ c, ?_⟩
    · exact ihBefore (hOrder.sublist (List.sublist_append_left before _))
    · exact ihInside hExtent.inner
    · intro e he f hf
      exact .inl (stop_le_start_of_standsIn hOrder (hBefore.standsIn e he) (hNested f hf))
    · intro e he f hf
      obtain rfl := List.mem_singleton.mp hf
      rcases List.mem_append.mp he with he | he
      · exact .inl (stop_le_start_of_standsIn hOrder (hBefore.standsIn e he) hStands)
      · exact .inr (inside_of_standsIn hExtent (hInside.standsIn e he) hTaken)

/-- In the declarations of one file a method with a body has its name and its braces inside of its
class, in this order, and the braces are partners. The bodies of a class stand in the order of its
methods, and two classes stand beside or inside one another. -/
theorem spans_nested_of_read {files : List Source.File} {d : Declarations}
    (hOrder : InOrder file ts) (hRead : read files ts = .ok d) :
    (∀ c ∈ d.classes, c.Bodied ts) ∧
      d.classes.Pairwise fun c e => c.span.stop ≤ e.span.start ∨ c.span.Inside e.span := by
  have hPlaced := (found_of_read hRead).placed
  refine ⟨?_, hPlaced.pairwise hOrder⟩
  intro c hc
  obtain ⟨keyword, inside, close, hTaken, hIn⟩ := hPlaced.standsIn c hc
  exact bodied_of_takenFrom hOrder hTaken hIn

def innerClass : String :=
  "struct A \x7b\nA() : x\x7b1\x7d \x7b\x7d\n" ++
    "struct B \x7b void f() \x7b if (x) \x7b\x7d \x7d \x7d;\nint x;\n\x7d;\n" ++
    "union C \x7b int c; \x7d;\n"

theorem spans_nested_of_innerClass :
    ∃ ts d, InOrder 0 ts ∧ Token.lex 0 "a.h" innerClass = .ok ts ∧ read [] ts = .ok d ∧
      d.classes.map (fun c => (c.name, c.span)) =
        [("B", ⟨0, 25, 60⟩), ("A", ⟨0, 0, 70⟩), ("C", ⟨0, 72, 90⟩)] ∧
      (d.classes.flatMap (·.methods)).map (fun m => (m.nameSpan, m.body?)) =
        [(⟨0, 41, 42⟩, some ⟨⟨0, 45, 46⟩, ⟨0, 57, 58⟩⟩),
          (⟨0, 11, 12⟩, some ⟨⟨0, 22, 23⟩, ⟨0, 23, 24⟩⟩)] ∧
      (∀ c ∈ d.classes, c.Bodied ts) ∧
      d.classes.Pairwise fun c e => c.span.stop ≤ e.span.start ∨ c.span.Inside e.span := by
  have hSpans : ((Token.lex 0 "a.h" innerClass).toOption.bind fun ts =>
      (read [] ts).toOption.map fun d =>
        (d.classes.map fun c => (c.name, c.span),
          (d.classes.flatMap (·.methods)).map fun m => (m.nameSpan, m.body?))) =
      some ([("B", ⟨0, 25, 60⟩), ("A", ⟨0, 0, 70⟩), ("C", ⟨0, 72, 90⟩)],
        [(⟨0, 41, 42⟩, some ⟨⟨0, 45, 46⟩, ⟨0, 57, 58⟩⟩),
          (⟨0, 11, 12⟩, some ⟨⟨0, 22, 23⟩, ⟨0, 23, 24⟩⟩)]) := by
    decide +kernel
  obtain ⟨ts, hLexed, hMade⟩ := Option.bind_eq_some_iff.mp hSpans
  obtain ⟨d, hDeclared, hKept⟩ := Option.map_eq_some_iff.mp hMade
  obtain ⟨hClasses, hMethods⟩ := Prod.mk.inj hKept
  have hLex := eq_ok_of_toOption hLexed
  have hRead := eq_ok_of_toOption hDeclared
  have hOrder := @Token.inOrder_of_lex ⟨0, "a.h", innerClass⟩ ts hLex
  exact ⟨ts, d, hOrder, hLex, hRead, hClasses, hMethods, spans_nested_of_read hOrder hRead⟩

end Declaration

end SkeletonWeave
