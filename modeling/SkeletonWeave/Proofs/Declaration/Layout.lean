import SkeletonWeave.Proofs.Declaration.Extent

/-!
# Where classes stand

The classes of a stream stand beside and inside one another, each from its
keyword through its closing brace, and are listed in the order of their ends.
Between the two stand the braces of its methods, in the order of the methods.
-/

set_option autoImplicit false

namespace SkeletonWeave

open Declarator (Declared Member)

namespace Declaration

def bodyReader (steps : Nat) : BodyReader := fun scope name access opener d ts =>
  readMembers steps (scope ++ [name]) name opener access Members.empty d ts

end Declaration

namespace Class

open Declaration

/-- Whether the reader makes a class of the tokens of `extent`: its keyword, its head, the brace
of its body, and the body through the closing brace. A `typedef` may have renamed the class. -/
def TakenFrom (c : Class) (extent : List Token) : Prop :=
  ∃ steps scope d keyword head opener body rest declarations read,
    (keyword.text = "class" ∨ keyword.text = "struct" ∨ keyword.text = "union") ∧
    extent = keyword :: (head ++ opener :: body) ∧
    readClass (bodyReader steps) scope d keyword head opener (body ++ rest) =
      .ok ⟨declarations, rest⟩ ∧
    declarations.classes.getLast? = some read ∧
    c = { read with name := c.name, qualifiedName := c.qualifiedName }

def StandsIn (c : Class) (ts : List Token) : Prop :=
  ∃ keyword inside close, c.TakenFrom (keyword :: (inside ++ [close])) ∧
    keyword :: (inside ++ [close]) <:+: ts

theorem StandsIn.mono {c : Class} {ts us : List Token} (h : c.StandsIn ts) (hInfix : ts <:+: us) :
    c.StandsIn us := by
  obtain ⟨keyword, inside, close, hTaken, hIn⟩ := h
  exact ⟨keyword, inside, close, hTaken, hIn.trans hInfix⟩

/-- Whether a class has no name, or an identifier among the tokens as its name, with which its
qualified name ends. -/
def NamedIn (c : Class) (ts : List Token) : Prop :=
  c.name = "" ∨ (∃ t ∈ ts, t.kind = .identifier ∧ t.text = c.name) ∧
    ∃ outer, c.qualifiedName = "::".intercalate (outer ++ [c.name])

theorem NamedIn.mono {c : Class} {ts us : List Token} (h : c.NamedIn ts) (hSubset : ts ⊆ us) :
    c.NamedIn us := by
  rcases h with hEmpty | ⟨⟨t, ht, hName⟩, hOuter⟩
  · exact .inl hEmpty
  · exact .inr ⟨⟨t, hSubset ht, hName⟩, hOuter⟩

end Class

namespace Declaration

/-- The classes of a stretch of tokens, in the order of their ends. -/
inductive Placed : List Class → List Token → Prop
  | none : Placed [] []
  | pass {cs : List Class} {ts : List Token} (us : List Token) : Placed cs ts → Placed cs (ts ++ us)
  | add {cs inner : List Class} {c : Class} {before inside : List Token} {keyword close : Token} :
    Placed cs before → Placed inner inside → c.TakenFrom (keyword :: (inside ++ [close])) →
    Placed (cs ++ inner ++ [c]) (before ++ keyword :: (inside ++ [close]))

theorem part_of_append_eq {α : Type} {xs first second later : List α} {x last : α}
    (h : xs ++ x :: later = first ++ second ++ [last]) :
    (∃ rest, first = xs ++ x :: rest) ∨ (∃ part rest, xs = first ++ part ∧ second = part ++ x :: rest) ∨
      xs = first ++ second ∧ x = last := by
  rcases List.append_eq_append_iff.mp h with ⟨rest, hParts, hLast⟩ | ⟨part, rfl, hLast⟩
  · rcases rest with - | ⟨y, rest⟩
    · cases hLast
      exact .inr (.inr ⟨by simpa using hParts.symm, rfl⟩)
    · obtain ⟨rfl, -⟩ := List.cons.inj hLast
      rcases List.append_eq_append_iff.mp hParts with ⟨part, rfl, hSecond⟩ | ⟨part, hFirst, hRest⟩
      · exact .inr (.inl ⟨part, rest, rfl, hSecond⟩)
      · rcases part with - | ⟨y, part⟩
        · exact .inr (.inl ⟨[], rest, by simpa using hFirst.symm, by simpa using hRest.symm⟩)
        · obtain ⟨rfl, -⟩ := List.cons.inj hRest
          exact .inl ⟨part, hFirst⟩
  · rcases part with - | ⟨y, part⟩
    · obtain ⟨rfl, -⟩ := List.cons.inj hLast
      exact .inr (.inr ⟨by simp, rfl⟩)
    · simp at hLast

namespace Placed

theorem append {cs ds : List Class} {ts us : List Token} (h : Placed cs ts) (h' : Placed ds us) :
    Placed (cs ++ ds) (ts ++ us) := by
  induction h' with
  | none => simpa using h
  | pass vs _ ih =>
    rw [← List.append_assoc]
    exact ih.pass vs
  | add _ hInside hTaken ih _ =>
    have hAdd := Placed.add ih hInside hTaken
    simpa using hAdd

theorem standsIn {cs : List Class} {ts : List Token} (h : Placed cs ts) :
    ∀ c ∈ cs, c.StandsIn ts := by
  induction h with
  | none => simp
  | pass us _ ih =>
    intro c hc
    exact (ih c hc).mono (List.prefix_append _ us).isInfix
  | @add _ _ _ before inside keyword close _ _ hTaken ihBefore ihInside =>
    intro c hc
    rcases List.mem_append.mp hc with hc | hc
    · rcases List.mem_append.mp hc with hc | hc
      · exact (ihBefore c hc).mono (List.prefix_append _ _).isInfix
      · exact (ihInside c hc).mono ⟨before ++ [keyword], [close], by simp⟩
    · rw [List.mem_singleton.mp hc]
      exact ⟨keyword, inside, close, hTaken, (List.suffix_append before _).isInfix⟩

/-- A class of a stretch has an extent in it. The classes listed before it stand before the
extent or inside of it. -/
theorem exists_extent {cs later : List Class} {c : Class} {ts : List Token}
    (h : Placed (cs ++ c :: later) ts) :
    ∃ before keyword inside close after,
      ts = before ++ keyword :: (inside ++ close :: after) ∧
      c.TakenFrom (keyword :: (inside ++ [close])) ∧
      ∀ e ∈ cs, e.StandsIn before ∨ e.StandsIn inside := by
  generalize hAll : cs ++ c :: later = all at h
  induction h generalizing cs c later with
  | none => simp at hAll
  | pass us _ ih =>
    obtain ⟨before, keyword, inside, close, after, rfl, hTaken, hEarlier⟩ := ih hAll
    exact ⟨before, keyword, inside, close, after ++ us, by simp, hTaken, hEarlier⟩
  | @add cs₁ inner c₁ before inside keyword close hBefore hInside hTaken ihBefore ihInside =>
    -- the class stands before the one that was added last, or inside of it, or is that one
    rcases part_of_append_eq hAll with ⟨rest, hFirst⟩ | ⟨part, rest, hCs, hSecond⟩ | ⟨rfl, rfl⟩
    · obtain ⟨b, k, i, l, a, rfl, hTaken', hEarlier⟩ := ihBefore hFirst.symm
      exact ⟨b, k, i, l, a ++ keyword :: (inside ++ [close]), by simp, hTaken', hEarlier⟩
    · obtain ⟨b, k, i, l, a, rfl, hTaken', hEarlier⟩ := ihInside hSecond.symm
      refine ⟨before ++ keyword :: b, k, i, l, a ++ [close], by simp, hTaken', ?_⟩
      intro e he
      rw [hCs, List.mem_append] at he
      rcases he with he | he
      · exact .inl ((hBefore.standsIn e he).mono (List.prefix_append _ _).isInfix)
      · refine (hEarlier e he).imp_left fun hIn => hIn.mono ?_
        exact (List.suffix_cons keyword b).isInfix.trans (List.suffix_append before _).isInfix
    · refine ⟨before, keyword, inside, close, [], rfl, hTaken, ?_⟩
      intro e he
      rcases List.mem_append.mp he with he | he
      · exact .inl (hBefore.standsIn e he)
      · exact .inr (hInside.standsIn e he)

end Placed

end Declaration

end SkeletonWeave
