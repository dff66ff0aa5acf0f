import SkeletonWeave.Proofs.Declaration.Layout

/-!
# Scopes around classes

The classes of a stream, each with the scope in which it stands. A namespace
adds its names to the scope of what it holds, and a class adds the name of its
head, which is empty if the head gives none.
-/

set_option autoImplicit false

namespace SkeletonWeave.Declaration

def Opens (names : List String) (opening : List Token) : Prop :=
  ∃ word between brace, opening = word :: (between ++ [brace]) ∧ word.text = "namespace" ∧
    between.all inNamespaceName = true ∧ brace.isPunctuation "\x7b" = true ∧
    names = (between.filter fun t => t.kind == .identifier).map (·.text)

/-- Whether a class that stands in a scope is named by its head, or by a `typedef` if its head
gives no name. -/
def NameGiven (scope : Scope) (head after : List Token) (c : Class) : Prop :=
  c.name = className head ∧ c.qualifiedName = scope.qualify (className head) ∨
    className head = "" ∧ ∃ t ∈ after, t.kind = .identifier ∧ c.name = t.text ∧
      c.qualifiedName = "::".intercalate (scope ++ [t.text])

/-- The classes that stand in a stretch of tokens inside a scope, in the order of their ends. -/
inductive Outline : Scope → List (Scope × Class) → List Token → Prop
  | none (scope : Scope) : Outline scope [] []
  | pass {scope : Scope} {cs : List (Scope × Class)} {ts : List Token} (us : List Token) :
    Outline scope cs ts → Outline scope cs (ts ++ us)
  | space {scope : Scope} {cs inner : List (Scope × Class)} {names : List String}
    {before opening inside : List Token} :
    Outline scope cs before → Opens names opening → Outline (scope ++ names) inner inside →
    Outline scope (cs ++ inner) (before ++ (opening ++ inside))
  | add {scope : Scope} {cs inner : List (Scope × Class)} {c : Class} {keyword opener last : Token}
    {before head inside after : List Token} :
    Outline scope cs before → Outline (scope ++ [className head]) inner inside →
    c.TakenFrom (keyword :: (head ++ opener :: inside ++ [last])) → NameGiven scope head after c →
    Outline scope (cs ++ (inner ++ [(scope, c)]))
      (before ++ keyword :: ((head ++ opener :: inside) ++ last :: after))

namespace Outline

theorem skipped (scope : Scope) (ts : List Token) : Outline scope [] ts := by
  simpa using (Outline.none scope).pass ts

theorem append {scope : Scope} {cs ds : List (Scope × Class)} {ts us : List Token}
    (h : Outline scope cs ts) (h' : Outline scope ds us) :
    Outline scope (cs ++ ds) (ts ++ us) := by
  induction h' with
  | none => simpa using h
  | pass vs _ ih =>
    rw [← List.append_assoc]
    exact (ih h).pass vs
  | space _ hOpens hInside ih _ =>
    have hAll := (ih h).space hOpens hInside
    simpa using hAll
  | add _ hInside hTaken hName ih _ =>
    have hAll := (ih h).add hInside hTaken hName
    simpa using hAll

theorem inSpace {scope : Scope} {names : List String} {inner : List (Scope × Class)}
    {opening inside : List Token} (hOpens : Opens names opening)
    (h : Outline (scope ++ names) inner inside) : Outline scope inner (opening ++ inside) := by
  simpa using (Outline.none scope).space hOpens h

theorem close {scope : Scope} {inner : List (Scope × Class)} {c : Class}
    {keyword opener last : Token} {head inside after : List Token}
    (h : Outline (scope ++ [className head]) inner inside)
    (hTaken : c.TakenFrom (keyword :: (head ++ opener :: inside ++ [last])))
    (hName : NameGiven scope head after c) :
    Outline scope (inner ++ [(scope, c)])
      (keyword :: ((head ++ opener :: inside) ++ last :: after)) := by
  simpa using (Outline.none scope).add h hTaken hName

end Outline

end SkeletonWeave.Declaration
