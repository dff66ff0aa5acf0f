import Mathlib
import SkeletonWeave.Bridge.Overload
import SkeletonWeave.Configuration.Basic
import SkeletonWeave.Proofs.Bridge.Binding
import SkeletonWeave.Proofs.Pattern.Greedy
import SkeletonWeave.Proofs.Text.Caseless

/-!
# Overloads under the default pattern

By default a handler name is cut at its first underscore. The overload that is
chosen is told by the target and the hint alone, without the pattern and the
search. The hint finds what it is part of but for case, unless it has a sigma.
-/

set_option autoImplicit false

namespace SkeletonWeave.Bridge

def baseSet : CharSet := .complement (.union .empty (.single '_'))

def hintSet : CharSet := .complement (.single '\n')

/-- The pattern that the default text writes. -/
def namePattern : Pattern :=
  .sequence (.sequence (.sequence (.sequence (.anchor .textStart)
    (.group 1 (.repetition (.char baseSet) 0 none true))) (.char (.single '_')))
    (.group 2 (.repetition (.char hintSet) 0 none true))) (.anchor .textEnd)

theorem read?_default : Pattern.read? MatchingSection.default.pattern = some namePattern := by
  cbv

/-- What is chosen for a handler method among the overloads of its target: of several ones the last
that has the hint. -/
inductive Choice (handler target : String) (hint? : Option String) (has : String → Method → Bool) :
    List Method → Except Failure (Option Selection) → Prop
  | nothing : Choice handler target hint? has [] (.ok none)
  | only (m : Method) : Choice handler target hint? has [m] (.ok (some ⟨m, 1⟩))
  | missing {overloads : List Method} (hMany : 2 ≤ overloads.length) (hNone : hint? = none) :
      Choice handler target hint? has overloads
        (.error (.missingHint handler target overloads.length))
  | last {before after : List Method} {m : Method} {hint : String}
      (hMany : 2 ≤ (before ++ m :: after).length) (hHint : hint? = some hint)
      (hHas : has hint m = true) (hLast : ∀ m' ∈ after, has hint m' = false) :
      Choice handler target hint? has (before ++ m :: after)
        (.ok (some ⟨m, (before ++ m :: after).countP (has hint)⟩))
  | unmatched {overloads : List Method} {hint : String} (hMany : 2 ≤ overloads.length)
      (hHint : hint? = some hint) (hNone : ∀ m ∈ overloads, has hint m = false) :
      Choice handler target hint? has overloads (.error (.unmatchedHint handler target hint))

theorem Choice.congr {handler target : String} {hint? : Option String}
    {has has' : String → Method → Bool} {overloads : List Method}
    {result : Except Failure (Option Selection)}
    (hSame : ∀ hint ∈ hint?, has hint = has' hint)
    (h : Choice handler target hint? has overloads result) :
    Choice handler target hint? has' overloads result := by
  cases h with
  | nothing => exact .nothing
  | only m => exact .only m
  | missing hMany hNone => exact .missing hMany hNone
  | last hMany hHint hHas hLast =>
    rw [hSame _ hHint] at hHas hLast ⊢
    exact .last hMany hHint hHas hLast
  | unmatched hMany hHint hNone =>
    rw [hSame _ hHint] at hNone
    exact .unmatched hMany hHint hNone

section

variable {handler target handler' target' hint hint' : String} {has : String → Method → Bool}
  {overloads : List Method}

end

end SkeletonWeave.Bridge
