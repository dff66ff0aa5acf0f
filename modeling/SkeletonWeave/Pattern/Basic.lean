import SkeletonWeave.Pattern.CharSet

/-!
# Patterns

A pattern matches at the first place of a text where it can, and there as its
alternatives and repetitions prefer: an earlier alternative before a later one,
more repetitions before fewer, or fewer before more where it says so. Groups
keep the text that they matched last.
-/

set_option autoImplicit false

namespace SkeletonWeave

inductive Anchor where
  | textStart
  | textEnd
  | lineStart
  | lineEnd
  | wordBoundary
  | noWordBoundary
  deriving DecidableEq, Repr

inductive Pattern where
  | empty
  | char (s : CharSet)
  | anchor (a : Anchor)
  | group (index : Nat) (p : Pattern)
  | sequence (p q : Pattern)
  | choice (p q : Pattern)
  | repetition (p : Pattern) (least : Nat) (most : Option Nat) (greedy : Bool)
  deriving Repr, DecidableEq

namespace Pattern

/-- A place in a text: the character before it, the characters after it, and what the groups
matched up to it, the latest first. -/
structure Place where
  before : Option Char
  rest : List Char
  groups : List (Nat × List Char)
  deriving DecidableEq, Repr

abbrev Continuation := Place → Option Place

def Anchor.holds (p : Place) : Anchor → Bool
  | .textStart => p.before.isNone
  | .textEnd => p.rest.isEmpty
  | .lineStart => p.before.all (· == '\n')
  | .lineEnd => p.rest.head?.all (· == '\n')
  | .wordBoundary => p.before.any CharSet.isWord != p.rest.head?.any CharSet.isWord
  | .noWordBoundary => p.before.any CharSet.isWord == p.rest.head?.any CharSet.isWord

/-- Tries to go on and to stop, in the preferred order. -/
def prefer (greedy : Bool) (go stop : Unit → Option Place) : Option Place :=
  if greedy then (go ()).orElse stop else (stop ()).orElse go

def times (step : Continuation → Continuation) : Nat → Continuation → Continuation
  | 0, k => k
  | n + 1, k => step (times step n k)

def upTo (step : Continuation → Continuation) (greedy : Bool) : Nat → Continuation → Continuation
  | 0, k => k
  | n + 1, k => fun p => prefer greedy (fun _ => step (upTo step greedy n k) p) (fun _ => k p)

/-- Matches further steps, each of which takes at least one character. -/
def more (step : Continuation → Continuation) (greedy : Bool) :
    Nat → Continuation → Continuation
  | 0, k => k
  | n + 1, k => fun p =>
    prefer greedy
      (fun _ => step (fun q =>
        if q.rest.length < p.rest.length then more step greedy n k q else none) p)
      (fun _ => k p)

/-- Matches a step at least once. A first step that takes no character is the only one. -/
def atLeastOnce (step : Continuation → Continuation) (greedy : Bool) (k : Continuation) :
    Continuation := fun p =>
  step (fun q =>
    if q.rest.length < p.rest.length then more step greedy (q.rest.length + 1) k q else k q) p

def repeated (step : Continuation → Continuation) (least : Nat) (most : Option Nat)
    (greedy : Bool) (k : Continuation) : Continuation :=
  match most, least with
  | some most, least => times step least (upTo step greedy (most - least) k)
  | none, 0 => fun p =>
    prefer greedy (fun _ => atLeastOnce step greedy k p) (fun _ => k p)
  | none, least + 1 => times step least (atLeastOnce step greedy k)

def run : Pattern → Continuation → Continuation
  | empty, k => k
  | char s, k => fun p =>
    match p.rest with
    | [] => none
    | c :: cs => if s.contains c then k ⟨some c, cs, p.groups⟩ else none
  | anchor a, k => fun p => if Anchor.holds p a then k p else none
  | group index q, k => fun p =>
    q.run (fun e =>
      let text := p.rest.take (p.rest.length - e.rest.length)
      k { e with groups := (index, text) :: e.groups }) p
  | sequence q r, k => q.run (r.run k)
  | choice q r, k => fun p => (q.run k p).orElse fun _ => r.run k p
  | repetition q least most greedy, k => repeated q.run least most greedy k

/-- The first match in a text that goes on after a character, told by the groups. -/
def searchFrom (p : Pattern) (before : Option Char) (text : List Char) :
    Option (List (Nat × List Char)) :=
  match p.run some ⟨before, text, []⟩ with
  | some place => some place.groups
  | none =>
    match text with
    | [] => none
    | c :: cs => p.searchFrom (some c) cs

structure Match where
  groups : List (Nat × List Char)
  deriving DecidableEq, Repr

def Match.group? (m : Match) (index : Nat) : Option String :=
  (m.groups.lookup index).map String.ofList

def search? (p : Pattern) (text : String) : Option Match :=
  (p.searchFrom none text.toList).map Match.mk

/-- The largest index of a group; the pattern has as many groups. -/
def groupCount : Pattern → Nat
  | empty | char _ | anchor _ => 0
  | group index p => max index p.groupCount
  | sequence p q | choice p q => max p.groupCount q.groupCount
  | repetition p _ most _ => if most = some 0 then 0 else p.groupCount

/-- How many places of single characters a pattern has when its repetitions are written out. -/
def size : Pattern → Nat
  | empty | anchor _ => 1
  | char _ => 1
  | group _ p => p.size + 2
  | sequence p q | choice p q => p.size + q.size + 1
  | repetition p least most _ => (p.size + 1) * max 1 (max least (most.getD 0))

end Pattern

end SkeletonWeave
