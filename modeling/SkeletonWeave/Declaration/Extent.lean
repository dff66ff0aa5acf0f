import SkeletonWeave.Declaration.TypeReader
import SkeletonWeave.Source.Error

/-!
# The extent of a declaration

A declaration goes up to its semicolon, the brace of its body, or the brace that
closes the scope around it. Parentheses, square brackets and braces that
initialize something belong to it as a whole.
-/

set_option autoImplicit false

namespace SkeletonWeave.Declaration

structure Fault where
  cause : Source.Cause
  span : Source.Span
  deriving DecidableEq, Repr

abbrev Outcome (α : Type) := Except Fault α

def unbalanced (opener : Token) : Fault :=
  ⟨.unbalanced opener.text, opener.span⟩

/-- The tokens inside the group of `opener`, its closing token and the tokens after it. -/
def closeGroup (opener : Token) (ts : List Token) : Outcome (List Token × Token × List Token) :=
  match Token.closeGroup? opener.text ts with
  | some group => .ok group
  | none => .error (unbalanced opener)

/-- A group that is open inside a declaration, and how many more of its kind are open in it. -/
structure OpenGroup where
  opener : Token
  depth : Nat
  deriving DecidableEq, Repr

/-- What is known of a declaration while its end is searched: the tokens so far in reverse, the
group that is open, whether a parameter list was seen, and whether a list of member initializers
has begun. -/
structure Extent where
  passed : List Token
  group? : Option OpenGroup
  seenParams : Bool
  inInitializers : Bool
  deriving DecidableEq, Repr

namespace Extent

def start : Extent := ⟨[], none, false, false⟩

def pass (e : Extent) (t : Token) : Extent :=
  { e with passed := t :: e.passed }

def passInside (e : Extent) (g : OpenGroup) (t : Token) : Extent :=
  let group? :=
    if t.isPunctuation g.opener.text then some { g with depth := g.depth + 1 }
    else if t.isPunctuation (Token.closer g.opener.text) then
      match g.depth with
      | 0 => none
      | depth + 1 => some { g with depth := depth }
    else some g
  { e.pass t with group? := group? }

def openGroup (e : Extent) (t : Token) : Extent :=
  { e.pass t with group? := some ⟨t, 0⟩, seenParams := e.seenParams || t.isPunctuation "(" }

def bracesInitialize (e : Extent) : Bool :=
  match e.passed with
  | [] => false
  | previous :: _ =>
    previous.isPunctuation "=" ||
      (e.inInitializers && (previous.kind == .identifier || previous.isPunctuation ">"))

def endsAt (e : Extent) (t : Token) : Bool :=
  t.isPunctuation ";" || t.isPunctuation "\x7d" || (t.isPunctuation "\x7b" && !e.bracesInitialize)

def passOutside (e : Extent) (t : Token) : Extent :=
  if t.isPunctuation "(" || t.isPunctuation "[" || t.isPunctuation "\x7b" then e.openGroup t
  else { e.pass t with inInitializers := e.inInitializers || (t.isPunctuation ":" && e.seenParams) }

def split (e : Extent) : List Token → Outcome (List Token × List Token)
  | [] =>
    match e.group? with
    | some g => .error (unbalanced g.opener)
    | none => .ok (e.passed.reverse, [])
  | t :: ts =>
    match e.group? with
    | some g => (e.passInside g t).split ts
    | none => if e.endsAt t then .ok (e.passed.reverse, t :: ts) else (e.passOutside t).split ts

end Extent

/-- The tokens of the declaration at the start, and the tokens from its end on. -/
def splitDeclaration (ts : List Token) : Outcome (List Token × List Token) :=
  Extent.start.split ts

def dropSemicolon : List Token → List Token
  | [] => []
  | t :: ts => if t.isPunctuation ";" then ts else t :: ts

/-- Whether a declaration goes on after a body, because a type is defined in it or something is
initialized. -/
def continuesAfterBody (head : List Token) : Bool :=
  head.any fun t => t.isOneOf Words.classLike || t.isPunctuation "="

/-- The tokens after a declaration of any kind; `passed` is what it holds before them. At most
`steps` bodies are skipped. -/
def skipFrom : Nat → List Token → List Token → Outcome (List Token)
  | 0, _, ts => .ok ts
  | steps + 1, passed, ts => do
    let (head, rest) ← splitDeclaration ts
    match rest with
    | [] => return []
    | t :: after =>
      if t.isPunctuation ";" then return after
      else if t.isPunctuation "\x7d" then return rest
      else
        let (body, close, after) ← closeGroup t after
        if continuesAfterBody (passed ++ head) then
          skipFrom steps (passed ++ head ++ t :: body ++ [close]) after
        else return dropSemicolon after

def skip (ts : List Token) : Outcome (List Token) :=
  skipFrom (ts.length + 1) [] ts

/-- The tokens after the template whose keyword stands before `ts`. -/
def skipTemplate (ts : List Token) : Outcome (List Token) := do
  match ts with
  | t :: rest =>
    if t.isPunctuation "<" then
      let (_, _, after) ← closeGroup t rest
      skip after
    else skip ts
  | [] => skip []

end SkeletonWeave.Declaration
