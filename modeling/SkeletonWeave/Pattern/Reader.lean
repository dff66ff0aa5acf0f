import SkeletonWeave.Pattern.Basic
import SkeletonWeave.Pattern.Library
import SkeletonWeave.Condition.Reader

/-!
# Reading patterns

The notation of patterns: literals, `.`, classes in brackets, the classes `\d`,
`\s` and `\w` and their complements, anchors, groups with and without a name,
alternatives, repetitions in greedy and lazy form, and the flags `i`, `m`, `s`,
`U`, `x`. A text outside of the notation is no pattern.
-/

set_option autoImplicit false

namespace SkeletonWeave.Pattern

structure Flags where
  ignoreCase : Bool
  multiLine : Bool
  dotAll : Bool
  swapGreed : Bool
  extended : Bool
  deriving DecidableEq, Repr

def Flags.initial : Flags := ⟨false, false, false, false, false⟩

/-- What a repetition can follow: a part of a pattern, or a change of flags, which cannot be
repeated. -/
inductive Item where
  | part (p : Pattern)
  | flags
  deriving Repr

def Item.toPattern : Item → Pattern
  | part p => p
  | flags => empty

def sizeLimit : Nat := 327680

inductive Escape where
  | literal (c : Char)
  | set (s : CharSet)
  | anchor (a : Anchor)
  deriving Repr

def charOf? (n : Nat) : Option Char :=
  if n.isValidChar then some (Char.ofNat n) else none

def hexNumber? (digits : List Char) : Option Nat :=
  if digits.isEmpty then none
  else digits.foldlM (fun n c => (Condition.digitValue? 16 c).map (n * 16 + ·)) 0

/-- A character given by hexadecimal digits: in braces, or as many as asked. -/
def readHex? (count : Nat) (cs : List Char) : Option (Char × List Char) :=
  match cs with
  | '{' :: rest => do
    let c ← charOf? (← hexNumber? (rest.takeWhile (· ≠ '}')))
    return (c, (rest.dropWhile (· ≠ '}')).tail)
  | _ => do
    guard (count ≤ cs.length)
    let c ← charOf? (← hexNumber? (cs.take count))
    return (c, cs.drop count)

def readEscape? : List Char → Option (Escape × List Char)
  | [] => none
  | c :: cs =>
    match c with
    | 'd' => some (.set .digit, cs)
    | 'D' => some (.set (.complement .digit), cs)
    | 's' => some (.set .blank, cs)
    | 'S' => some (.set (.complement .blank), cs)
    | 'w' => some (.set .word, cs)
    | 'W' => some (.set (.complement .word), cs)
    | 'A' => some (.anchor .textStart, cs)
    | 'z' => some (.anchor .textEnd, cs)
    | 'b' => some (.anchor .wordBoundary, cs)
    | 'B' => some (.anchor .noWordBoundary, cs)
    | 'n' => some (.literal '\n', cs)
    | 't' => some (.literal '\t', cs)
    | 'r' => some (.literal '\r', cs)
    | 'a' => some (.literal '\x07', cs)
    | 'f' => some (.literal '\x0c', cs)
    | 'v' => some (.literal '\x0b', cs)
    | 'x' => (readHex? 2 cs).map fun (c, rest) => (.literal c, rest)
    | 'u' => (readHex? 4 cs).map fun (c, rest) => (.literal c, rest)
    | 'U' => (readHex? 8 cs).map fun (c, rest) => (.literal c, rest)
    | _ =>
      if c.toNat < 128 && !c.isAlphanum && c != '<' && c != '>' then some (.literal c, cs)
      else none

def namedClass? (name : List Char) : Option CharSet :=
  let upper := CharSet.range 'A' 'Z'
  let lower := CharSet.range 'a' 'z'
  let digits := CharSet.range '0' '9'
  let alpha := upper.union lower
  let gap := (CharSet.single ' ').union (.single '\t')
  let graph := CharSet.range '!' '~'
  [("alnum", alpha.union digits), ("alpha", alpha), ("ascii", .range (Char.ofNat 0) (Char.ofNat 127)),
    ("blank", gap), ("cntrl", (CharSet.range (Char.ofNat 0) (Char.ofNat 31)).union
      (.single (Char.ofNat 127))),
    ("digit", digits), ("graph", graph), ("lower", lower), ("print", .range ' ' '~'),
    ("punct", graph.difference (alpha.union digits)),
    ("space", gap.union (.range '\n' '\r')), ("upper", upper),
    ("word", (alpha.union digits).union (.single '_')),
    ("xdigit", (digits.union (.range 'A' 'F')).union (.range 'a' 'f'))].lookup (String.ofList name)

inductive SetOperation where
  | intersection
  | difference
  | symmetricDifference
  deriving DecidableEq, Repr

def SetOperation.apply : SetOperation → CharSet → CharSet → CharSet
  | intersection => .intersection
  | difference => .difference
  | symmetricDifference => .symmetricDifference

/-- What is read of a class: the operation that waits for its right side, and the part at hand. -/
structure ClassPart where
  pending : Option (CharSet × SetOperation)
  union : CharSet

def ClassPart.add (p : ClassPart) (s : CharSet) : ClassPart :=
  { p with union := p.union.union s }

def ClassPart.finish (ignoreCase : Bool) (p : ClassPart) : CharSet :=
  let right := p.union.ignoringCase ignoreCase
  match p.pending with
  | some (left, op) => op.apply left right
  | none => right

def ClassPart.startOperation (ignoreCase : Bool) (p : ClassPart) (op : SetOperation) : ClassPart :=
  ⟨some (p.finish ignoreCase, op), .empty⟩

def readClassItem? : List Char → Option ((Char ⊕ CharSet) × List Char)
  | [] => none
  | '\\' :: cs =>
    match readEscape? cs with
    | some (.literal c, rest) => some (.inl c, rest)
    | some (.set s, rest) => some (.inr s, rest)
    | _ => none
  | c :: cs => some (.inl c, cs)

def readClassRange? (cs : List Char) : Option (CharSet × List Char) := do
  let single (item : Char ⊕ CharSet) : CharSet :=
    match item with
    | .inl c => .single c
    | .inr s => s
  let (first, rest) ← readClassItem? cs
  match rest with
  | '-' :: after =>
    if after.isEmpty || after.head? == some ']' || after.head? == some '-' then
      return (single first, rest)
    else
      match first, ← readClassItem? after with
      | .inl a, (.inl b, rest) =>
        guard (a ≤ b)
        return (.range a b, rest)
      | _, _ => none
  | _ => return (single first, rest)

/-- Splits off the hyphens, and a closing bracket, that are literal at the start of a class. -/
def classStart (part : ClassPart) : List Char → ClassPart × List Char
  | '-' :: cs => classStart (part.add (.single '-')) cs
  | ']' :: cs =>
    match part.union with
    | .empty => (part.add (.single ']'), cs)
    | _ => (part, ']' :: cs)
  | cs => (part, cs)

/-- Reads a class after its opening bracket in at most `steps` steps. `part` is what is read of it. -/
def readClassWithin? (ignoreCase : Bool) (steps : Nat) (part : ClassPart) (cs : List Char) :
    Option (CharSet × List Char) :=
  match steps, cs with
  | 0, _ => none
  | _ + 1, [] => none
  | _ + 1, ']' :: cs => some (part.finish ignoreCase, cs)
  | steps + 1, '[' :: ':' :: cs =>
    let negated := cs.head? == some '^'
    let named := if negated then cs.tail else cs
    let name := named.takeWhile fun c => c.isAlpha
    match named.dropWhile (fun c => c.isAlpha), namedClass? name with
    | ':' :: ']' :: rest, some s =>
      readClassWithin? ignoreCase steps (part.add (if negated then .complement s else s)) rest
    | _, _ => readNested ignoreCase steps part (':' :: cs)
  | steps + 1, '[' :: cs => readNested ignoreCase steps part cs
  | steps + 1, '&' :: '&' :: cs =>
    readClassWithin? ignoreCase steps (part.startOperation ignoreCase .intersection) cs
  | steps + 1, '-' :: '-' :: cs =>
    readClassWithin? ignoreCase steps (part.startOperation ignoreCase .difference) cs
  | steps + 1, '~' :: '~' :: cs =>
    readClassWithin? ignoreCase steps (part.startOperation ignoreCase .symmetricDifference) cs
  | steps + 1, cs =>
    match readClassRange? cs with
    | some (s, rest) => readClassWithin? ignoreCase steps (part.add s) rest
    | none => none
where
  readNested (ignoreCase : Bool) (steps : Nat) (part : ClassPart) (cs : List Char) :
      Option (CharSet × List Char) :=
    let negated := cs.head? == some '^'
    let (start, cs) := classStart ⟨none, .empty⟩ (if negated then cs.tail else cs)
    match readClassWithin? ignoreCase steps start cs with
    | some (s, rest) =>
      readClassWithin? ignoreCase steps (part.add (if negated then .complement s else s)) rest
    | none => none

def readClass? (ignoreCase : Bool) (cs : List Char) : Option (CharSet × List Char) := do
  let negated := cs.head? == some '^'
  let (start, cs) := classStart ⟨none, .empty⟩ (if negated then cs.tail else cs)
  let (s, rest) ← readClassWithin? ignoreCase (cs.length + 1) start cs
  return (if negated then .complement s else s, rest)

def readNumber? (cs : List Char) : Option (Nat × List Char) :=
  let cs := Text.trimLeft cs
  let digits := cs.takeWhile Char.isDigit
  if digits.isEmpty then none
  else
    let n := digits.foldl (fun n c => n * 10 + (c.toNat - '0'.toNat)) 0
    if n < UInt32.size then some (n, Text.trimLeft (cs.dropWhile Char.isDigit)) else none

def readCounts? (cs : List Char) : Option (Nat × Option Nat × List Char) := do
  let (least, rest) ← readNumber? cs
  match rest with
  | '}' :: rest => return (least, some least, rest)
  | ',' :: '}' :: rest => return (least, none, rest)
  | ',' :: rest =>
    match ← readNumber? rest with
    | (most, '}' :: rest) =>
      guard (least ≤ most)
      return (least, some most, rest)
    | _ => none
  | _ => none

/-- Repeats the last item; a question mark after the repetition turns its preference round. -/
def repeatLast? (flags : Flags) (items : List Item) (least : Nat) (most : Option Nat)
    (cs : List Char) : Option (List Item × List Char) :=
  match items with
  | .part p :: before =>
    let isLazy := cs.head? == some '?'
    some (.part (.repetition p least most (isLazy == flags.swapGreed)) :: before,
      if isLazy then cs.tail else cs)
  | _ => none

/-- What opens a group: an index and perhaps a name, flags for the group alone, or flags for the
rest of the group around it. -/
inductive Opening where
  | capture (name? : Option String)
  | plain (flags : Flags)
  | setFlags (flags : Flags)
  deriving Repr

def Flags.set? (f : Flags) (value : Bool) : Char → Option Flags
  | 'i' => some { f with ignoreCase := value }
  | 'm' => some { f with multiLine := value }
  | 's' => some { f with dotAll := value }
  | 'U' => some { f with swapGreed := value }
  | 'x' => some { f with extended := value }
  | 'u' => if value then some f else none
  | _ => none

/-- Reads flags up to a colon or a closing parenthesis. `seen` are the letters before, and `last`
is a hyphen if it was the last one. -/
def readFlags? (flags : Flags) (value : Bool) (seen : List Char) : List Char → Option (Opening × List Char)
  | [] => none
  | ':' :: cs => if seen.head? == some '-' then none else some (.plain flags, cs)
  | ')' :: cs =>
    if seen.isEmpty || seen.head? == some '-' then none else some (.setFlags flags, cs)
  | c :: cs =>
    if seen.contains c then none
    else if c = '-' then readFlags? flags false (c :: seen) cs
    else
      match flags.set? value c with
      | some flags => readFlags? flags value (c :: seen) cs
      | none => none

def isGroupNameStart (c : Char) : Bool :=
  c == '_' || (CharSet.isWord c && !CharSet.isDigit c)

def isGroupNamePart (c : Char) : Bool :=
  CharSet.isWord c || c == '.' || c == '[' || c == ']'

def readGroupName? (cs : List Char) : Option (Opening × List Char) :=
  let name := cs.takeWhile isGroupNamePart
  match cs.dropWhile isGroupNamePart with
  | '>' :: rest =>
    if name.head?.any isGroupNameStart then some (.capture (some (String.ofList name)), rest)
    else none
  | _ => none

def readOpening? (flags : Flags) : List Char → Option (Opening × List Char)
  | '?' :: 'P' :: '<' :: cs => readGroupName? cs
  | '?' :: '<' :: cs => readGroupName? cs
  | '?' :: cs => readFlags? flags true [] cs
  | cs => some (.capture none, cs)

/-- What is read of a group: the flags in force, the finished alternatives and the items of the
present one, each with the last first. -/
structure Draft where
  flags : Flags
  branches : List Pattern
  items : List Item

def Draft.start (flags : Flags) : Draft := ⟨flags, [], []⟩

def Draft.push (d : Draft) (p : Pattern) : Draft :=
  { d with items := .part p :: d.items }

def sequenceOf (items : List Item) : Pattern :=
  match items.reverse.map Item.toPattern with
  | [] => empty
  | p :: ps => ps.foldl sequence p

def Draft.endBranch (d : Draft) : Draft :=
  { d with branches := sequenceOf d.items :: d.branches, items := [] }

def Draft.finish (d : Draft) : Pattern :=
  d.branches.foldl (fun later earlier => choice earlier later) (sequenceOf d.items)

structure Numbering where
  count : Nat
  names : List String

def Numbering.add? (n : Numbering) (name? : Option String) : Option Numbering :=
  match name? with
  | none => some ⟨n.count + 1, n.names⟩
  | some name => if n.names.contains name then none else some ⟨n.count + 1, name :: n.names⟩

def literal (flags : Flags) (c : Char) : Pattern :=
  char ((CharSet.single c).ignoringCase flags.ignoreCase)

def Escape.toPattern (flags : Flags) : Escape → Pattern
  | literal c => Pattern.literal flags c
  | set s => char s
  | anchor a => Pattern.anchor a

def readPart? (flags : Flags) (c : Char) (cs : List Char) : Option (Pattern × List Char) :=
  match c with
  | '.' => some (char (if flags.dotAll then .complement .empty else .complement (.single '\n')), cs)
  | '^' => some (anchor (if flags.multiLine then .lineStart else .textStart), cs)
  | '$' => some (anchor (if flags.multiLine then .lineEnd else .textEnd), cs)
  | '[' => (readClass? flags.ignoreCase cs).map fun (s, rest) => (char s, rest)
  | '\\' => (readEscape? cs).map fun (e, rest) => (e.toPattern flags, rest)
  | _ => some (literal flags c, cs)

def readRepetition? (c : Char) (cs : List Char) : Option (Option (Nat × Option Nat × List Char)) :=
  match c with
  | '*' => some (some (0, none, cs))
  | '+' => some (some (1, none, cs))
  | '?' => some (some (0, some 1, cs))
  | '{' => some (readCounts? cs)
  | _ => none

/-- Reads alternatives in at most `steps` steps, up to a closing parenthesis or the end. -/
def readAlternatives? (steps : Nat) (n : Numbering) (d : Draft) (cs : List Char) :
    Option (Pattern × Numbering × List Char) :=
  match steps, cs with
  | 0, _ => none
  | _ + 1, [] => some (d.finish, n, [])
  | steps + 1, c :: cs =>
    if c = ')' then some (d.finish, n, c :: cs)
    else if c = '|' then readAlternatives? steps n d.endBranch cs
    else if d.flags.extended && Text.isBlank c then readAlternatives? steps n d cs
    else if d.flags.extended && c = '#' then
      readAlternatives? steps n d (cs.dropWhile (· ≠ '\n'))
    else if c = '(' then do
      match ← readOpening? d.flags cs with
      | (.setFlags flags, rest) =>
        readAlternatives? steps n { d with flags := flags, items := .flags :: d.items } rest
      | (.plain flags, rest) =>
        match ← readAlternatives? steps n (.start flags) rest with
        | (p, n, ')' :: rest) => readAlternatives? steps n (d.push p) rest
        | _ => none
      | (.capture name?, rest) =>
        let inner ← n.add? name?
        match ← readAlternatives? steps inner (.start d.flags) rest with
        | (p, n, ')' :: rest) =>
          readAlternatives? steps n (d.push (group inner.count p)) rest
        | _ => none
    else
      match readRepetition? c cs with
      | some counts? => do
        let (least, most, rest) ← counts?
        let (items, rest) ← repeatLast? d.flags d.items least most rest
        readAlternatives? steps n { d with items := items } rest
      | none => do
        let (p, rest) ← readPart? d.flags c cs
        readAlternatives? steps n (d.push p) rest

/-- The pattern that a text writes, if it writes one that is not too large. -/
def read? (text : String) : Option Pattern := do
  let cs := text.toList
  match ← readAlternatives? (cs.length + 1) ⟨0, []⟩ (.start .initial) cs with
  | (p, _, []) => if p.size ≤ sizeLimit then some p else none
  | _ => none

instance library : PatternLibrary where
  Compiled := Pattern
  compile? := read?
  groupCount := groupCount
  groups? p text := (p.search? text).map Match.group?

end SkeletonWeave.Pattern
