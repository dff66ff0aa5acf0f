import SkeletonWeave.Condition.Reader
import SkeletonWeave.Toml.Value

/-!
# TOML strings, integers and keys

Every reader here takes a piece from the start of a text and gives the text
after it, or nothing where the piece is malformed.
-/

set_option autoImplicit false

namespace SkeletonWeave.Toml

abbrev Read (α : Type) := Option (α × List Char)

def isText (c : Char) : Bool :=
  c == '\t' || (0x20 ≤ c.toNat && c.toNat ≠ 0x7F)

def isGap (c : Char) : Bool :=
  c == ' ' || c == '\t'

def skipGap (cs : List Char) : List Char :=
  cs.dropWhile isGap

def lineEnd? : List Char → Option (List Char)
  | '\n' :: cs => some cs
  | '\r' :: '\n' :: cs => some cs
  | _ => none

def scalar? (digits : List Char) : Option Char := do
  let n ← digits.foldlM (fun n c => (Condition.digitValue? 16 c).map (n * 16 + ·)) 0
  if n.isValidChar then some (Char.ofNat n) else none

def escaped? : Char → Option Char
  | 'b' => some '\x08'
  | 't' => some '\t'
  | 'n' => some '\n'
  | 'f' => some '\x0c'
  | 'r' => some '\r'
  | 'e' => some '\x1b'
  | '"' => some '"'
  | '\\' => some '\\'
  | _ => none

def prepend (c? : Option Char) (rest? : Read (List Char)) : Read (List Char) :=
  match c?, rest? with
  | some c, some (text, rest) => some (c :: text, rest)
  | _, _ => none

def basicRest? : List Char → Read (List Char)
  | [] => none
  | '"' :: cs => some ([], cs)
  | '\\' :: 'x' :: a :: b :: cs => prepend (scalar? [a, b]) (basicRest? cs)
  | '\\' :: 'u' :: a :: b :: c :: d :: cs => prepend (scalar? [a, b, c, d]) (basicRest? cs)
  | '\\' :: 'U' :: a :: b :: c :: d :: e :: f :: g :: h :: cs =>
    prepend (scalar? [a, b, c, d, e, f, g, h]) (basicRest? cs)
  | '\\' :: c :: cs => prepend (escaped? c) (basicRest? cs)
  | c :: cs => prepend (if isText c then some c else none) (basicRest? cs)

def literalRest? : List Char → Read (List Char)
  | [] => none
  | '\'' :: cs => some ([], cs)
  | c :: cs => prepend (if isText c then some c else none) (literalRest? cs)

def endsLine (cs : List Char) : Bool :=
  (lineEnd? (skipGap cs)).isSome

/-- The rest of a string in three double quotes. After a backslash at the end of a line, `skipping`
is set and white space is passed over. Up to two quotes may stand before the closing three. -/
def longBasicRest? (skipping : Bool) : List Char → Read (List Char)
  | [] => none
  | '"' :: '"' :: '"' :: '"' :: '"' :: cs => some (['"', '"'], cs)
  | '"' :: '"' :: '"' :: '"' :: cs => some (['"'], cs)
  | '"' :: '"' :: '"' :: cs => some ([], cs)
  | '\\' :: 'x' :: a :: b :: cs => prepend (scalar? [a, b]) (longBasicRest? false cs)
  | '\\' :: 'u' :: a :: b :: c :: d :: cs =>
    prepend (scalar? [a, b, c, d]) (longBasicRest? false cs)
  | '\\' :: 'U' :: a :: b :: c :: d :: e :: f :: g :: h :: cs =>
    prepend (scalar? [a, b, c, d, e, f, g, h]) (longBasicRest? false cs)
  | '\\' :: c :: cs =>
    if endsLine (c :: cs) then longBasicRest? true (c :: cs)
    else prepend (escaped? c) (longBasicRest? false cs)
  | '\r' :: '\n' :: cs =>
    if skipping then longBasicRest? true cs
    else prepend (some '\r') (prepend (some '\n') (longBasicRest? false cs))
  | c :: cs =>
    if skipping && (isGap c || c == '\n') then longBasicRest? true cs
    else prepend (if isText c || c == '\n' then some c else none) (longBasicRest? false cs)

def longLiteralRest? : List Char → Read (List Char)
  | [] => none
  | '\'' :: '\'' :: '\'' :: '\'' :: '\'' :: cs => some (['\'', '\''], cs)
  | '\'' :: '\'' :: '\'' :: '\'' :: cs => some (['\''], cs)
  | '\'' :: '\'' :: '\'' :: cs => some ([], cs)
  | '\r' :: '\n' :: cs => prepend (some '\r') (prepend (some '\n') (longLiteralRest? cs))
  | c :: cs => prepend (if isText c || c == '\n' then some c else none) (longLiteralRest? cs)

def dropLineEnd (cs : List Char) : List Char :=
  (lineEnd? cs).getD cs

/-- A string in any of the four notations; none if no quote stands at the start. -/
def readString? (cs : List Char) : Option (Read String) :=
  let pack (r : Read (List Char)) : Read String := r.map fun (text, rest) => (String.ofList text, rest)
  match cs with
  | '"' :: '"' :: '"' :: cs => some (pack (longBasicRest? false (dropLineEnd cs)))
  | '"' :: cs => some (pack (basicRest? cs))
  | '\'' :: '\'' :: '\'' :: cs => some (pack (longLiteralRest? (dropLineEnd cs)))
  | '\'' :: cs => some (pack (literalRest? cs))
  | _ => none

def digits? (base : Nat) (afterDigit : Bool) (n : Nat) : List Char → Option Nat
  | [] => if afterDigit then some n else none
  | '_' :: cs => if afterDigit && !cs.isEmpty then digits? base false n cs else none
  | c :: cs =>
    match Condition.digitValue? base c with
    | some d => digits? base true (n * base + d) cs
    | none => none

def integer? : List Char → Option Int
  | '0' :: 'x' :: cs => (digits? 16 false 0 cs).map Int.ofNat
  | '0' :: 'o' :: cs => (digits? 8 false 0 cs).map Int.ofNat
  | '0' :: 'b' :: cs => (digits? 2 false 0 cs).map Int.ofNat
  | '-' :: cs => (decimal? cs).map fun n => -Int.ofNat n
  | '+' :: cs => (decimal? cs).map Int.ofNat
  | cs => (decimal? cs).map Int.ofNat
where
  decimal? : List Char → Option Nat
    | ['0'] => some 0
    | '0' :: _ => none
    | cs => digits? 10 false 0 cs

def isBareKey (c : Char) : Bool :=
  c.isAlphanum || c == '_' || c == '-'

def readSegment? (cs : List Char) : Read String :=
  match cs with
  | '"' :: rest => (basicRest? rest).map fun (text, rest) => (String.ofList text, rest)
  | '\'' :: rest => (literalRest? rest).map fun (text, rest) => (String.ofList text, rest)
  | _ =>
    let name := cs.takeWhile isBareKey
    if name.isEmpty then none else some (String.ofList name, cs.dropWhile isBareKey)

/-- The segments of a dotted key, of which there are at most `steps`, with a gap after each. -/
def readKeyWithin? : Nat → List Char → Read (List String)
  | 0, _ => none
  | steps + 1, cs =>
    match readSegment? cs with
    | none => none
    | some (segment, rest) =>
      match skipGap rest with
      | '.' :: rest =>
        (readKeyWithin? steps (skipGap rest)).map fun (path, rest) => (segment :: path, rest)
      | rest => some ([segment], rest)

def readKey? (cs : List Char) : Read (List String) :=
  readKeyWithin? (cs.length + 1) cs

end SkeletonWeave.Toml
