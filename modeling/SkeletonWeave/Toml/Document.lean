import SkeletonWeave.Toml.Scalar

/-!
# TOML documents

A document is a list of lines: headers, which open tables, and entries, which
put a value under a key of the open table.
-/

set_option autoImplicit false

namespace SkeletonWeave.Toml

def skipLines? : Nat → List Char → Option (List Char)
  | 0, _ => none
  | steps + 1, cs =>
    match skipGap cs with
    | '#' :: rest =>
      match rest.dropWhile isText with
      | [] => some []
      | rest => (lineEnd? rest).bind (skipLines? steps)
    | rest =>
      match lineEnd? rest with
      | some rest => skipLines? steps rest
      | none => some rest

def skipBlank? (cs : List Char) : Option (List Char) :=
  skipLines? (cs.length + 1) cs

def endLine? (cs : List Char) : Option (List Char) :=
  let rest :=
    match skipGap cs with
    | '#' :: rest => rest.dropWhile isText
    | rest => rest
  if rest.isEmpty then some [] else lineEnd? rest

/-- Whether a character may belong to a word such as a number or `true`. -/
def isWordPart (c : Char) : Bool :=
  c.isAlphanum || c == '_' || c == '-' || c == '+' || c == '.' || c == ':'

def wordValue? (word : List Char) : Option Value :=
  if word = "true".toList then some (.boolean true)
  else if word = "false".toList then some (.boolean false)
  else (integer? word).map .integer

mutual

def readValue? : Nat → List Char → Read Value
  | 0, _ => none
  | steps + 1, cs =>
    match readString? cs with
    | some read => read.map fun (s, rest) => (.string s, rest)
    | none =>
      match cs with
      | '[' :: rest =>
        (readElements? steps [] rest).map fun (values, rest) => (.array values, rest)
      | '{' :: rest =>
        (readPairs? steps [] rest).map fun (entries, rest) =>
          (.table (entriesToValues entries), rest)
      | _ =>
        match wordValue? (cs.takeWhile isWordPart) with
        | some value => some (value, cs.dropWhile isWordPart)
        | none => none

def readElements? : Nat → List Value → List Char → Read (List Value)
  | 0, _, _ => none
  | steps + 1, found, cs =>
    match skipBlank? cs with
    | none => none
    | some (']' :: rest) => some (found.reverse, rest)
    | some cs =>
      match readValue? steps cs with
      | none => none
      | some (value, rest) =>
        match skipBlank? rest with
        | some (',' :: rest) => readElements? steps (value :: found) rest
        | some (']' :: rest) => some ((value :: found).reverse, rest)
        | _ => none

def readPairs? : Nat → Entries → List Char → Read Entries
  | 0, _, _ => none
  | steps + 1, found, cs =>
    match skipBlank? cs with
    | none => none
    | some ('}' :: rest) => some (found, rest)
    | some cs =>
      match readKey? cs with
      | some (key, '=' :: rest) =>
        match readValue? steps (skipGap rest) with
        | none => none
        | some (value, rest) =>
          match Entries.assign? value key found, skipBlank? rest with
          | some found, some (',' :: rest) => readPairs? steps found rest
          | some found, some ('}' :: rest) => some (found, rest)
          | _, _ => none
      | _ => none

end

/-- A document while it is read: its root table, and the path of the table that is open. -/
structure Draft where
  root : Entries
  path : List String

def Draft.open? (d : Draft) (isElement : Bool) (path : List String) : Option Draft := do
  let last ← path.getLast?
  let change := if isElement then Entries.openElement? last else Entries.openTable? last
  return ⟨← Entries.modifyAt? change path.dropLast d.root, path⟩

def Draft.assign? (d : Draft) (key : List String) (value : Value) : Option Draft :=
  (Entries.modifyAt? (Entries.assign? value key) d.path d.root).map fun root =>
    { d with root := root }

def readLine? (d : Draft) (cs : List Char) : Read Draft :=
  match cs with
  | '[' :: '[' :: rest =>
    match readKey? (skipGap rest) with
    | some (path, ']' :: ']' :: rest) => (d.open? true path).map fun d => (d, rest)
    | _ => none
  | '[' :: rest =>
    match readKey? (skipGap rest) with
    | some (path, ']' :: rest) => (d.open? false path).map fun d => (d, rest)
    | _ => none
  | _ =>
    match readKey? cs with
    | some (key, '=' :: rest) =>
      let rest := skipGap rest
      match readValue? (2 * rest.length + 2) rest with
      | some (value, rest) => (d.assign? key value).map fun d => (d, rest)
      | none => none
    | _ => none

def readLines? : Nat → Draft → List Char → Option Draft
  | 0, _, _ => none
  | steps + 1, d, cs => do
    match ← skipBlank? cs with
    | [] => return d
    | cs =>
      let (d, rest) ← readLine? d cs
      readLines? steps d (← endLine? rest)

/-- The root table of a document; a byte order mark at its start is passed over. -/
def read? (text : String) : Option (List (String × Value)) := do
  let cs := text.toList
  let cs := if cs.head? == some (Char.ofNat 0xFEFF) then cs.tail else cs
  let d ← readLines? (cs.length + 1) ⟨[], []⟩ cs
  return entriesToValues d.root

end SkeletonWeave.Toml
