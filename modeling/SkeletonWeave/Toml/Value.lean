/-!
# TOML values

The values that a configuration can hold. Numbers with a fraction, dates and
times are left out: no setting takes one, so a text that has one is refused.
A table keeps its entries in the order of its keys' first use.
-/

set_option autoImplicit false

namespace SkeletonWeave.Toml

inductive Value where
  | string (s : String)
  | integer (n : Int)
  | boolean (b : Bool)
  | array (values : List Value)
  | table (entries : List (String × Value))
  deriving Repr, Inhabited

/-- How a table came about: under a header of its own, as a part of another header, or as a part
of a dotted key. -/
inductive Origin where
  | header
  | implied
  | dotted
  deriving DecidableEq, Repr

/-- What stands under a key while a document is read: a value that is complete, a table or a list
of tables that can still grow. -/
inductive Node where
  | closed (value : Value)
  | table (origin : Origin) (entries : List (String × Node))
  | tables (elements : List (List (String × Node)))
  deriving Repr, Inhabited

abbrev Entries := List (String × Node)

namespace Entries

def replace (key : String) (node : Node) (entries : Entries) : Entries :=
  entries.map fun entry => if entry.1 == key then (key, node) else entry

/-- Puts a value under a dotted key. Tables on the way must come from dotted keys or headers of
tables inside of them. -/
def assign? (value : Value) : List String → Entries → Option Entries
  | [], _ => none
  | [key], entries =>
    match entries.lookup key with
    | none => some (entries ++ [(key, .closed value)])
    | some _ => none
  | key :: path, entries =>
    match entries.lookup key with
    | none => (assign? value path []).map fun inner => entries ++ [(key, .table .dotted inner)]
    | some (.table .header _) => none
    | some (.table origin inner) =>
      (assign? value path inner).map fun inner => replace key (.table origin inner) entries
    | some _ => none

def modifyAt? (change : Entries → Option Entries) : List String → Entries → Option Entries
  | [], entries => change entries
  | key :: path, entries =>
    match entries.lookup key with
    | none => (modifyAt? change path []).map fun inner => entries ++ [(key, .table .implied inner)]
    | some (.table origin inner) =>
      (modifyAt? change path inner).map fun inner => replace key (.table origin inner) entries
    | some (.tables elements) =>
      match elements.getLast? with
      | none => none
      | some last =>
        (modifyAt? change path last).map fun last =>
          replace key (.tables (elements.dropLast ++ [last])) entries
    | some (.closed _) => none

/-- Opens the table of a header. A table may be opened once, also after tables inside of it. -/
def openTable? (key : String) (entries : Entries) : Option Entries :=
  match entries.lookup key with
  | none => some (entries ++ [(key, .table .header [])])
  | some (.table .implied inner) => some (replace key (.table .header inner) entries)
  | some _ => none

def openElement? (key : String) (entries : Entries) : Option Entries :=
  match entries.lookup key with
  | none => some (entries ++ [(key, .tables [[]])])
  | some (.tables elements) => some (replace key (.tables (elements ++ [[]])) entries)
  | some _ => none

end Entries

mutual

def Node.toValue : Node → Value
  | .closed value => value
  | .table _ entries => .table (entriesToValues entries)
  | .tables elements => .array (elementsToValues elements)

def entriesToValues : List (String × Node) → List (String × Value)
  | [] => []
  | (key, node) :: rest => (key, node.toValue) :: entriesToValues rest

def elementsToValues : List (List (String × Node)) → List Value
  | [] => []
  | entries :: rest => .table (entriesToValues entries) :: elementsToValues rest

end

end SkeletonWeave.Toml
