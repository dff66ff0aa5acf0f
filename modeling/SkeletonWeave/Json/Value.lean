import SkeletonWeave.Text.Search

/-!
# JSON values

Values whose objects keep their fields in order, and their text with one item a
line and two spaces for each level.
-/

set_option autoImplicit false

namespace SkeletonWeave.Json

inductive Value where
  | null
  | boolean (b : Bool)
  | number (n : Nat)
  | string (s : String)
  | array (values : List Value)
  | object (fields : List (String × Value))
  deriving Repr, Inhabited

def escapeChar (c : Char) : List Char :=
  match c with
  | '"' => ['\\', '"']
  | '\\' => ['\\', '\\']
  | '\n' => ['\\', 'n']
  | '\r' => ['\\', 'r']
  | '\t' => ['\\', 't']
  | '\x08' => ['\\', 'b']
  | '\x0c' => ['\\', 'f']
  | c =>
    if c.toNat < 0x20 then
      "\\u00".toList ++ [Nat.digitChar (c.toNat / 16), Nat.digitChar (c.toNat % 16)]
    else [c]

def quote (s : String) : String :=
  "\"" ++ String.ofList (s.toList.flatMap escapeChar) ++ "\""

namespace Value

def ofStrings (texts : List String) : Value :=
  array (texts.map string)

def ofOption {α : Type} (encode : α → Value) : Option α → Value
  | some a => encode a
  | none => null

def optionalField {α : Type} (name : String) (encode : α → Value) (a? : Option α) :
    List (String × Value) :=
  (a?.map fun a => (name, encode a)).toList

/-- Items between brackets, each on a line of its own under the margin. -/
def bracketed (opening closing margin : String) (items : List String) : String :=
  if items.isEmpty then opening ++ closing
  else
    opening ++ "\n" ++ ",\n".intercalate (items.map fun item => margin ++ "  " ++ item) ++ "\n" ++
      margin ++ closing

mutual

def prettyAt (margin : String) : Value → String
  | null => "null"
  | boolean b => if b then "true" else "false"
  | number n => Nat.repr n
  | string s => quote s
  | array values => bracketed "[" "]" margin (prettyItems (margin ++ "  ") values)
  | object fields =>
    bracketed "\x7b" "\x7d" margin (prettyFields (margin ++ "  ") fields)

def prettyItems (margin : String) : List Value → List String
  | [] => []
  | v :: vs => prettyAt margin v :: prettyItems margin vs

def prettyFields (margin : String) : List (String × Value) → List String
  | [] => []
  | (name, v) :: fields =>
    (quote name ++ ": " ++ prettyAt margin v) :: prettyFields margin fields

end

def pretty (v : Value) : String :=
  prettyAt "" v

end Value

end SkeletonWeave.Json
