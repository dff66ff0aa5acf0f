import SkeletonWeave.Configuration.Basic
import SkeletonWeave.Toml.Document

/-!
# Configurations in TOML

Each section is a table of its settings, or a list of them in their order. A
setting that is unknown or has a value of another kind makes the whole text
malformed; a setting that is absent keeps its default.
-/

set_option autoImplicit false

namespace SkeletonWeave.Configuration

open Toml (Value)

/-- A setting of a section: its key, and how its value changes the section. -/
abbrev Setting (σ : Type) := String × (Value → σ → Option σ)

def text? : Value → Option String
  | .string s => some s
  | _ => none

def texts? : Value → Option (List String)
  | .array values => values.mapM text?
  | _ => none

def flag? : Value → Option Bool
  | .boolean b => some b
  | _ => none

/-- A count of at most eight bytes. -/
def count? : Value → Option Nat
  | .integer n => if 0 ≤ n ∧ n.toNat < UInt64.size then some n.toNat else none
  | _ => none

/-- A style: its name, or a table with its name as the only key and nothing under it. -/
def indentStyle? (v : Value) : Option IndentStyle :=
  let named (name : String) : Option IndentStyle :=
    [("tab", IndentStyle.tab), ("spaces", .spaces)].lookup name
  match v with
  | .string name => named name
  | .table [(name, .table [])] => named name
  | .table [(name, .array [])] => named name
  | _ => none

def textTable? : Value → Option (List (String × String))
  | .table entries => do
    let texts ← entries.mapM fun (key, value) => (text? value).map fun text => (key, text)
    return texts.mergeSort fun a b => a.1 ≤ b.1
  | _ => none

def decodeSection {σ : Type} (settings : List (Setting σ)) (initial : σ) : Value → Option σ
  | .table entries =>
    entries.foldlM (fun s (key, value) => do (← settings.lookup key) value s) initial
  | .array values =>
    (values.zip settings).foldlM (fun s (value, setting) => setting.2 value s) initial
  | _ => none

def sourcesSettings : List (Setting SourcesSection) :=
  [("skeleton", fun v s => (text? v).map fun x => { s with skeleton := x }),
    ("output", fun v s => (text? v).map fun x => { s with output := x }),
    ("manager_header", fun v s => (text? v).map fun x => { s with managerHeader := x }),
    ("include_dirs", fun v s => (texts? v).map fun x => { s with includeDirs := x }),
    ("defines", fun v s => (texts? v).map fun x => { s with defines := x }),
    ("ignored_macros", fun v s => (texts? v).map fun x => { s with ignoredMacros := x })]

def handlerSettings : List (Setting HandlerSection) :=
  [("class", fun v s => (text? v).map fun x => { s with className := x }),
    ("return_argument", fun v s => (text? v).map fun x => { s with returnArgument := x }),
    ("retval_field", fun v s => (text? v).map fun x => { s with resultField := x })]

def managerSettings : List (Setting ManagerSection) :=
  [("class", fun v s => (text? v).map fun x => { s with className := x }),
    ("singleton_accessor", fun v s => (text? v).map fun x => { s with accessor := x }),
    ("variable", fun v s => (text? v).map fun x => { s with objectName := x }),
    ("ignored_methods", fun v s => (texts? v).map fun x => { s with ignoredMethods := x })]

def matchingSettings : List (Setting MatchingSection) :=
  [("disambiguation_pattern", fun v s => (text? v).map fun x => { s with pattern := x }),
    ("callback_marker", fun v s => (text? v).map fun x => { s with callbackMarker := x }),
    ("context_marker", fun v s => (text? v).map fun x => { s with contextMarker := x }),
    ("context_expression", fun v s => (text? v).map fun x => { s with contextExpression := x }),
    ("conversions", fun v s => (textTable? v).map fun x => { s with conversions := x })]

def emitSettings : List (Setting EmitSection) :=
  [("lock", fun v s => (text? v).map fun x => { s with lock := x }),
    ("result_variable", fun v s => (text? v).map fun x => { s with resultVariable := x }),
    ("indent", fun v s => (indentStyle? v).map fun x => { s with indent := x }),
    ("indent_width", fun v s => (count? v).map fun x => { s with indentWidth := x }),
    ("comment_out_main", fun v s => (flag? v).map fun x => { s with commentOutMain := x }),
    ("banner", fun v s => (texts? v).map fun x => { s with banner := x })]

def settings : List (Setting Configuration) :=
  [("sources", fun v c =>
      (decodeSection sourcesSettings c.sources v).map fun x => { c with sources := x }),
    ("handler", fun v c =>
      (decodeSection handlerSettings c.handler v).map fun x => { c with handler := x }),
    ("manager", fun v c =>
      (decodeSection managerSettings c.manager v).map fun x => { c with manager := x }),
    ("matching", fun v c =>
      (decodeSection matchingSettings c.matching v).map fun x => { c with matching := x }),
    ("emit", fun v c =>
      (decodeSection emitSettings c.emit v).map fun x => { c with emit := x })]

def decode? (v : Value) : Option Configuration :=
  decodeSection settings .default v

def ofToml? (text : String) : Option Configuration := do
  decode? (.table (← Toml.read? text))

instance toml : ConfigurationFormat := ⟨ofToml?⟩

end SkeletonWeave.Configuration
