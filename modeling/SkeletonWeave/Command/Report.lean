/-!
# Reports

A report is a list of entries, which a terminal shows one after the other:
errors and warnings on its error stream, all others on its output.
-/

set_option autoImplicit false

namespace SkeletonWeave

inductive ReportEntry where
  | heading (text : String)
  | keyValue (key value : String)
  | indentedKeyValue (key value : String)
  | item (text : String)
  | error (text : String)
  | warning (text : String)
  | divider (text : String)
  | preformatted (text : String)
  | blank
  deriving DecidableEq, Repr

namespace ReportEntry

def output? : ReportEntry → Option String
  | heading text => some (text ++ ":")
  | keyValue key value => some (key ++ ": " ++ value)
  | indentedKeyValue key value => some ("  " ++ key ++ ": " ++ value)
  | item text => some ("  - " ++ text)
  | error _ | warning _ => none
  | divider text => some ("── " ++ text ++ " ──")
  | preformatted text => some text
  | blank => some ""

def errorOutput? : ReportEntry → Option String
  | error text => some ("error: " ++ text)
  | warning text => some ("warning: " ++ text)
  | _ => none

end ReportEntry

abbrev Report := List ReportEntry

namespace Report

def ofLines (lines : List String) : String :=
  String.join (lines.map (· ++ "\n"))

def output (r : Report) : String :=
  ofLines (r.filterMap ReportEntry.output?)

def errorOutput (r : Report) : String :=
  ofLines (r.filterMap ReportEntry.errorOutput?)

end Report

end SkeletonWeave
