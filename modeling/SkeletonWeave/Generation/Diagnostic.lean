/-!
# Diagnostics

What the stages of a generation tell besides their results.
-/

set_option autoImplicit false

namespace SkeletonWeave

inductive Severity where
  | error
  | warning
  | info
  deriving DecidableEq, Repr

def Severity.name : Severity → String
  | error => "error"
  | warning => "warning"
  | info => "info"

structure Diagnostic where
  severity : Severity
  stage : String
  message : String
  location? : Option String
  deriving DecidableEq, Repr

namespace Diagnostic

def isError (d : Diagnostic) : Bool :=
  d.severity = .error

def isWarning (d : Diagnostic) : Bool :=
  d.severity = .warning

def describe (d : Diagnostic) : String :=
  d.severity.name ++ ": " ++ d.message ++
    match d.location? with
    | none => ""
    | some location => " (at " ++ location ++ ")"

end Diagnostic

end SkeletonWeave
