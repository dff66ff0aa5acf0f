/-!
# Failures of configurations

A configuration file cannot be read, is malformed, or breaks a rule. A broken
rule is told with the place of the rejected value where it can be found.
-/

set_option autoImplicit false

namespace SkeletonWeave.Configuration

/-- The rule that a value breaks. `context` tells what the value is for. -/
inductive Violation where
  | reservedWord (name context : String)
  | invalidName (name context reason : String)
  | invalidPattern
  | other (message : String)
  deriving DecidableEq, Repr

namespace Violation

def message : Violation → String
  | reservedWord name _ => "'" ++ name ++ "' is a C++ reserved keyword"
  | invalidName name context _ => "invalid " ++ context ++ " '" ++ name ++ "'"
  | invalidPattern => "invalid disambiguation pattern"
  | other message => message

def code : Violation → String
  | reservedWord _ _ => "bridgegen::manifest::reserved_keyword"
  | invalidName _ _ _ => "bridgegen::manifest::invalid_identifier"
  | invalidPattern => "bridgegen::manifest::invalid_pattern"
  | other _ => "bridgegen::manifest::validation_error"

def help? : Violation → Option String
  | reservedWord _ context =>
    some ("the " ++ context ++ " is emitted into C++ source and must be a usable identifier")
  | invalidName _ _ reason =>
    some (reason ++ ". Use only letters, numbers, and underscores, starting with a letter or " ++
      "underscore.")
  | invalidPattern => some "the default pattern is ^([^_]*)_(.*)$"
  | other _ => none

end Violation

structure ValueSpan where
  start : Nat
  length : Nat
  deriving DecidableEq, Repr

inductive Error where
  | unreadable (path : String)
  | malformed (file : String)
  | violated (file : String) (span? : Option ValueSpan) (violation : Violation)
  deriving DecidableEq, Repr

namespace Error

def message : Error → String
  | unreadable path => "failed to read '" ++ path ++ "'"
  | malformed _ => "failed to parse bridge.toml"
  | violated _ _ v => v.message

def code? : Error → Option String
  | unreadable _ => none
  | malformed _ => some "bridgegen::manifest::parse_error"
  | violated _ _ v => some v.code

def help? : Error → Option String
  | unreadable _ => some "pass --config with the path of an existing bridge.toml"
  | malformed _ => none
  | violated _ _ v => v.help?

end Error

end SkeletonWeave.Configuration
