import SkeletonWeave.Source.Place

/-!
# Failures of reading source text

Reading fails because a file cannot be read, or at a place of a file for a
cause. A cause knows its message, its code and, where there is advice, its help.
-/

set_option autoImplicit false

namespace SkeletonWeave.Source

inductive Cause where
  | unterminatedComment
  | unterminatedString
  | unterminatedCharacter
  | unbalanced (delimiter : String)
  | unexpected (token : String)
  | unterminatedConditional (directive : String)
  | danglingDirective (directive : String)
  deriving DecidableEq, Repr

namespace Cause

def message : Cause → String
  | unterminatedComment => "unterminated comment"
  | unterminatedString => "unterminated string literal"
  | unterminatedCharacter => "unterminated character literal"
  | unbalanced delimiter => "unbalanced '" ++ delimiter ++ "'"
  | unexpected token => "unexpected '" ++ token ++ "'"
  | unterminatedConditional directive => "unterminated #" ++ directive
  | danglingDirective directive => "#" ++ directive ++ " without matching #if"

def code : Cause → String
  | unterminatedComment => "bridgegen::cpp::unterminated_comment"
  | unterminatedString | unterminatedCharacter => "bridgegen::cpp::unterminated_literal"
  | unbalanced _ => "bridgegen::cpp::unbalanced"
  | unexpected _ => "bridgegen::cpp::unexpected"
  | unterminatedConditional _ => "bridgegen::cpp::unterminated_conditional"
  | danglingDirective _ => "bridgegen::cpp::dangling_directive"

def help? : Cause → Option String
  | unterminatedConditional _ => some "every #if, #ifdef and #ifndef needs a matching #endif"
  | _ => none

end Cause

inductive Error where
  | unreadable (path : String)
  | located (cause : Cause) (file : String) (start length : Nat)
  deriving DecidableEq, Repr

namespace Error

def message : Error → String
  | unreadable path => "failed to read '" ++ path ++ "'"
  | located cause _ _ _ => cause.message

def code : Error → String
  | unreadable _ => "bridgegen::cpp::io"
  | located cause _ _ _ => cause.code

def help? : Error → Option String
  | unreadable _ =>
    some "check --ozwroot / --thriftroot and the [sources] section of bridge.toml"
  | located cause _ _ _ => cause.help?

end Error

end SkeletonWeave.Source
