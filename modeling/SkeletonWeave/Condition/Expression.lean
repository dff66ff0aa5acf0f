import SkeletonWeave.Condition.Macros

/-!
# Conditions

A condition is an expression over integers, names and `defined` tests. Its
value is an integer; comparisons and connectives answer with one or zero, and
both operands of a connective are always evaluated.
-/

set_option autoImplicit false

namespace SkeletonWeave

inductive Comparison where
  | equal
  | unequal
  | less
  | greater
  | lessOrEqual
  | greaterOrEqual
  deriving DecidableEq, Repr

namespace Comparison

def holds : Comparison → Int → Int → Bool
  | equal, a, b => a == b
  | unequal, a, b => a != b
  | less, a, b => decide (a < b)
  | greater, a, b => decide (b < a)
  | lessOrEqual, a, b => decide (a ≤ b)
  | greaterOrEqual, a, b => decide (b ≤ a)

def sign : Comparison → String
  | equal => "=="
  | unequal => "!="
  | less => "<"
  | greater => ">"
  | lessOrEqual => "<="
  | greaterOrEqual => ">="

def ofSign? (s : String) : Option Comparison :=
  [equal, unequal, less, greater, lessOrEqual, greaterOrEqual].find? fun c => c.sign == s

theorem ofSign?_sign (c : Comparison) : ofSign? c.sign = some c := by
  cases c <;> rfl

end Comparison

inductive Condition where
  | literal (value : Nat)
  | name (text : String)
  | isDefined (name : String)
  | not (operand : Condition)
  | negative (operand : Condition)
  | compare (comparison : Comparison) (left right : Condition)
  | and (left right : Condition)
  | or (left right : Condition)
  deriving DecidableEq, Repr, Inhabited

namespace Condition

def ofBool (b : Bool) : Int := if b then 1 else 0

def value (isKnown : String → Bool) (worth : String → Int) : Condition → Int
  | literal n => n
  | name text => worth text
  | isDefined text => ofBool (isKnown text)
  | not a => ofBool (a.value isKnown worth == 0)
  | negative a => -a.value isKnown worth
  | compare c a b => ofBool (c.holds (a.value isKnown worth) (b.value isKnown worth))
  | and a b => ofBool (a.value isKnown worth != 0 && b.value isKnown worth != 0)
  | or a b => ofBool (a.value isKnown worth != 0 || b.value isKnown worth != 0)

end Condition

end SkeletonWeave
