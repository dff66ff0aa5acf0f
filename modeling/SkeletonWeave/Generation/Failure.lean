import SkeletonWeave.Bridge.Failure
import SkeletonWeave.Edit.Basic
import SkeletonWeave.Source.Error

/-!
# Failures of generations

Why a stage, or what comes before and after it, cannot go on. A failure is told
by a chain of messages from what was attempted to what went wrong.
-/

set_option autoImplicit false

namespace SkeletonWeave

inductive Requirement where
  | symbols
  | skeleton
  | inventory
  | plans
  | output
  deriving DecidableEq, Repr

def Requirement.message : Requirement → String
  | symbols => "symbol table not available: the parse phase has not run"
  | skeleton => "skeleton not available: the parse phase has not run"
  | inventory => "inventory not available: the inventory phase has not run"
  | plans => "method plans not available: the resolve phase has not run"
  | output => "no output: the emit phase has not run"

inductive GenerationFailure where
  | lacking (r : Requirement)
  | unreadable (e : Source.Error)
  | skeletonNotRead (path : String)
  | skeletonNotInTable (file : Nat)
  | invalidPattern
  | bridge (e : Bridge.Failure)
  | unresolved (failures : List Bridge.Failure)
  | collision (c : EditCollision)
  /-- The program breaks off where a text is cut inside of a character. -/
  | aborted (position : Nat)
  | notCreated (path : String)
  | notWritten (path : String)
  | serverNotWritten (cause : GenerationFailure)
  | stopped (message : String)
  deriving Repr

namespace GenerationFailure

def chain : GenerationFailure → List String
  | lacking r => [r.message]
  | unreadable e => ["failed to parse C++ sources", e.message]
  | skeletonNotRead path => ["skeleton " ++ path ++ " is missing from the parsed files"]
  | skeletonNotInTable file =>
    ["skeleton file FileId(" ++ Nat.repr file ++ ") missing from the symbol table"]
  | invalidPattern => ["invalid disambiguation pattern"]
  | bridge e => [e.message]
  | unresolved failures =>
    ["Resolution failed with " ++ Nat.repr failures.length ++ " error(s):\n  " ++
      "\n  ".intercalate (failures.map (·.message))]
  | collision c => ["failed to patch the skeleton", c.message]
  | aborted position => ["byte index " ++ Nat.repr position ++ " is not a char boundary"]
  | notCreated path => ["failed to create " ++ path]
  | notWritten path => ["failed to write " ++ path]
  | serverNotWritten cause => "Failed to write the server source" :: cause.chain
  | stopped message => [message]

def message (f : GenerationFailure) : String :=
  f.chain.headD ""

def describe (f : GenerationFailure) : String :=
  ": ".intercalate f.chain

end GenerationFailure

end SkeletonWeave
