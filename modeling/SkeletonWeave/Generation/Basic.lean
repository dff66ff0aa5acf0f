import SkeletonWeave.Bridge.Inventory
import SkeletonWeave.Bridge.Plan
import SkeletonWeave.Generation.Diagnostic
import SkeletonWeave.Generation.Failure

/-!
# Generations

A generation holds what it is told, the results of its stages so far, and what
the stages had to remark. A stage takes the results that it needs, and fails
where one is lacking.
-/

set_option autoImplicit false

namespace SkeletonWeave

structure ServerSource where
  path : String
  edits : List Edit
  content : String
  deriving DecidableEq, Repr

/-- `sources` are the resolved paths, and `skeleton?` is the file of the skeleton in the symbol
table. -/
structure Generation where
  configuration : Configuration
  sources : SourcesSection
  symbols? : Option SymbolTable
  skeleton? : Option Nat
  inventory? : Option Bridge.Inventory
  resolution? : Option Bridge.Resolution
  output? : Option ServerSource
  diagnostics : List Diagnostic

namespace Generation

def start (c : Configuration) (sources : SourcesSection) : Generation :=
  ⟨c, sources, none, none, none, none, none, []⟩

def remark (g : Generation) (remarks : List Diagnostic) : Generation :=
  { g with diagnostics := g.diagnostics ++ remarks }

def errors (g : Generation) : List Diagnostic :=
  g.diagnostics.filter (·.isError)

def warnings (g : Generation) : List Diagnostic :=
  g.diagnostics.filter (·.isWarning)

def require {α : Type} (r : Requirement) : Option α → Except GenerationFailure α
  | some a => .ok a
  | none => .error (.lacking r)

def symbols (g : Generation) : Except GenerationFailure SymbolTable :=
  require .symbols g.symbols?

def skeletonFile (g : Generation) : Except GenerationFailure Source.File := do
  let id ← require .skeleton g.skeleton?
  match (← g.symbols).file? id with
  | some file => .ok file
  | none => .error (.skeletonNotInTable id)

def inventory (g : Generation) : Except GenerationFailure Bridge.Inventory :=
  require .inventory g.inventory?

def resolution (g : Generation) : Except GenerationFailure Bridge.Resolution :=
  require .plans g.resolution?

def output (g : Generation) : Except GenerationFailure ServerSource :=
  require .output g.output?

def handlerClass (s : SymbolTable) (skeleton : Nat) (name : String) :
    Except GenerationFailure Class :=
  match s.classInFile? skeleton name with
  | some c => .ok c
  | none => .error (.bridge (.classNotFound name))

def managerClass (s : SymbolTable) (name : String) : Except GenerationFailure Class :=
  match s.class? name with
  | some c => .ok c
  | none => .error (.bridge (.classNotFound name))

def pattern [PatternLibrary] (c : Configuration) :
    Except GenerationFailure PatternLibrary.Compiled :=
  match PatternLibrary.compile? c.matching.pattern with
  | some p => .ok p
  | none => .error .invalidPattern

/-- A generation after a stage, and why the stage failed if it did. -/
structure Progress where
  state : Generation
  failure? : Option GenerationFailure

/-- The progress of a stage that changes nothing when it fails. -/
def Progress.ofResult (g : Generation) : Except GenerationFailure Generation → Progress
  | .ok next => ⟨next, none⟩
  | .error f => ⟨g, some f⟩

end Generation

end SkeletonWeave
