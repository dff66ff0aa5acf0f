import SkeletonWeave.Command.Job
import SkeletonWeave.Command.Report
import SkeletonWeave.Generation.Stage

/-!
# The check command

A check runs all stages but the last and reports what they remark. Failures are
a part of the report, except that the sources cannot be read.
-/

set_option autoImplicit false

namespace SkeletonWeave

/-- How far the methods of both sides are covered. No count of bridged methods is known if methods
could not be resolved. -/
structure CoverageSummary where
  handlerClass : String
  managerClass : String
  handlerCount : Nat
  managerCount : Nat
  ignoredCount : Nat
  bridged? : Option Nat
  uncovered : List String
  deriving DecidableEq, Repr

structure CheckReport where
  configurationPath? : Option String
  coverage? : Option CoverageSummary
  errors : List String
  warnings : List String
  infos : List String
  deriving DecidableEq, Repr

namespace CheckReport

/-- The message of a diagnostic, with its location on a second line. -/
def describe (d : Diagnostic) : String :=
  d.message ++
    match d.location? with
    | none => ""
    | some location => "\n  --> " ++ location

def coverageOf (g : Generation) : Option CoverageSummary :=
  g.inventory?.map fun i =>
    ⟨i.handlerClass, i.managerClass, i.handlerMethods.length, i.managerMethods.length,
      i.ignored.length, g.resolution?.map (·.plans.length), i.uncovered⟩

def messages (g : Generation) (severity : Severity) : List String :=
  (g.diagnostics.filter (·.severity = severity)).map describe

/-- A failure that the diagnostics do not tell is the first error. -/
def ofGeneration (configurationPath? : Option String) (g : Generation)
    (failure? : Option GenerationFailure) : CheckReport where
  configurationPath? := configurationPath?
  coverage? := coverageOf g
  errors :=
    (if g.errors.isEmpty then (failure?.map (·.describe)).toList else []) ++ messages g .error
  warnings := messages g .warning
  infos := messages g .info

def ofJob [PatternLibrary] (fs : FileSystem) (job : Job) : Except Source.Error CheckReport :=
  match Generation.runAll fs Stage.checking (.start job.configuration job.sources) with
  | ⟨_, some (.unreadable e)⟩ => .error e
  | ⟨g, failure?⟩ => .ok (ofGeneration job.configurationPath? g failure?)

def isValid (r : CheckReport) : Bool :=
  r.errors.isEmpty

def coverageEntries (c : CoverageSummary) : Report :=
  [.blank, .heading (c.handlerClass ++ " -> " ++ c.managerClass),
    .indentedKeyValue "handler methods" (Nat.repr c.handlerCount),
    .indentedKeyValue "manager methods" (Nat.repr c.managerCount),
    .indentedKeyValue "ignored" (Nat.repr c.ignoredCount)] ++
  (c.bridged?.map fun n => .indentedKeyValue "bridged" (Nat.repr n)).toList ++
  [.indentedKeyValue "uncovered" (Nat.repr c.uncovered.length)]

def render (r : CheckReport) : Report :=
  r.errors.map .error ++ r.warnings.map .warning ++
    r.infos.map (fun info => .preformatted ("info: " ++ info)) ++
    (if r.warnings.isEmpty && r.errors.isEmpty then [] else [.blank]) ++
    [.keyValue "Configuration" (r.configurationPath?.getD "built-in defaults")] ++
    r.coverage?.elim [] coverageEntries ++
    (if r.isValid then [.blank, .preformatted "✓ every handler method can be bridged"] else [])

end CheckReport

end SkeletonWeave
