import SkeletonWeave.Command.Job
import SkeletonWeave.Command.Report
import SkeletonWeave.Generation.Snapshot

/-!
# The generate command

All stages are run, and the source of the server is written when all have
succeeded, or shown instead. Snapshots of the stages can be kept beside it.
-/

set_option autoImplicit false

namespace SkeletonWeave

structure GenerateOptions where
  dryRun : Bool
  visualize : Bool
  deriving DecidableEq, Repr

inductive GenerateResult where
  | written (path : String) (snapshots? : Option String)
  | preview (path content : String) (editCount : Nat)
  deriving DecidableEq, Repr

structure GenerateReport where
  handlerClass : String
  managerClass : String
  bridged : Nat
  skipped : List String
  stubs : List String
  warnings : List String
  result : GenerateResult
  deriving DecidableEq, Repr

namespace ServerSource

def write (s : ServerSource) (fs : FileSystem) : FileSystem × Option GenerationFailure :=
  let dir := (Path.parent? s.path).getD ""
  match fs.makeDirectories? dir with
  | none => (fs, some (.notCreated dir))
  | some fs =>
    match fs.writeText? s.path s.content with
    | none => (fs, some (.notWritten s.path))
    | some fs => (fs, none)

end ServerSource

namespace GenerateReport

def snapshotDirectory (job : Job) : String :=
  Path.join job.workingDirectory ".bridgegen/debug"

def runJob [PatternLibrary] (fs : FileSystem) (job : Job) (options : GenerateOptions) :
    Generation.Run FileSystem :=
  let start := Generation.start job.configuration job.sources
  if options.visualize then
    Generation.runStages fs (Snapshot.recorder (snapshotDirectory job)) Stage.all start fs
  else
    let progress := Generation.runAll fs Stage.all start
    ⟨progress.state, fs, progress.failure?⟩

def ofResult (g : Generation) (result : GenerateResult) : Except GenerationFailure GenerateReport := do
  let resolution ← g.resolution
  let inventory ← g.inventory
  return ⟨inventory.handlerClass, inventory.managerClass, resolution.plans.length,
    resolution.skipped, resolution.stubs.stubs.map (·.name), g.warnings.map (·.describe), result⟩

def finish (job : Job) (options : GenerateOptions) (g : Generation) (fs : FileSystem) :
    FileSystem × Except GenerationFailure GenerateReport :=
  match g.output with
  | .error f => (fs, .error f)
  | .ok output =>
    if options.dryRun then
      (fs, ofResult g (.preview output.path output.content output.edits.length))
    else
      match output.write fs with
      | (fs, some f) => (fs, .error (.serverNotWritten f))
      | (fs, none) =>
        let snapshots? := if options.visualize then some (snapshotDirectory job) else none
        (fs, ofResult g (.written output.path snapshots?))

/-- Generates the server of a job. Files that were written before a failure stay. -/
def ofJob [PatternLibrary] (fs : FileSystem) (job : Job) (options : GenerateOptions) :
    FileSystem × Except GenerationFailure GenerateReport :=
  match runJob fs job options with
  | ⟨_, fs, some f⟩ => (fs, .error f)
  | ⟨g, fs, none⟩ => finish job options g fs

def renderWritten (r : GenerateReport) (path : String) (snapshots? : Option String) : Report :=
  snapshots?.elim [] (fun dir => [.keyValue "Pipeline snapshots written to" dir, .blank]) ++
    r.warnings.map .warning ++ (if r.warnings.isEmpty then [] else [.blank]) ++
    [.heading (r.handlerClass ++ " -> " ++ r.managerClass),
      .indentedKeyValue "bridged" (Nat.repr r.bridged)] ++
    (if r.skipped.isEmpty then []
      else [.indentedKeyValue "unchanged" (", ".intercalate r.skipped)]) ++
    (if r.stubs.isEmpty then []
      else [.blank, .heading "Callback stubs to fill in"] ++ r.stubs.map .item) ++
    [.blank, .keyValue "Generated" path]

def renderPreview (r : GenerateReport) (path content : String) (editCount : Nat) : Report :=
  r.warnings.map .warning ++
    [.divider path, .preformatted content, .divider "Summary",
      .preformatted (Nat.repr editCount ++ " edits, " ++ Nat.repr r.bridged ++
        " methods bridged; nothing written")]

def render (r : GenerateReport) : Report :=
  match r.result with
  | .written path snapshots? => r.renderWritten path snapshots?
  | .preview path content editCount => r.renderPreview path content editCount

end GenerateReport

end SkeletonWeave
