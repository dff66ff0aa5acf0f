import SkeletonWeave.Bridge.Json
import SkeletonWeave.FileSystem.Write
import SkeletonWeave.Generation.Stage

/-!
# Snapshots

What a generation has found after a stage, and the files in which it is kept
for study: one for each stage, as JSON.
-/

set_option autoImplicit false

namespace SkeletonWeave

open Json (Value)
open Json.Value (optionalField)

def Edit.toJson (e : Edit) : Value :=
  .object [("start", .number e.start), ("end", .number e.stop),
    ("replacement", .string e.replacement), ("label", .string e.label)]

/-- The content of the server is left out: it follows from the edits. -/
def ServerSource.toJson (s : ServerSource) : Value :=
  .object [("path", .string s.path),
    ("patch", .object [("edits", .array (s.edits.map Edit.toJson))])]

def Diagnostic.toJson (d : Diagnostic) : Value :=
  .object [("severity", .string d.severity.name), ("phase", .string d.stage),
    ("message", .string d.message), ("location", .ofOption Value.string d.location?)]

structure Snapshot where
  stage : Stage
  files : List String
  inventory? : Option Bridge.Inventory
  resolution? : Option Bridge.Resolution
  output? : Option ServerSource
  diagnostics : List Diagnostic

namespace Snapshot

def ofGeneration (stage : Stage) (g : Generation) : Snapshot where
  stage := stage
  files := (g.symbols?.elim [] (·.files)).map (·.path)
  inventory? := g.inventory?
  resolution? := g.resolution?
  output? := g.output?
  diagnostics := g.diagnostics

def toJson (s : Snapshot) : Value :=
  .object ([("phase", .string s.stage.name)] ++
    (if s.files.isEmpty then [] else [("files", .ofStrings s.files)]) ++
    optionalField "inventory" Bridge.Inventory.toJson s.inventory? ++
    optionalField "resolution" Bridge.Resolution.toJson s.resolution? ++
    optionalField "output" ServerSource.toJson s.output? ++
    [("diagnostics", .array (s.diagnostics.map Diagnostic.toJson))])

def fileName (stage : Stage) : String :=
  stage.name ++ ".json"

def write (dir : String) (s : Snapshot) (fs : FileSystem) :
    FileSystem × Option GenerationFailure :=
  match fs.makeDirectories? dir with
  | none => (fs, some (.notCreated dir))
  | some fs =>
    let path := Path.join dir (fileName s.stage)
    match fs.writeText? path s.toJson.pretty with
    | none => (fs, some (.notWritten path))
    | some fs => (fs, none)

def recorder (dir : String) : Observer FileSystem where
  before _ _ fs := (fs, none)
  after stage g fs := (ofGeneration stage g).write dir fs

end Snapshot

end SkeletonWeave
