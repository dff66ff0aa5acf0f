import SkeletonWeave.Command.Run

/-!
# The files of a command

Which paths a command may ask for: those that its job names, and those that the
includes of a file can mean. Conditions are left out of account, so the answer
holds more than is read in the end.
-/

set_option autoImplicit false

namespace SkeletonWeave

namespace FileSystem

/-- The locations that a path leads through when there are no links on its way. -/
def locationsAlong (here : Location) : List String → List Location
  | [] => [here]
  | s :: rest =>
    if s = "" || s = "." then locationsAlong here rest
    else if s = ".." then here :: locationsAlong here.dropLast rest
    else here :: locationsAlong (here ++ [s]) rest

def locationsOf (fs : FileSystem) (path : String) : List Location :=
  if Path.isAbsolute path then locationsAlong [] (Path.segments path)
  else locationsAlong [] (fs.workingDirectory ++ Path.segments path)

end FileSystem

namespace Preprocess

def includedPaths (options : ReadOptions) (path text : String) : List String :=
  match Token.lex 0 path text with
  | .error _ => []
  | .ok tokens =>
    (tokens.filter (·.kind = .directive)).flatMap fun t =>
      let (name, rest) := Directive.splitName t.text.toList
      if name = "include".toList || name = "import".toList then
        ((Directive.target? rest).map (candidates options (Path.parent? path))).getD []
      else []

end Preprocess

namespace CommandLine

def jobArguments? : CommandLine → Option JobArguments
  | generate arguments _ => some arguments
  | check arguments => some arguments
  | version | help _ => none

end CommandLine

namespace JobArguments

def configurationPath (a : JobArguments) : String :=
  a.configuration?.getD ConfigurationFile.usualName

end JobArguments

namespace Job

def rootFiles (job : Job) : List String :=
  [job.sources.skeleton, job.sources.managerHeader]

def writtenPaths (job : Job) : List String :=
  job.sources.output ::
    Stage.all.map fun stage =>
      Path.join (GenerateReport.snapshotDirectory job) (Snapshot.fileName stage)

def readOptions (job : Job) : ReadOptions :=
  ⟨job.sources.includeDirs, job.sources.defines, job.sources.ignoredMacros⟩

end Job

end SkeletonWeave
