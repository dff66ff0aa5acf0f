import SkeletonWeave.Command.Check
import SkeletonWeave.Command.Generate
import SkeletonWeave.Command.Help
import SkeletonWeave.Configuration.Decode
import SkeletonWeave.Pattern.Reader

/-!
# Running command lines

A command line changes the file system, writes to the output and the error
stream, and ends with an exit code: zero for success, one for a failure, two
for arguments that make no sense, and 101 where the program breaks off. It reads
configurations in TOML and patterns in the notation of `Pattern.read?`.
-/

set_option autoImplicit false

namespace SkeletonWeave

structure CommandOutcome where
  fileSystem : FileSystem
  output : String
  errorOutput : String
  exitCode : Nat

namespace CommandOutcome

def failed (fs : FileSystem) (message : String) : CommandOutcome :=
  ⟨fs, "", "Error: " ++ message ++ "\n", 1⟩

def aborted (fs : FileSystem) (message : String) : CommandOutcome :=
  ⟨fs, "", message ++ "\n", 101⟩

def ofReport (fs : FileSystem) (r : Report) (exitCode : Nat) : CommandOutcome :=
  ⟨fs, r.output, r.errorOutput, exitCode⟩

def told (fs : FileSystem) (output : String) : CommandOutcome :=
  ⟨fs, output, "", 0⟩

def misused (fs : FileSystem) : CommandOutcome :=
  ⟨fs, "", Report.ofLines ("error: wrong arguments" :: "" :: HelpTopic.lines .program), 2⟩

end CommandOutcome

namespace CommandLine

open CommandOutcome

def runCheck (fs : FileSystem) (arguments : JobArguments) : CommandOutcome :=
  match Job.ofArguments fs arguments with
  | .error e => failed fs e.message
  | .ok job =>
    match CheckReport.ofJob fs job with
    | .error e => failed fs e.message
    | .ok report => ofReport fs report.render (if report.isValid then 0 else 1)

def runGenerate (fs : FileSystem) (arguments : JobArguments) (options : GenerateOptions) :
    CommandOutcome :=
  match Job.ofArguments fs arguments with
  | .error e => failed fs e.message
  | .ok job =>
    match GenerateReport.ofJob fs job options with
    | (fs, .error (.aborted position)) => aborted fs (GenerationFailure.aborted position).describe
    | (fs, .error f) => failed fs f.describe
    | (fs, .ok report) => ofReport fs report.render 0

def run (fs : FileSystem) : CommandLine → CommandOutcome
  | generate arguments options => runGenerate fs arguments options
  | check arguments => runCheck fs arguments
  | version => told fs (programName ++ " " ++ programVersion ++ "\n")
  | help topic => told fs (Report.ofLines topic.lines)

def runArguments (fs : FileSystem) (arguments : List String) : CommandOutcome :=
  match read? arguments with
  | some line => line.run fs
  | none => misused fs

end CommandLine

end SkeletonWeave
