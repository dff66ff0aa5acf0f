import SkeletonWeave.Command.Needs

/-!
# The program

The files that a command may ask for are read, the command runs on them, and
what it changed is written.
-/

set_option autoImplicit false

namespace SkeletonWeave.Program

/-- The path free of links of what stands at a path of the disk, if something does. -/
def realPath? (path : String) : IO (Option String) := do
  try return some (← IO.FS.realPath path).toString
  catch _ => return none

def isDirectory (path : String) : IO Bool := do
  try return ← (← IO.FS.realPath path).isDir
  catch _ => return false

def readBytes? (path : String) : IO (Option ByteArray) := do
  try return some (← IO.FS.readBinFile path)
  catch _ => return none

/-- Takes over what stands at a location of the disk. A file that is reached through links becomes
a link to its real place. -/
def takeLocation (fs : FileSystem) (location : Location) : IO FileSystem := do
  let path := FileSystem.pathOf location
  if (fs.entry? location).isSome then return fs
  match ← realPath? path with
  | none => return fs
  | some real =>
    if ← isDirectory real then return fs.put location .directory
    match ← readBytes? real with
    | none => return fs
    | some bytes =>
      if real = path then return fs.put location (.file bytes)
      let mut fs := fs.put location (.link real)
      for place in fs.locationsOf real do
        if (fs.entry? place).isNone then fs := fs.put place .directory
      return fs.put ((Path.segments real).filter (· ≠ "")) (.file bytes)

def takePath (fs : FileSystem) (path : String) : IO FileSystem :=
  (fs.locationsOf path).foldlM takeLocation fs

/-- Takes over the files at paths and what their includes can mean. -/
partial def takeIncludes (options : ReadOptions) (fs : FileSystem) (read : List String) :
    List String → IO FileSystem
  | [] => return fs
  | path :: rest => do
    let fs ← takePath fs path
    match fs.canonical? path, fs.readText? path with
    | some canonical, some text =>
      if read.contains canonical then takeIncludes options fs read rest
      else
        takeIncludes options fs (canonical :: read)
          (Preprocess.includedPaths options canonical text ++ rest)
    | _, _ => takeIncludes options fs read rest

def takeNeeds (fs : FileSystem) (arguments : JobArguments) : IO FileSystem := do
  let fs ← takePath fs arguments.configurationPath
  match Job.ofArguments fs arguments with
  | .error _ => return fs
  | .ok job =>
    let fs ← takeIncludes job.readOptions fs [] job.rootFiles
    job.writtenPaths.foldlM takePath fs

def writeChanges (before after : FileSystem) : IO Unit :=
  (before.changedFiles after).forM fun (location, bytes) => do
    IO.FS.createDirAll (FileSystem.pathOf location.dropLast)
    IO.FS.writeBinFile (FileSystem.pathOf location) bytes

def run (arguments : List String) : IO UInt32 := do
  let here := (Path.segments (← IO.currentDir).toString).filter (· ≠ "")
  let fs ← takePath ⟨[], here⟩ "."
  let fs ←
    match (CommandLine.read? arguments).bind CommandLine.jobArguments? with
    | some job => takeNeeds fs job
    | none => pure fs
  let outcome := CommandLine.runArguments fs arguments
  writeChanges fs outcome.fileSystem
  IO.print outcome.output
  IO.eprint outcome.errorOutput
  return outcome.exitCode.toUInt32

end SkeletonWeave.Program

def main (arguments : List String) : IO UInt32 :=
  SkeletonWeave.Program.run arguments
