import SkeletonWeave.FileSystem.Basic

/-!
# Changing a file system

Writing puts a file where a path leads, through links also to a place that does
not exist yet, in a directory that does. Making directories adds every missing
one along a path. Both have no answer where the path is blocked.
-/

set_option autoImplicit false

namespace SkeletonWeave.FileSystem

def put (fs : FileSystem) (location : Location) (entry : FileEntry) : FileSystem :=
  { fs with entries := (location, entry) :: fs.entries.filter (·.1 ≠ location) }

def base (fs : FileSystem) (path : String) : Location :=
  if Path.isAbsolute path then [] else fs.workingDirectory

def makeFrom? (fs : FileSystem) (here : Location) : List String → Option (FileSystem × Location)
  | [] => if fs.isDirectoryAt here then some (fs, here) else none
  | s :: rest =>
    if fs.isDirectoryAt here then
      if s = "" || s = "." then fs.makeFrom? here rest
      else if s = ".." then fs.makeFrom? here.dropLast rest
      else
        match fs.entry? (here ++ [s]) with
        | none => (fs.put (here ++ [s]) .directory).makeFrom? (here ++ [s]) rest
        | some _ =>
          match fs.follow linkLimit here [s] with
          | some there => fs.makeFrom? there rest
          | none => none
    else none

def makeDirectories? (fs : FileSystem) (path : String) : Option FileSystem :=
  if path.isEmpty then some fs
  else (fs.makeFrom? (fs.base path) (Path.segments path)).map (·.1)

def target? (fs : FileSystem) (links : Nat) (here : Location) (segments : List String) :
    Option Location :=
  match segments with
  | [] => none
  | s :: rest =>
    if fs.isDirectoryAt here then
      if s = "" || s = "." then fs.target? links here rest
      else if s = ".." then fs.target? links here.dropLast rest
      else
        match fs.entry? (here ++ [s]) with
        | none => if rest.isEmpty then some (here ++ [s]) else none
        | some (.file _) => if rest.isEmpty then some (here ++ [s]) else none
        | some .directory => fs.target? links (here ++ [s]) rest
        | some (.link target) =>
          match links with
          | 0 => none
          | links + 1 =>
            fs.target? links (if Path.isAbsolute target then [] else here)
              (Path.segments target ++ rest)
    else none
termination_by (links, segments.length)

def writeBytes? (fs : FileSystem) (path : String) (bytes : ByteArray) : Option FileSystem :=
  if path.isEmpty then none
  else (fs.target? linkLimit (fs.base path) (Path.segments path)).map (fs.put · (.file bytes))

def writeText? (fs : FileSystem) (path text : String) : Option FileSystem :=
  fs.writeBytes? path text.toUTF8

/-- Puts a symbolic link at a path whose last segment does not exist yet. -/
def makeLink? (fs : FileSystem) (path target : String) : Option FileSystem := do
  let parent ← fs.locate? ((Path.parent? path).getD "")
  let name ← (Path.segments path).getLast?
  if (fs.entry? (parent ++ [name])).isSome then none
  else some (fs.put (parent ++ [name]) (.link target))

end SkeletonWeave.FileSystem
