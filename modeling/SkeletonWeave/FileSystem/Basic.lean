import SkeletonWeave.FileSystem.Path

/-!
# File systems

A file system is a finite table from canonical locations to files, directories
and symbolic links, together with a working directory. A location is the list
of segments from the root. Paths are followed through links, of which at most
forty are followed for one path.
-/

set_option autoImplicit false

namespace SkeletonWeave

inductive FileEntry where
  | file (bytes : ByteArray)
  | directory
  | link (target : String)

instance : DecidableEq FileEntry
  | .file a, .file b =>
    @decidable_of_iff _ (a = b) ⟨congrArg FileEntry.file, FileEntry.file.inj⟩ (ByteArray.instDecidableEq a b)
  | .directory, .directory => .isTrue rfl
  | .link a, .link b => decidable_of_iff (a = b) ⟨congrArg FileEntry.link, FileEntry.link.inj⟩
  | .file _, .directory | .file _, .link _ | .directory, .file _ | .directory, .link _
  | .link _, .file _ | .link _, .directory => .isFalse nofun

abbrev Location := List String

structure FileSystem where
  entries : List (Location × FileEntry)
  workingDirectory : Location

namespace FileSystem

def entry? (fs : FileSystem) (location : Location) : Option FileEntry :=
  if location.isEmpty then some .directory else fs.entries.lookup location

def isDirectoryAt (fs : FileSystem) (location : Location) : Bool :=
  match fs.entry? location with
  | some .directory => true
  | _ => false

def linkLimit : Nat := 40

def follow (fs : FileSystem) (links : Nat) (here : Location) (segments : List String) :
    Option Location :=
  match segments with
  | [] => some here
  | s :: rest =>
    if fs.isDirectoryAt here then
      if s = "" || s = "." then fs.follow links here rest
      else if s = ".." then fs.follow links here.dropLast rest
      else
        match fs.entry? (here ++ [s]) with
        | none => none
        | some (.link target) =>
          match links with
          | 0 => none
          | links + 1 =>
            fs.follow links (if Path.isAbsolute target then [] else here)
              (Path.segments target ++ rest)
        | some _ => fs.follow links (here ++ [s]) rest
    else none
termination_by (links, segments.length)

def locate? (fs : FileSystem) (path : String) : Option Location :=
  if path.isEmpty then none
  else
    fs.follow linkLimit (if Path.isAbsolute path then [] else fs.workingDirectory)
      (Path.segments path)

/-- The absolute path of a location, free of links, dots and doubled slashes. -/
def pathOf (location : Location) : String :=
  "/" ++ "/".intercalate location

def canonical? (fs : FileSystem) (path : String) : Option String :=
  (fs.locate? path).map pathOf

def read? (fs : FileSystem) (path : String) : Option ByteArray := do
  match fs.entry? (← fs.locate? path) with
  | some (.file bytes) => some bytes
  | _ => none

/-- The text of the file that a path names; none if its bytes are no UTF-8. -/
def readText? (fs : FileSystem) (path : String) : Option String := do
  String.fromUTF8? (← fs.read? path)

def isFile (fs : FileSystem) (path : String) : Bool :=
  (fs.read? path).isSome

def changedFiles (before after : FileSystem) : List (Location × ByteArray) :=
  after.entries.filterMap fun (location, entry) =>
    match entry with
    | .file bytes => if before.entry? location = some entry then none else some (location, bytes)
    | _ => none

end FileSystem

end SkeletonWeave
