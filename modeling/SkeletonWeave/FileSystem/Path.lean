/-!
# Paths

A path is a text of segments between slashes, absolute if it starts with one.
Joining and taking the parent work on the text alone and leave `..` as it is.
-/

set_option autoImplicit false

namespace SkeletonWeave.Path

def isAbsolute (path : String) : Bool :=
  path.toList.head? == some '/'

/-- The path that leads from `base` along `path`: `path` itself if it is absolute. -/
def join (base path : String) : String :=
  if isAbsolute path then path
  else if base.isEmpty || base.toList.getLast? == some '/' then base ++ path
  else base ++ "/" ++ path

def splitChars (separator : Char) : List Char → List (List Char)
  | [] => [[]]
  | c :: cs =>
    if c = separator then [] :: splitChars separator cs
    else
      match splitChars separator cs with
      | [] => [[c]]
      | part :: parts => (c :: part) :: parts

/-- The segments of a path, with an empty one before each leading, after each trailing and between
doubled slashes. -/
def segments (path : String) : List String :=
  (splitChars '/' path.toList).map String.ofList

/-- What two spellings of a path have in common: its segments without the empty ones and without
`.`, except that a relative path may start with `.` and an absolute one starts with `/`. -/
def components (path : String) : List String :=
  let isNamed (s : String) : Bool := s != "" && s != "."
  match segments path with
  | [] => []
  | first :: rest =>
    let start := if isAbsolute path then ["/"] else if first = "" then [] else [first]
    start ++ rest.filter isNamed

def same (a b : String) : Bool :=
  components a == components b

/-- Drops the segments at the end of a path that name nothing: empty ones, and `.` unless it is
the whole path. -/
def dropIdle (reversed : List String) : List String :=
  match reversed with
  | s :: t :: rest => if s = "" || s = "." then dropIdle (t :: rest) else s :: t :: rest
  | short => short

/-- The path without its last segment; the root and the empty path have no parent. -/
def parent? (path : String) : Option String :=
  match dropIdle (segments path).reverse with
  | [] => none
  | [s] => if s = "" then none else some ""
  | _ :: rest =>
    match dropIdle rest with
    | [""] => some "/"
    | kept => some ("/".intercalate kept.reverse)

end SkeletonWeave.Path
