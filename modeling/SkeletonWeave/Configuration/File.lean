import SkeletonWeave.Configuration.Check
import SkeletonWeave.FileSystem.Basic

/-!
# Configuration files

A configuration is read from a file that is named, or from the file of the usual
name in a directory if there is one.
-/

set_option autoImplicit false

namespace SkeletonWeave

structure ConfigurationFile where
  path : String
  text : String
  configuration : Configuration
  deriving DecidableEq, Repr

namespace ConfigurationFile

def usualName : String := "bridge.toml"

variable [PatternLibrary] [ConfigurationFormat]

def load (fs : FileSystem) (path : String) : Except Configuration.Error ConfigurationFile :=
  match fs.readText? path with
  | none => .error (.unreadable path)
  | some text => (Configuration.parse text path).map fun c => ⟨path, text, c⟩

def discover (fs : FileSystem) (dir : String) :
    Except Configuration.Error (Option ConfigurationFile) :=
  let path := Path.join dir usualName
  if fs.isFile path then (load fs path).map some else .ok none

end ConfigurationFile

end SkeletonWeave
