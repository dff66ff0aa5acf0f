import SkeletonWeave.FileSystem.Path
import SkeletonWeave.Text.Search

/-!
# Configurations

What a run is told: which files it reads and writes, which class handles calls
and which class they are forwarded to, how names and arguments are matched, and
what the generated code looks like. Every setting has a default.
-/

set_option autoImplicit false

namespace SkeletonWeave

/-- The files of a run. Paths may hold the marks of the two roots. -/
structure SourcesSection where
  skeleton : String
  output : String
  managerHeader : String
  includeDirs : List String
  defines : List String
  ignoredMacros : List String
  deriving DecidableEq, Repr, Inhabited

/-- The class whose method bodies are generated, the argument through which it returns aggregates,
and the field of an aggregate that takes a plain result. -/
structure HandlerSection where
  className : String
  returnArgument : String
  resultField : String
  deriving DecidableEq, Repr, Inhabited

/-- The class that calls are forwarded to, how its only object is had and named, and the methods
that are not offered. -/
structure ManagerSection where
  className : String
  accessor : String
  objectName : String
  ignoredMethods : List String
  deriving DecidableEq, Repr, Inhabited

/-- How handler names lead to targets, and how arguments are recognised and converted. Conversions
are in the order of the types that they convert. -/
structure MatchingSection where
  pattern : String
  callbackMarker : String
  contextMarker : String
  contextExpression : String
  conversions : List (String × String)
  deriving DecidableEq, Repr, Inhabited

inductive IndentStyle where
  | tab
  | spaces
  deriving DecidableEq, Repr, Inhabited

/-- The generated code: the lock around calls, the variable for results, its indent, whether the
main function is commented out, and the lines that replace the first comment. -/
structure EmitSection where
  lock : String
  resultVariable : String
  indent : IndentStyle
  indentWidth : Nat
  commentOutMain : Bool
  banner : List String
  deriving DecidableEq, Repr, Inhabited

structure Configuration where
  sources : SourcesSection
  handler : HandlerSection
  manager : ManagerSection
  matching : MatchingSection
  emit : EmitSection
  deriving DecidableEq, Repr, Inhabited

namespace SourcesSection

def libraryMark : String := "\x7blibrary\x7d"

def thriftMark : String := "\x7bthrift\x7d"

def default : SourcesSection where
  skeleton := "gen-cpp/RemoteManager_server.skeleton.cpp"
  output := "gen-cpp/RemoteManager_server.cpp"
  managerHeader := libraryMark ++ "/cpp/src/Manager.h"
  includeDirs :=
    ["gen-cpp", thriftMark, libraryMark ++ "/cpp/tinyxml", libraryMark ++ "/cpp/src",
      libraryMark ++ "/cpp/src/value_classes", libraryMark ++ "/cpp/src/command_classes",
      libraryMark ++ "/cpp/src/platform"]
  defines := ["HAVE_INTTYPES_H", "HAVE_NETINET_IN_H"]
  ignoredMacros := ["OPENZWAVE_EXPORT"]

end SourcesSection

namespace HandlerSection

def default : HandlerSection := ⟨"RemoteManagerHandler", "_return", "retval"⟩

end HandlerSection

namespace ManagerSection

def default : ManagerSection where
  className := "OpenZWave::Manager"
  accessor := "Get"
  objectName := "mgr"
  ignoredMethods :=
    ["Create", "Get", "Destroy", "GetOptions", "AddDriver", "RemoveDriver", "AddWatcher",
      "RemoveWatcher"]

/-- The class name as generated code writes it, without its scope. -/
def shortName (m : ManagerSection) : String :=
  String.ofList (Text.afterLast "::".toList m.className.toList)

end ManagerSection

namespace MatchingSection

def default : MatchingSection where
  pattern := "^([^_]*)_(.*)$"
  callbackMarker := "callback"
  contextMarker := "context"
  contextExpression := "(void*) this"
  conversions := [("RemoteValueID", "toValueID()")]

/-- The call that converts a type, found by its base with its scope or without. -/
def conversion? (m : MatchingSection) (base : String) : Option String :=
  (m.conversions.lookup base) <|>
    (m.conversions.lookup (String.ofList (Text.afterLast "::".toList base.toList)))

end MatchingSection

namespace EmitSection

def default : EmitSection where
  lock := "g_criticalSection"
  resultVariable := "function_result"
  indent := .tab
  indentWidth := 4
  commentOutMain := true
  banner :=
    ["// Automatically generated OpenZWave::Manager_server wrapper",
      "// (c) 2011 Elias Karakoulakis <elias.karakoulakis@gmail.com>"]

def indentUnit (e : EmitSection) : String :=
  match e.indent with
  | .tab => "\t"
  | .spaces => "".pushn ' ' e.indentWidth

end EmitSection

namespace Configuration

def default : Configuration :=
  ⟨.default, .default, .default, .default, .default⟩

def ignores (c : Configuration) (method : String) : Bool :=
  c.manager.ignoredMethods.contains method

end Configuration

/-- How configurations are written down: what settings a text states, if it is well formed. -/
class ConfigurationFormat where
  decode? : String → Option Configuration

structure Roots where
  library : String
  thrift : String
  deriving DecidableEq, Repr, Inhabited

namespace SourcesSection

/-- A path with the roots in the place of their marks, seen from `base`. -/
def resolvePath (roots : Roots) (base path : String) : String :=
  let library := Text.replaceAll libraryMark.toList roots.library.toList path.toList
  Path.join base
    (String.ofList (Text.replaceAll thriftMark.toList roots.thrift.toList library))

def resolve (s : SourcesSection) (roots : Roots) (base : String) : SourcesSection :=
  let path := resolvePath roots base
  { s with
    skeleton := path s.skeleton
    output := path s.output
    managerHeader := path s.managerHeader
    includeDirs := s.includeDirs.map path }

end SourcesSection

end SkeletonWeave
