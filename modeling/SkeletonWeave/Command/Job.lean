import SkeletonWeave.Configuration.File

/-!
# Jobs

What all commands are given: the two roots, the configuration file, and the
directory in which they work. Without a file that is named, the file of the
usual name is taken, and without that the default configuration.
-/

set_option autoImplicit false

namespace SkeletonWeave

structure JobArguments where
  libraryRoot : String
  thriftRoot : String
  configuration? : Option String
  deriving DecidableEq, Repr

/-- A configuration with its paths resolved, the file it comes from, and the working directory. -/
structure Job where
  configuration : Configuration
  sources : SourcesSection
  configurationPath? : Option String
  workingDirectory : String
  deriving DecidableEq, Repr

namespace Job

def ofArguments [PatternLibrary] [ConfigurationFormat] (fs : FileSystem) (a : JobArguments) :
    Except Configuration.Error Job := do
  let base := FileSystem.pathOf fs.workingDirectory
  let file? ←
    match a.configuration? with
    | some path => (ConfigurationFile.load fs path).map some
    | none => ConfigurationFile.discover fs base
  let configuration := file?.elim Configuration.default (·.configuration)
  let roots : Roots := ⟨Path.join base a.libraryRoot, Path.join base a.thriftRoot⟩
  return ⟨configuration, configuration.sources.resolve roots base, file?.map (·.path), base⟩

end Job

end SkeletonWeave
