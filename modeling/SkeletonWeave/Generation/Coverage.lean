import SkeletonWeave.Generation.Basic

/-!
# Coverage

The methods on both sides are listed, and lints tell what the lists lack:
methods of the manager that no handler method targets, and ignored names that
the manager does not have.
-/

set_option autoImplicit false

namespace SkeletonWeave

structure Lint where
  name : String
  description : String
  check : Bridge.Inventory → Configuration → List Diagnostic

namespace Lint

def coverage : Lint where
  name := "coverage"
  description := "Report manager methods the handler does not expose"
  check i c := i.uncovered.map fun name =>
    ⟨.warning, "inventory",
      "Missing " ++ i.managerClass ++ " method mapping from " ++ i.handlerClass ++ ": '" ++ name ++
        "'",
      c.manager.shortName ++ "::" ++ name⟩

def unknownIgnore : Lint where
  name := "unknown-ignore"
  description := "Report ignored names that are not manager methods"
  check i _ := (i.ignored.filter fun name => !i.managerMethods.contains name).map fun name =>
    ⟨.info, "inventory",
      "ignored method '" ++ name ++ "' is not a public method of " ++ i.managerClass,
      "manager.ignored_methods." ++ name⟩

def usual : List Lint :=
  [coverage, unknownIgnore]

end Lint

namespace Generation

variable [PatternLibrary]

def buildInventory (g : Generation) : Except GenerationFailure Bridge.Inventory := do
  let pattern ← pattern g.configuration
  let symbols ← g.symbols
  let skeleton ← g.skeletonFile
  let handler ← handlerClass symbols skeleton.id g.configuration.handler.className
  let manager ← managerClass symbols g.configuration.manager.className
  return .ofClasses g.configuration pattern handler manager

def takeInventory (lints : List Lint) (g : Generation) : Progress :=
  .ofResult g do
    let i ← g.buildInventory
    return { g.remark (lints.flatMap fun l => l.check i g.configuration) with inventory? := i }

end Generation

end SkeletonWeave
