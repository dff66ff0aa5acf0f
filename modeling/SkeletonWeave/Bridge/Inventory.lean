import SkeletonWeave.Bridge.Overload
import SkeletonWeave.Configuration.Basic

/-!
# Inventories

Which methods the handler and the manager offer, and which methods of the
manager no handler method targets although they are not ignored.
-/

set_option autoImplicit false

namespace SkeletonWeave.Bridge

/-- Method names in the order of their declarations; all lists but those of handler methods and of
ignored methods hold each name once. -/
structure Inventory where
  handlerClass : String
  managerClass : String
  handlerMethods : List String
  managerMethods : List String
  handlerTargets : List String
  ignored : List String
  uncovered : List String
  deriving DecidableEq, Repr

namespace Inventory

def ofClasses [PatternLibrary] (c : Configuration) (pattern : PatternLibrary.Compiled)
    (handler manager : Class) : Inventory :=
  let handlerMethods := handler.publicMethods.map (·.name)
  let managerMethods := (manager.publicMethods.map (·.name)).eraseDups
  let targets := (handlerMethods.map fun name => (SplitName.ofName pattern name).target).eraseDups
  { handlerClass := handler.qualifiedName
    managerClass := manager.qualifiedName
    handlerMethods := handlerMethods
    managerMethods := managerMethods
    handlerTargets := targets
    ignored := c.manager.ignoredMethods
    uncovered := managerMethods.filter fun name => !targets.contains name && !c.ignores name }

def isComplete (i : Inventory) : Bool :=
  i.uncovered.isEmpty

end Inventory

end SkeletonWeave.Bridge
