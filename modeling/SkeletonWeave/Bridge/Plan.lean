import SkeletonWeave.Bridge.Call

/-!
# Plans

What is known of a bridge before it is written: for each handler method that is
bridged, its call and the body that the call replaces; the handler methods that
are left as they are; and the callback stubs that the calls need.
-/

set_option autoImplicit false

namespace SkeletonWeave.Bridge

structure MethodPlan where
  handler : String
  target : String
  hint? : Option String
  line : Nat
  body : Source.Body
  bindings : List Binding
  call : CallSite
  deriving Repr, BEq

structure Resolution where
  plans : List MethodPlan
  skipped : List String
  stubs : StubTable
  deriving Repr, BEq

end SkeletonWeave.Bridge
