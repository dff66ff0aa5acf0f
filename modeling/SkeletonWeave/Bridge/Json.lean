import SkeletonWeave.Bridge.Inventory
import SkeletonWeave.Bridge.Plan
import SkeletonWeave.Declaration.Json

/-!
# Bridges as JSON

The text of inventories, bindings, calls and plans for other programs. What is
absent is left out.
-/

set_option autoImplicit false

namespace SkeletonWeave.Bridge

open Json (Value)
open Json.Value (optionalField)

def ArgumentSource.toJson : ArgumentSource → Value
  | handlerArgument name => .object [("kind", .string "handler_arg"), ("name", .string name)]
  | returnField name => .object [("kind", .string "return_field"), ("name", .string name)]
  | callback e => .object [("kind", .string "callback"), ("name", .string e)]
  | context e => .object [("kind", .string "context"), ("name", .string e)]

def Binding.toJson (b : Binding) : Value :=
  .object ([("argument", .string b.argument), ("target_type", b.targetType.toJson),
    ("source", b.source.toJson)] ++ optionalField "source_type" TypeExpr.toJson b.sourceType?)

def ResultPlace.toJson : ResultPlace → Value
  | nowhere => .object [("kind", .string "none")]
  | field target => .object [("kind", .string "field"), ("target", .string target)]
  | aggregate target => .object [("kind", .string "aggregate"), ("target", .string target)]

def CallSite.toJson (s : CallSite) : Value :=
  .object ([("clause", s.place.toJson), ("call", .string s.call)] ++
    optionalField "result_type" Value.string s.resultType?)

def MethodPlan.toJson (p : MethodPlan) : Value :=
  .object ([("handler", .string p.handler), ("target", .string p.target)] ++
    optionalField "hint" Value.string p.hint? ++
    [("line", .number p.line), ("body", p.body.toJson),
      ("bindings", .array (p.bindings.map Binding.toJson)), ("call", p.call.toJson)])

def Stub.toJson (s : Stub) : Value :=
  .object [("name", .string s.name), ("return_type", .string s.returnType),
    ("params", .ofStrings s.params)]

def Resolution.toJson (r : Resolution) : Value :=
  .object [("plans", .array (r.plans.map MethodPlan.toJson)), ("skipped", .ofStrings r.skipped),
    ("callbacks", .object (r.stubs.stubs.map fun s => (s.name, s.toJson)))]

def Inventory.toJson (i : Inventory) : Value :=
  .object [("handler_class", .string i.handlerClass), ("manager_class", .string i.managerClass),
    ("handler_methods", .ofStrings i.handlerMethods),
    ("manager_methods", .ofStrings i.managerMethods),
    ("handler_targets", .ofStrings i.handlerTargets), ("ignored", .ofStrings i.ignored),
    ("uncovered", .ofStrings i.uncovered)]

end SkeletonWeave.Bridge
