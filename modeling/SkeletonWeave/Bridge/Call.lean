import SkeletonWeave.Bridge.Binding

/-!
# Calls

The call of the target, the place that takes its result, and the lines that
replace the body of a handler method. Arguments are cast to the types of the
parameters, with their address taken for pointers, or converted by a call.
-/

set_option autoImplicit false

namespace SkeletonWeave.Bridge

/-- Where the result of the call goes besides the result variable: nowhere, into the result field
of the returned aggregate, or into the aggregate itself. -/
inductive ResultPlace where
  | nowhere
  | field (target : String)
  | aggregate (target : String)
  deriving DecidableEq, Repr

namespace ResultPlace

def ofMethods (c : Configuration) (handler target : Method) (aggregate? : Option Class) :
    ResultPlace :=
  let argument := c.handler.returnArgument
  if (handler.param? argument).isNone then nowhere
  else if aggregate?.any fun a => (a.field? c.handler.resultField).isSome then
    field (argument ++ "." ++ c.handler.resultField)
  else if target.returnsVoid then nowhere
  else aggregate argument

def assignment : ResultPlace → String
  | nowhere => ""
  | field target | aggregate target => target ++ " = "

end ResultPlace

/-- The conversion that values of a type need, if they need one. -/
def conversionOf? (c : Configuration) (type? : Option TypeExpr) : Option String := do
  c.matching.conversion? (← type?).basePath

def argumentExpression (c : Configuration) (b : Binding) : String :=
  let passed (value : String) : String :=
    match conversionOf? c b.sourceType? with
    | some call => value ++ "." ++ call
    | none =>
      "(" ++ b.targetType.spelling ++ ") " ++ (if b.targetType.isPointer then "&" else "") ++ value
  match b.source with
  | .callback expression | .context expression => expression
  | .handlerArgument name => passed name
  | .returnField name => passed (c.handler.returnArgument ++ "." ++ name)

/-- A call of the target, and what happens to its result. The result type is that of the handler
method unless that returns nothing. -/
structure CallSite where
  place : ResultPlace
  call : String
  resultType? : Option String
  deriving DecidableEq, Repr

namespace CallSite

def ofBindings (c : Configuration) (handler target : Method) (aggregate? : Option Class)
    (bindings : List Binding) : CallSite where
  place := .ofMethods c handler target aggregate?
  call :=
    c.manager.objectName ++ "->" ++ target.name ++ "(" ++
      ", ".intercalate (bindings.map (argumentExpression c)) ++ ")"
  resultType? :=
    handler.returnType?.bind fun t => if t.isVoid then none else some t.spelling

def statement (s : CallSite) (c : Configuration) : String :=
  let call := s.place.assignment ++ s.call ++ ";"
  match s.resultType? with
  | some type => type ++ " " ++ c.emit.resultVariable ++ " = " ++ call
  | none => call

def bodyLines (s : CallSite) (c : Configuration) : List String :=
  let name := c.manager.shortName
  [name ++ "* " ++ c.manager.objectName ++ " = " ++ name ++ "::" ++ c.manager.accessor ++ "();",
    c.emit.lock ++ ".lock();",
    s.statement c,
    c.emit.lock ++ ".unlock();"] ++
  (if s.resultType?.isSome then ["return(" ++ c.emit.resultVariable ++ ");"] else [])

end CallSite

/-- An argument whose value has another element size, in bits, than its parameter. -/
structure SizeMismatch where
  argument : String
  source : Nat
  target : Nat
  deriving DecidableEq, Repr

def sizeMismatch? (s : SymbolTable) (c : Configuration) (b : Binding) : Option SizeMismatch := do
  if !b.source.isHandlerNode then none
  else
    let type ← b.sourceType?
    if (conversionOf? c (some type)).isSome then none
    else
      let source ← s.elementSize? type
      let target ← s.elementSize? b.targetType
      if source = target then none else some ⟨b.argument, source, target⟩

def sizeMismatches (s : SymbolTable) (c : Configuration) (bindings : List Binding) :
    List SizeMismatch :=
  bindings.filterMap (sizeMismatch? s c)

end SkeletonWeave.Bridge
