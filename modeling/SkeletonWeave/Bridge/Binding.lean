import SkeletonWeave.Bridge.Failure
import SkeletonWeave.Bridge.Stub
import SkeletonWeave.Declaration.Table

/-!
# Binding arguments

Each parameter of the target gets its value from the parameter of the handler
method with the same name, else from such a field of the aggregate that the
handler method returns, else, if its name says so, from a callback stub or from
the context.
-/

set_option autoImplicit false

namespace SkeletonWeave.Bridge

/-- Where the value of an argument comes from. Callbacks and contexts are told by the expression
that is passed. -/
inductive ArgumentSource where
  | handlerArgument (name : String)
  | returnField (name : String)
  | callback (expression : String)
  | context (expression : String)
  deriving DecidableEq, Repr

namespace ArgumentSource

def isHandlerNode : ArgumentSource → Bool
  | handlerArgument _ | returnField _ => true
  | callback _ | context _ => false

end ArgumentSource

structure Binding where
  argument : String
  targetType : TypeExpr
  source : ArgumentSource
  sourceType? : Option TypeExpr
  deriving Repr, BEq

/-- The class of the argument through which a handler method returns an aggregate. -/
def returnAggregate? (s : SymbolTable) (c : Configuration) (handler : Method) : Option Class := do
  let p ← handler.param? c.handler.returnArgument
  s.classOf? p.type

/-- The function type of a pointer to a function, written out or behind type names. -/
def signature? (s : SymbolTable) (t : TypeExpr) : Option (TypeExpr × List TypeExpr) :=
  t.signature <|> (s.resolve t).signature

def bindParam (s : SymbolTable) (c : Configuration) (aggregate? : Option Class)
    (handler target : Method) (index : Nat) (p : Param) (stubs : StubTable) :
    StubTable × Except Failure Binding :=
  match p.name? with
  | none =>
    (stubs, .error (.unboundArgument handler.name target.name ("#" ++ Nat.repr (index + 1))))
  | some name =>
    let bound (source : ArgumentSource) (type? : Option TypeExpr) : Except Failure Binding :=
      .ok ⟨name, p.type, source, type?⟩
    match handler.param? name, aggregate?.bind (·.field? name) with
    | some argument, _ => (stubs, bound (.handlerArgument name) argument.type)
    | none, some field => (stubs, bound (.returnField name) field.type)
    | none, none =>
      if Text.hasInfix c.matching.callbackMarker.toList name.toList then
        match signature? s p.type with
        | none =>
          (stubs,
            .error (.callbackNotFunction handler.name target.name name p.type.spelling))
        | some signature =>
          let (stub, stubs) := stubs.register target.name signature
          (stubs, bound (.callback stub.address) none)
      else if Text.hasInfix c.matching.contextMarker.toList name.toList then
        (stubs, bound (.context c.matching.contextExpression) none)
      else (stubs, .error (.unboundArgument handler.name target.name name))

/-- Binds parameters up to the first that cannot be bound. Stubs that were needed so far stay. -/
def bindParams (bind : Nat → Param → StubTable → StubTable × Except Failure Binding) :
    Nat → List Param → StubTable → StubTable × Except Failure (List Binding)
  | _, [], stubs => (stubs, .ok [])
  | index, p :: ps, stubs =>
    match bind index p stubs with
    | (stubs, .error e) => (stubs, .error e)
    | (stubs, .ok b) =>
      let (stubs, rest) := bindParams bind (index + 1) ps stubs
      (stubs, rest.map (b :: ·))

def bind (s : SymbolTable) (c : Configuration) (handler target : Method) (stubs : StubTable) :
    StubTable × Except Failure (List Binding) :=
  bindParams (bindParam s c (returnAggregate? s c handler) handler target) 0 target.params stubs

end SkeletonWeave.Bridge
