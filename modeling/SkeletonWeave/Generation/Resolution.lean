import SkeletonWeave.Generation.Basic

/-!
# Resolving handler methods

Each public method of the handler, in order, is planned, left as it is, or
fails. A failure of one method does not keep the others from being tried; if
there is one, the generation has no resolution.
-/

set_option autoImplicit false

namespace SkeletonWeave.Generation

open Bridge

inductive MethodOutcome where
  | planned (plan : MethodPlan)
  | skipped
  | failed (failure : Failure)
  deriving Repr

structure MethodReport where
  method : Method
  outcome : MethodOutcome
  remarks : List Diagnostic
  deriving Repr

namespace MethodReport

def plan? (r : MethodReport) : Option MethodPlan :=
  match r.outcome with
  | .planned plan => some plan
  | _ => none

def skipped? (r : MethodReport) : Option String :=
  match r.outcome with
  | .skipped => some r.method.name
  | _ => none

def failure? (r : MethodReport) : Option Failure :=
  match r.outcome with
  | .failed failure => some failure
  | _ => none

end MethodReport

variable [PatternLibrary]

structure Sides where
  configuration : Configuration
  symbols : SymbolTable
  handler : Class
  manager : Class
  pattern : PatternLibrary.Compiled

namespace Sides

def location (s : Sides) (m : Method) : String :=
  s.handler.name ++ "::" ++ m.name

def remarkOn (s : Sides) (m : Method) (severity : Severity) (message : String) : Diagnostic :=
  ⟨severity, "resolve", "method '" ++ m.name ++ "'" ++ message, s.location m⟩

def describe (m : Method) : String :=
  m.name ++ "(" ++ ", ".intercalate (m.params.map (·.type.spelling)) ++ ")"

def ambiguityRemark (s : Sides) (m : Method) (split : SplitName) (chosen : Selection) :
    List Diagnostic :=
  if chosen.isAmbiguous then
    [s.remarkOn m .warning (": hint '" ++ split.hint?.getD "" ++ "' matches " ++
      Nat.repr chosen.matchCount ++ " overloads of '" ++ chosen.method.name ++
      "', using the last one (" ++ describe chosen.method ++ ")")]
  else []

def sizeRemark (s : Sides) (m : Method) (mismatch : SizeMismatch) : Diagnostic :=
  s.remarkOn m .warning (": argument '" ++ mismatch.argument ++ "' size mismatch (src=" ++
    Nat.repr mismatch.source ++ " tgt=" ++ Nat.repr mismatch.target ++ ")")

def planMethod (s : Sides) (m : Method) (split : SplitName) (target : Method)
    (body : Source.Body) (remarks : List Diagnostic) (stubs : StubTable) :
    StubTable × MethodReport :=
  match bind s.symbols s.configuration m target stubs with
  | (stubs, .error e) => (stubs, ⟨m, .failed e, remarks⟩)
  | (stubs, .ok bindings) =>
    let aggregate? := returnAggregate? s.symbols s.configuration m
    let call := CallSite.ofBindings s.configuration m target aggregate? bindings
    let mismatches := sizeMismatches s.symbols s.configuration bindings
    (stubs,
      ⟨m, .planned ⟨m.name, target.name, split.hint?, m.line, body, bindings, call⟩,
        remarks ++ mismatches.map (s.sizeRemark m)⟩)

def resolveMethod (s : Sides) (m : Method) (stubs : StubTable) : StubTable × MethodReport :=
  let split := SplitName.ofName s.pattern m.name
  match selectOverload m.name split (s.manager.overloads split.target) with
  | .error e => (stubs, ⟨m, .failed e, []⟩)
  | .ok none =>
    (stubs,
      ⟨m, .skipped,
        [s.remarkOn m .info (": " ++ s.manager.qualifiedName ++ " has no method '" ++ split.target ++
          "', left unchanged")]⟩)
  | .ok (some chosen) =>
    let remarks := s.ambiguityRemark m split chosen
    match m.body? with
    | none =>
      (stubs,
        ⟨m, .skipped, remarks ++ [s.remarkOn m .warning " has no body to replace"]⟩)
    | some body => s.planMethod m split chosen.method body remarks stubs

def resolveMethods (s : Sides) : List Method → StubTable → StubTable × List MethodReport
  | [], stubs => (stubs, [])
  | m :: ms, stubs =>
    let (stubs, report) := s.resolveMethod m stubs
    let (stubs, reports) := s.resolveMethods ms stubs
    (stubs, report :: reports)

end Sides

def failureDiagnostic (s : Sides) (r : MethodReport) : Option Diagnostic :=
  r.failure?.map fun e => ⟨.error, "resolve", e.message, s.location r.method⟩

def sides (g : Generation) : Except GenerationFailure Sides := do
  let symbols ← g.symbols
  let skeleton ← g.skeletonFile
  let handler ← handlerClass symbols skeleton.id g.configuration.handler.className
  let manager ← managerClass symbols g.configuration.manager.className
  let pattern ← pattern g.configuration
  return ⟨g.configuration, symbols, handler, manager, pattern⟩

def resolveHandler (g : Generation) : Progress :=
  match g.sides with
  | .error f => ⟨g, some f⟩
  | .ok s =>
    let (stubs, reports) := s.resolveMethods s.handler.publicMethods .empty
    let remarked := g.remark (reports.flatMap (·.remarks))
    match reports.filterMap (·.failure?) with
    | [] =>
      ⟨{ remarked with
          resolution? := some ⟨reports.filterMap (·.plan?), reports.filterMap (·.skipped?), stubs⟩ },
        none⟩
    | failures =>
      ⟨remarked.remark (reports.filterMap (failureDiagnostic s)), some (.unresolved failures)⟩

end SkeletonWeave.Generation
