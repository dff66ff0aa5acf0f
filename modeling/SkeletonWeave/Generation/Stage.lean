import SkeletonWeave.Generation.Coverage
import SkeletonWeave.Generation.Resolution
import SkeletonWeave.Generation.Server
import SkeletonWeave.Generation.Symbols

/-!
# Stages

A generation runs its stages in order and ends at the first that fails. An
observer is told before and after each stage; it keeps a state of its own, and
can end the run too.
-/

set_option autoImplicit false

namespace SkeletonWeave

inductive Stage where
  | parse
  | inventory
  | resolve
  | emit
  deriving DecidableEq, Repr

namespace Stage

def name : Stage → String
  | parse => "parse"
  | inventory => "inventory"
  | resolve => "resolve"
  | emit => "emit"

def description : Stage → String
  | parse => "Parse the server skeleton and manager header"
  | inventory => "List handler and manager methods and check coverage"
  | resolve => "Match handler methods to manager overloads and bind arguments"
  | emit => "Rewrite handler bodies and patch the skeleton"

def all : List Stage :=
  [parse, inventory, resolve, emit]

def checking : List Stage :=
  [parse, inventory, resolve]

def run [PatternLibrary] (fs : FileSystem) : Stage → Generation → Generation.Progress
  | parse => Generation.readSymbols fs
  | inventory => Generation.takeInventory Lint.usual
  | resolve => Generation.resolveHandler
  | emit => Generation.writeServer

end Stage

/-- What accompanies a run. It may keep a state, and end the run with a failure. -/
structure Observer (σ : Type) where
  before : Stage → Generation → σ → σ × Option GenerationFailure
  after : Stage → Generation → σ → σ × Option GenerationFailure

namespace Generation

structure Run (σ : Type) where
  generation : Generation
  observed : σ
  failure? : Option GenerationFailure

/-- Runs stages under an observer until one fails or the observer ends the run. -/
def runStages [PatternLibrary] {σ : Type} (fs : FileSystem) (o : Observer σ) :
    List Stage → Generation → σ → Run σ
  | [], g, observed => ⟨g, observed, none⟩
  | stage :: rest, g, observed =>
    match o.before stage g observed with
    | (observed, some f) => ⟨g, observed, some f⟩
    | (observed, none) =>
      match stage.run fs g with
      | ⟨g, some f⟩ => ⟨g, observed, some f⟩
      | ⟨g, none⟩ =>
        match o.after stage g observed with
        | (observed, some f) => ⟨g, observed, some f⟩
        | (observed, none) => runStages fs o rest g observed

def unobserved : Observer Unit :=
  ⟨fun _ _ _ => ((), none), fun _ _ _ => ((), none)⟩

def runAll [PatternLibrary] (fs : FileSystem) (stages : List Stage) (g : Generation) : Progress :=
  let run := runStages fs unobserved stages g ()
  ⟨run.generation, run.failure?⟩

end Generation

end SkeletonWeave
