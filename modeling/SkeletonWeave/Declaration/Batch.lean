import SkeletonWeave.Declaration.Reader
import SkeletonWeave.Declaration.Table
import SkeletonWeave.Preprocess.Basic

/-!
# Batches

Several sources are read as one batch: they share the files they include and the
macros they define, and their declarations make one symbol table.
-/

set_option autoImplicit false

namespace SkeletonWeave

structure Batch where
  symbols : SymbolTable
  unresolved : List String
  deriving Repr, Inhabited

namespace Batch

def runSteps {α : Type} (step : α → Preprocess.State → Preprocess.Progress) :
    List α → Preprocess.State → Except Source.Error Preprocess.State
  | [], state => .ok state
  | a :: rest, state =>
    match step a state with
    | ⟨state, none⟩ => runSteps step rest state
    | ⟨_, some e⟩ => .error e

def finish (state : Preprocess.State) : Except Source.Error Batch := do
  let declarations ← Declaration.read state.files state.tokens.toList
  return ⟨⟨state.files, declarations⟩, state.unresolved⟩

def ofRoots (fs : FileSystem) (options : ReadOptions) (roots : List String) :
    Except Source.Error Batch := do
  finish (← runSteps (Preprocess.addRoot fs options) roots (.initial options))

def ofTexts (fs : FileSystem) (options : ReadOptions) (sources : List (String × String)) :
    Except Source.Error Batch := do
  finish (← runSteps (fun (path, text) => Preprocess.addSource fs options path text) sources
    (.initial options))

end Batch

end SkeletonWeave
