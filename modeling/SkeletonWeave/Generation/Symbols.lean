import SkeletonWeave.Declaration.Batch
import SkeletonWeave.Generation.Basic

/-!
# The symbols of a generation

The skeleton and the header of the manager are read as one batch.
-/

set_option autoImplicit false

namespace SkeletonWeave.Generation

def findFile? (fs : FileSystem) (s : SymbolTable) (path : String) : Option Nat :=
  let canonical := (fs.canonical? path).getD path
  (s.files.find? fun f => Path.same f.path canonical || Path.same f.path path).map (·.id)

def unresolvedRemark (unresolved : List String) : List Diagnostic :=
  if unresolved.isEmpty then []
  else
    [⟨.info, "parse",
      Nat.repr unresolved.length ++ " include(s) not found on the search path were skipped", none⟩]

def withSymbols (fs : FileSystem) (g : Generation) : Except GenerationFailure Generation := do
  let options : ReadOptions :=
    ⟨g.sources.includeDirs, g.sources.defines, g.sources.ignoredMacros⟩
  let batch ←
    (Batch.ofRoots fs options [g.sources.skeleton, g.sources.managerHeader]).mapError
      GenerationFailure.unreadable
  match findFile? fs batch.symbols g.sources.skeleton with
  | none => .error (.skeletonNotRead g.sources.skeleton)
  | some skeleton =>
    return { g.remark (unresolvedRemark batch.unresolved) with
      symbols? := batch.symbols
      skeleton? := skeleton }

def readSymbols (fs : FileSystem) (g : Generation) : Progress :=
  .ofResult g (g.withSymbols fs)

end SkeletonWeave.Generation
