import SkeletonWeave.Code.Fragment
import SkeletonWeave.Generation.Basic
import SkeletonWeave.Text.Blank

/-!
# The source of the server

The skeleton becomes the server by edits: a banner takes the place of its first
comment, callback stubs stand before the handler class, planned methods get new
bodies, and the lines from the one before the main function on become comments.
A body that ends inside of a character has no line, and the program breaks off.
-/

set_option autoImplicit false

namespace SkeletonWeave.Generation

open Bridge

def isCommentLine (line : List Char) : Bool :=
  "//".toList.isPrefixOf (Text.trimLeft line)

/-- The number of bytes of the comment lines at the start of a text. -/
def leadingCommentLength (cs : List Char) : Nat :=
  Text.byteLength ((Text.linesWithBreaks cs).takeWhile isCommentLine).flatten

def bannerEdits (text : String) (banner : List String) : List Edit :=
  if banner.isEmpty then []
  else
    [⟨0, leadingCommentLength text.toList, String.join (banner.map (· ++ "\n")), "banner"⟩]

def stubEdits (indent : Code.Indent) (file : Source.File) (handler : Class)
    (stubs : StubTable) : List Edit :=
  if stubs.stubs.isEmpty then []
  else [Edit.insertion (file.lineStart handler.headLine) (stubs.render indent) "callback stubs"]

/-- The white space that stands before a position on its line, if nothing else does. -/
def indentBefore? (file : Source.File) (position : Nat) : Option String := do
  let start ← file.lineStartOf? position
  let lead := (Text.slice? file.text.toList start position).getD []
  return if lead.all Text.isBlank then String.ofList lead else ""

/-- The new text between the braces of a planned method. The closing brace keeps its indent. -/
def replacementBody (c : Configuration) (plan : MethodPlan) (indent : String) : String :=
  let body := (Code.Fragment.atLevel (.ofEmit c.emit) 1).blank
  ((body.lines (plan.call.bodyLines c)).raw indent).text

def bodyEdit (c : Configuration) (file : Source.File) (plan : MethodPlan) :
    Except GenerationFailure Edit :=
  match indentBefore? file plan.body.closing.start with
  | none => .error (.aborted plan.body.closing.start)
  | some indent =>
    .ok ⟨plan.body.inner.start, plan.body.inner.stop, replacementBody c plan indent,
      "body of " ++ plan.handler⟩

def mainFunction? (s : SymbolTable) (file : Source.File) : Option FreeFunction :=
  s.functions.find? fun f => f.name == "main" && f.nameSpan.file == file.id

/-- Makes comments of all lines from the given one on; the first line also counts as zero. -/
def commentEdits (text : String) (line : Nat) : List Edit :=
  ((Text.lineStarts text.toList).drop (line - 1)).map fun start =>
    Edit.insertion start "// " "main"

def mainEdits (c : Configuration) (s : SymbolTable) (file : Source.File) :
    List Edit × List Diagnostic :=
  if c.emit.commentOutMain then
    match mainFunction? s file with
    | some f => (commentEdits file.text (f.line - 1), [])
    | none =>
      ([], [⟨.warning, "emit", "no 'main' function in the skeleton, nothing commented out", none⟩])
  else ([], [])

def withServer (g : Generation) : Except GenerationFailure Generation := do
  let c := g.configuration
  let symbols ← g.symbols
  let file ← g.skeletonFile
  let inventory ← g.inventory
  let resolution ← g.resolution
  let handler ← handlerClass symbols file.id inventory.handlerClass
  let bodies ← resolution.plans.mapM (bodyEdit c file)
  let (main, remarks) := mainEdits c symbols file
  let edits :=
    bannerEdits file.text c.emit.banner ++
      stubEdits (.ofEmit c.emit) file handler resolution.stubs ++ bodies ++ main
  let content ← (Edit.applyAll edits file.text).mapError GenerationFailure.collision
  return { g.remark remarks with output? := some ⟨g.sources.output, edits, content⟩ }

def writeServer (g : Generation) : Progress :=
  .ofResult g g.withServer

end SkeletonWeave.Generation
