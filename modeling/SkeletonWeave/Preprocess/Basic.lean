import SkeletonWeave.Condition.Value
import SkeletonWeave.FileSystem.Basic
import SkeletonWeave.Preprocess.Directive
import SkeletonWeave.Token.Lexer

/-!
# Preprocessing

A batch of files becomes one stream of tokens: an included file stands where it
is included, what inactive conditionals hold is left out, and every file is read
at most once. Macros count in conditions only and are never replaced in the stream.
A failing step keeps what was read before it failed.
-/

set_option autoImplicit false

namespace SkeletonWeave

/-- How sources are read: where includes are searched, what is defined before the first line
(`NAME` or `NAME=VALUE`), and which identifiers are left out of the stream. -/
structure ReadOptions where
  includeDirs : List String
  defines : List String
  ignoredMacros : List String
  deriving DecidableEq, Repr, Inhabited

namespace Preprocess

structure State where
  macros : Macros
  seen : List String
  files : List Source.File
  tokens : Array Token
  unresolved : List String
  deriving Repr, Inhabited

/-- The state after a step, and the failure that ended it, if one did. -/
structure Progress where
  state : State
  failure? : Option Source.Error

/-- An open conditional: the directive that opened it, whether it stands in an active region,
whether one of its branches was active, and whether the present one is. -/
structure Conditional where
  directive : String
  start : Nat
  length : Nat
  parentActive : Bool
  taken : Bool
  active : Bool
  deriving DecidableEq, Repr

/-- The name and the value that a predefinition gives; without `=` the value is `1`. -/
def predefinition (define : String) : String × String :=
  let chars := define.toList
  let name := chars.takeWhile (· ≠ '=')
  match chars.dropWhile (· ≠ '=') with
  | [] => (String.ofList (Text.trim name), "1")
  | _ :: value => (String.ofList (Text.trim name), String.ofList (Text.trim value))

def State.initial (options : ReadOptions) : State :=
  ⟨Macros.ofList (options.defines.map predefinition), [], [], #[], []⟩

def isActive (opened : List Conditional) : Bool :=
  match opened with
  | [] => true
  | c :: _ => c.active

def holds (macros : Macros) (directive : String) (rest : List Char) : Bool :=
  let name := String.ofList (Text.trim rest)
  if directive = "ifdef" then macros.contains name
  else if directive = "ifndef" then !macros.contains name
  else Condition.evaluate (String.ofList rest) macros != 0

/-- The paths that an include can mean, in order. Only a name in quotes is looked for beside the
including file. -/
def candidates (options : ReadOptions) (dir? : Option String) : Directive.Target → List String
  | .quoted name => (dir?.toList ++ options.includeDirs).map (Path.join · name)
  | .angled name => options.includeDirs.map (Path.join · name)

/-- The first regular file among the candidates for an include. -/
def resolve? (fs : FileSystem) (options : ReadOptions) (dir? : Option String)
    (target : Directive.Target) : Option String :=
  (candidates options dir? target).find? fs.isFile

/-- What is done at one token: go on with other conditionals and another state, read a file first,
or stop for a cause found at the token. -/
inductive Action where
  | proceed (opened : List Conditional) (state : State)
  | enter (path : String)
  | stop (cause : Source.Cause)

def directiveAction (fs : FileSystem) (options : ReadOptions) (dir? : Option String)
    (opened : List Conditional) (state : State) (name : String) (rest : List Char) : Action :=
  if name = "define" then
    let (macroName, value) := Directive.definition rest
    if macroName.isEmpty then .proceed opened state
    else .proceed opened { state with macros := state.macros.insert macroName value }
  else if name = "undef" then
    .proceed opened
      { state with macros := state.macros.erase (String.ofList (Text.trim rest)) }
  else if name = "include" || name = "import" then
    match Directive.target? rest with
    | none => .proceed opened state
    | some target =>
      match resolve? fs options dir? target with
      | some path => .enter path
      | none => .proceed opened { state with unresolved := state.unresolved ++ [target.name] }
  else .proceed opened state

def conditionalAction (fs : FileSystem) (options : ReadOptions) (dir? : Option String)
    (opened : List Conditional) (state : State) (t : Token) : Action :=
  let (nameChars, rest) := Directive.splitName t.text.toList
  let name := String.ofList nameChars
  let active := isActive opened
  if name = "if" || name = "ifdef" || name = "ifndef" then
    let value := active && holds state.macros name rest
    .proceed (⟨name, t.span.start, t.span.length, active, value || !active, value⟩ :: opened) state
  else if name = "elif" then
    match opened with
    | [] => .stop (.danglingDirective name)
    | c :: outer =>
      let value := c.parentActive && !c.taken && holds state.macros "if" rest
      .proceed ({ c with active := value, taken := c.taken || value } :: outer) state
  else if name = "else" then
    match opened with
    | [] => .stop (.danglingDirective name)
    | c :: outer =>
      .proceed ({ c with active := c.parentActive && !c.taken, taken := true } :: outer) state
  else if name = "endif" then
    match opened with
    | [] => .stop (.danglingDirective name)
    | _ :: outer => .proceed outer state
  else if active then directiveAction fs options dir? opened state name rest
  else .proceed opened state

/-- The action at any token: one that is no directive joins the stream where the region is active,
unless it is an identifier to be left out. -/
def action (fs : FileSystem) (options : ReadOptions) (dir? : Option String)
    (opened : List Conditional) (state : State) (t : Token) : Action :=
  if t.kind = .directive then conditionalAction fs options dir? opened state t
  else if isActive opened &&
      !(t.kind == .identifier && options.ignoredMacros.contains t.text) then
    .proceed opened { state with tokens := state.tokens.push t }
  else .proceed opened state

/-- Runs through the tokens of one file. `enter` reads the file at a path, and `file` names the
present one in failures. -/
def runTokens (fs : FileSystem) (options : ReadOptions) (enter : String → State → Progress)
    (file : String) (dir? : Option String) (opened : List Conditional) (state : State) :
    List Token → Progress
  | [] =>
    match opened with
    | [] => ⟨state, none⟩
    | c :: _ =>
      ⟨state, some (.located (.unterminatedConditional c.directive) file c.start c.length)⟩
  | t :: rest =>
    match action fs options dir? opened state t with
    | .proceed opened state => runTokens fs options enter file dir? opened state rest
    | .enter path =>
      match enter path state with
      | ⟨state, none⟩ => runTokens fs options enter file dir? opened state rest
      | ⟨state, some e⟩ => ⟨state, some e⟩
    | .stop cause => ⟨state, some (.located cause file t.span.start t.span.length)⟩

def runText (fs : FileSystem) (options : ReadOptions) (enter : String → State → Progress)
    (path text : String) (state : State) : Progress :=
  let id := state.files.length
  let state := { state with files := state.files ++ [⟨id, path, text⟩] }
  match Token.lex id path text with
  | .error e => ⟨state, some e⟩
  | .ok tokens => runTokens fs options enter path (Path.parent? path) [] state tokens

/-- Reads the file at a path, unless the batch has it already. Files nest at most `depth` deep;
deeper ones add nothing. -/
def readFile (fs : FileSystem) (options : ReadOptions) : Nat → String → State → Progress
  | 0, _, state => ⟨state, none⟩
  | depth + 1, path, state =>
    let canonical := (fs.canonical? path).getD path
    if state.seen.any (Path.same canonical) then ⟨state, none⟩
    else
      let state := { state with seen := canonical :: state.seen }
      match fs.readText? path with
      | none => ⟨state, some (.unreadable path)⟩
      | some text => runText fs options (readFile fs options depth) canonical text state

/-- The depth that no nesting of includes exceeds, because each level reads one more file. -/
def depthLimit (fs : FileSystem) : Nat :=
  fs.entries.length + 1

def addRoot (fs : FileSystem) (options : ReadOptions) (path : String) (state : State) : Progress :=
  readFile fs options (depthLimit fs) path state

def addSource (fs : FileSystem) (options : ReadOptions) (path text : String) (state : State) :
    Progress :=
  runText fs options (readFile fs options (depthLimit fs)) path text
    { state with seen := path :: state.seen }

end Preprocess

end SkeletonWeave
