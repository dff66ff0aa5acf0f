import SkeletonWeave.Command.Generate

/-!
# Command lines

The arguments of the program: a command with its options, or a question for the
version or for help. Options are written in long form, with the value in the
same argument or in the next one, or as clusters of letters. The first fault or
question from the left counts.
-/

set_option autoImplicit false

namespace SkeletonWeave

inductive HelpTopic where
  | program
  | generate
  | check
  | help
  deriving DecidableEq, Repr

inductive CommandLine where
  | generate (arguments : JobArguments) (options : GenerateOptions)
  | check (arguments : JobArguments)
  | version
  | help (topic : HelpTopic)
  deriving DecidableEq, Repr

namespace CommandLine

inductive ValueOption where
  | libraryRoot
  | thriftRoot
  | configuration
  deriving DecidableEq, Repr

inductive Switch where
  | verbose
  | dryRun
  | visualize
  | help
  deriving DecidableEq, Repr

inductive Verb where
  | generate
  | check
  deriving DecidableEq, Repr

namespace Verb

def ofName? (name : String) : Option Verb :=
  [("generate", generate), ("check", check)].lookup name

def topic : Verb → HelpTopic
  | generate => .generate
  | check => .check

end Verb

def valueOption? (name : String) : Option ValueOption :=
  [("library-root", ValueOption.libraryRoot), ("ozwroot", .libraryRoot),
    ("thrift-root", .thriftRoot), ("thriftroot", .thriftRoot),
    ("config", .configuration)].lookup name

def switch? (verb : Verb) (name : String) : Option Switch :=
  let own : List (String × Switch) :=
    match verb with
    | .generate => [("dry-run", .dryRun), ("visualize", .visualize)]
    | .check => []
  (own ++ [("verbose", Switch.verbose), ("help", .help)]).lookup name

structure Given where
  libraryRoot? : Option String
  thriftRoot? : Option String
  configuration? : Option String
  dryRun : Bool
  visualize : Bool
  deriving DecidableEq, Repr

namespace Given

def nothing : Given := ⟨none, none, none, false, false⟩

/-- Notes the value of an option. No value is empty, and no option is given twice. -/
def setValue? (g : Given) (o : ValueOption) (value : String) : Option Given :=
  let fresh (old? : Option String) : Bool := old?.isNone && value != ""
  match o with
  | .libraryRoot => if fresh g.libraryRoot? then some { g with libraryRoot? := value } else none
  | .thriftRoot => if fresh g.thriftRoot? then some { g with thriftRoot? := value } else none
  | .configuration =>
    if fresh g.configuration? then some { g with configuration? := value } else none

/-- Notes a switch. Only the one for more output can be given twice, and it changes no result. -/
def setSwitch? (g : Given) : Switch → Option Given
  | .dryRun => if g.dryRun then none else some { g with dryRun := true }
  | .visualize => if g.visualize then none else some { g with visualize := true }
  | .verbose | .help => some g

def finish? (g : Given) (verb : Verb) : Option CommandLine := do
  let arguments : JobArguments := ⟨← g.libraryRoot?, ← g.thriftRoot?, g.configuration?⟩
  match verb with
  | .generate => return .generate arguments ⟨g.dryRun, g.visualize⟩
  | .check => return .check arguments

end Given

def isOption (argument : String) : Bool :=
  match argument.toList with
  | '-' :: _ :: _ => true
  | _ => false

def splitAssignment (cs : List Char) : String × Option String :=
  match cs.span (· ≠ '=') with
  | (name, []) => (String.ofList name, none)
  | (name, _ :: value) => (String.ofList name, some (String.ofList value))

inductive Reading where
  | switch (s : Switch)
  | value (o : ValueOption) (value : String)
  | waiting (o : ValueOption)
  deriving Repr

def readLong? (verb : Verb) (cs : List Char) : Option (List Reading) :=
  let (name, value?) := splitAssignment cs
  match valueOption? name, switch? verb name, value? with
  | some o, _, some value => some [.value o value]
  | some o, _, none => some [.waiting o]
  | none, some s, none => some [.switch s]
  | none, _, _ => none

/-- Reads a cluster of letters after its hyphen, up to an unknown letter or a question for help. -/
def readShort : List Char → List (Option Reading)
  | [] => []
  | 'v' :: cs => some (.switch .verbose) :: readShort cs
  | 'h' :: _ => [some (.switch .help)]
  | ['c'] => [some (.waiting .configuration)]
  | 'c' :: '=' :: cs => [some (.value .configuration (String.ofList cs))]
  | 'c' :: cs => [some (.value .configuration (String.ofList cs))]
  | _ => [none]

inductive Step where
  | refused
  | answered (c : CommandLine)
  | next (given : Given) (waiting? : Option ValueOption)

def takeReadings (verb : Verb) (g : Given) : List (Option Reading) → Step
  | [] => .next g none
  | none :: _ => .refused
  | some (.waiting o) :: _ => .next g (some o)
  | some (.value o value) :: rest =>
    match g.setValue? o value with
    | some g => takeReadings verb g rest
    | none => .refused
  | some (.switch .help) :: _ => .answered (.help verb.topic)
  | some (.switch s) :: rest =>
    match g.setSwitch? s with
    | some g => takeReadings verb g rest
    | none => .refused

def readArgument (verb : Verb) (g : Given) (argument : String) : Step :=
  match argument.toList with
  | '-' :: '-' :: cs =>
    match readLong? verb cs with
    | some readings => takeReadings verb g (readings.map some)
    | none => .refused
  | '-' :: c :: cs => takeReadings verb g (readShort (c :: cs))
  | _ => .refused

/-- Reads the arguments after a command. Nothing may follow the end mark of options. -/
def readOptions? (verb : Verb) (g : Given) : List String → Option CommandLine
  | [] => g.finish? verb
  | ["--"] => g.finish? verb
  | argument :: rest =>
    match readArgument verb g argument with
    | .refused => none
    | .answered c => some c
    | .next g none => readOptions? verb g rest
    | .next g (some o) =>
      match rest with
      | [] => none
      | value :: rest =>
        if isOption value then none
        else do readOptions? verb (← g.setValue? o value) rest

def readTopic? : List String → Option CommandLine
  | [] => some (.help .program)
  | [name] =>
    if name = "help" then some (.help .help)
    else (Verb.ofName? name).map fun verb => .help verb.topic
  | _ => none

/-- What a cluster of letters in front of the command asks for, if it asks a question; no answer
if a letter is unknown. -/
def readLeading? : List Char → Option (Option CommandLine)
  | [] => some none
  | 'v' :: cs => readLeading? cs
  | 'h' :: _ => some (some (.help .program))
  | 'V' :: _ => some (some .version)
  | _ => none

def read? : List String → Option CommandLine
  | [] => none
  | argument :: rest =>
    if argument = "--verbose" then read? rest
    else if argument = "--help" then some (.help .program)
    else if argument = "--version" then some .version
    else if argument = "help" then readTopic? rest
    else
      match Verb.ofName? argument, argument.toList with
      | some verb, _ => readOptions? verb .nothing rest
      | none, '-' :: c :: cs =>
        match readLeading? (c :: cs) with
        | none => none
        | some (some answer) => some answer
        | some none => read? rest
      | none, _ => none

end CommandLine

end SkeletonWeave
