import SkeletonWeave.Configuration.Basic
import SkeletonWeave.Configuration.Error
import SkeletonWeave.Pattern.Library
import SkeletonWeave.Text.Blank
import SkeletonWeave.Text.Position

/-!
# Checking configurations

Names that are written into generated code must be identifiers of C++ and none
of its keywords; class names and types may be qualified. The pattern must have
two groups, and the markers must not be blank. The first broken rule counts.
-/

set_option autoImplicit false

namespace SkeletonWeave.Configuration

def reservedWords : List String :=
  ["alignas", "alignof", "and", "and_eq", "asm", "auto", "bitand", "bitor", "bool", "break",
    "case", "catch", "char", "char16_t", "char32_t", "class", "compl", "const", "constexpr",
    "const_cast", "continue", "decltype", "default", "delete", "do", "double", "dynamic_cast",
    "else", "enum", "explicit", "export", "extern", "false", "float", "for", "friend", "goto",
    "if", "inline", "int", "long", "mutable", "namespace", "new", "noexcept", "not", "not_eq",
    "nullptr", "operator", "or", "or_eq", "private", "protected", "public", "register",
    "reinterpret_cast", "return", "short", "signed", "sizeof", "static", "static_assert",
    "static_cast", "struct", "switch", "template", "this", "thread_local", "throw", "true", "try",
    "typedef", "typeid", "typename", "union", "unsigned", "using", "virtual", "void", "volatile",
    "wchar_t", "while", "xor", "xor_eq"]

def identifierFault? (name : String) : Option String :=
  match name.toList with
  | [] => some "name cannot be empty"
  | c :: cs =>
    if !(c.isAlpha || c == '_') then some "name must start with a letter or underscore"
    else if cs.all fun c => c.isAlphanum || c == '_' then none
    else some "name must contain only letters, numbers, and underscores"

/-- The byte position of the first occurrence of a part, for a text that starts at `offset`. -/
def positionFrom? (part : List Char) (offset : Nat) : List Char → Option Nat
  | [] => if part.isEmpty then some offset else none
  | c :: cs =>
    if part.isPrefixOf (c :: cs) then some offset
    else positionFrom? part (offset + c.utf8Size) cs

/-- The place of a value in a text: between double quotes, or else between single quotes, or else
as a bare key after a brace or a comma. -/
def findValue? (text value : String) : Option ValueSpan :=
  if value.isEmpty then none
  else
    let cs := text.toList
    let place (before after : String) : Option ValueSpan :=
      (positionFrom? (before ++ value ++ after).toList 0 cs).map fun start =>
        ⟨start + before.utf8ByteSize, value.utf8ByteSize⟩
    place "\"" "\"" <|> place "'" "'" <|> place "\x7b " " =" <|> place ", " " ="

structure Site where
  text : String
  file : String
  path : List String
  deriving DecidableEq, Repr

namespace Site

def push (s : Site) (segment : String) : Site :=
  { s with path := s.path ++ [segment] }

def pathText (s : Site) : String :=
  ".".intercalate s.path

def context (s : Site) (kind : String) : String :=
  if s.path.isEmpty then kind else kind ++ " in '" ++ s.pathText ++ "'"

def reject (s : Site) (value? : Option String) (v : Violation) : Except Error Unit :=
  .error (.violated s.file (value?.bind (findValue? s.text)) v)

def checkName (s : Site) (name kind : String) : Except Error Unit :=
  if reservedWords.contains name then s.reject name (.reservedWord name (s.context kind))
  else
    match identifierFault? name with
    | some reason => s.reject name (.invalidName name (s.context kind) reason)
    | none => .ok ()

def checkSegments (s : Site) (name kind : String) : List String → Except Error Unit
  | [] => .ok ()
  | segment :: rest =>
    if reservedWords.contains segment then
      s.reject name (.reservedWord segment (s.context kind))
    else
      match identifierFault? segment with
      | some reason => s.reject name (.invalidName name (s.context kind) reason)
      | none => s.checkSegments name kind rest

def checkQualifiedName (s : Site) (name kind : String) : Except Error Unit :=
  let inner :=
    match name.toList with
    | ':' :: ':' :: rest => rest
    | cs => cs
  s.checkSegments name kind ((Text.splitOn "::".toList inner).map String.ofList)

def checkMarker (s : Site) (marker kind : String) : Except Error Unit :=
  if (Text.trim marker.toList).isEmpty then
    s.reject none (.other (s.context kind ++ " cannot be empty"))
  else .ok ()

def checkPattern [PatternLibrary] (s : Site) (pattern : String) : Except Error Unit :=
  match PatternLibrary.compile? pattern with
  | none => s.reject pattern .invalidPattern
  | some p =>
    if PatternLibrary.groupCount p = 2 then .ok ()
    else
      s.reject pattern (.other ("disambiguation pattern must have exactly two capture groups " ++
        "(name, hint), found " ++ Nat.repr (PatternLibrary.groupCount p)))

end Site

def check [PatternLibrary] (c : Configuration) (text file : String) : Except Error Unit := do
  let site : Site := ⟨text, file, []⟩
  let handler := site.push "handler"
  handler.checkQualifiedName c.handler.className "class name"
  handler.checkName c.handler.returnArgument "return argument"
  handler.checkName c.handler.resultField "retval field"
  let manager := site.push "manager"
  manager.checkQualifiedName c.manager.className "class name"
  manager.checkName c.manager.accessor "singleton accessor"
  manager.checkName c.manager.objectName "variable name"
  c.manager.ignoredMethods.forM (manager.checkName · "ignored method")
  let matching := site.push "matching"
  matching.checkPattern c.matching.pattern
  matching.checkMarker c.matching.callbackMarker "callback marker"
  matching.checkMarker c.matching.contextMarker "context marker"
  c.matching.conversions.forM fun (type, _) => matching.checkQualifiedName type "conversion type"
  let emit := site.push "emit"
  emit.checkName c.emit.lock "lock name"
  emit.checkName c.emit.resultVariable "result variable"
  if c.emit.indent = .spaces ∧ c.emit.indentWidth = 0 then
    emit.reject none (.other "indent_width must be at least 1 when indent = \"spaces\"")
  else .ok ()

/-- The checked configuration that a text states; `file` names the text in failures. -/
def parse [PatternLibrary] [ConfigurationFormat] (text file : String) :
    Except Error Configuration :=
  match ConfigurationFormat.decode? text with
  | none => .error (.malformed file)
  | some c => (c.check text file).map fun _ => c

end SkeletonWeave.Configuration
