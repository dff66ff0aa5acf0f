import SkeletonWeave.Declaration.Basic

/-!
# Looking up names

Names are found by their qualified name first and by a suffix of it next. Types
are followed through type names, at most sixteen in a row, and have an element
size when they designate a number, directly or as the element of a container.
-/

set_option autoImplicit false

namespace SkeletonWeave

structure SymbolTable where
  files : List Source.File
  declarations : Declarations
  deriving Repr, Inhabited

namespace SymbolTable

def classes (s : SymbolTable) : List Class := s.declarations.classes

def typedefs (s : SymbolTable) : List Typedef := s.declarations.typedefs

def functions (s : SymbolTable) : List FreeFunction := s.declarations.functions

def file? (s : SymbolTable) (id : Nat) : Option Source.File :=
  s.files.find? (·.id == id)

def bareName (name : String) : String :=
  String.ofList (Text.dropPrefixes "::".toList name.toList)

def endsInScope (qualified name : String) : Bool :=
  ("::" ++ name).toList.isSuffixOf qualified.toList

/-- The class of a qualified name, or else the first whose qualified name ends with it. -/
def class? (s : SymbolTable) (name : String) : Option Class :=
  let name := bareName name
  (s.classes.find? (·.qualifiedName == name)) <|>
    (s.classes.find? fun c => endsInScope c.qualifiedName name)

/-- The first class of a name, qualified or not, that one file defines. -/
def classInFile? (s : SymbolTable) (file : Nat) (name : String) : Option Class :=
  s.classes.find? fun c => c.span.file == file && (c.qualifiedName == name || c.name == name)

/-- The type name of a qualified name, or else the first whose qualified name ends with it, or
else the first whose last segment is the same. -/
def typedef? (s : SymbolTable) (name : String) : Option Typedef :=
  let name := bareName name
  (s.typedefs.find? (·.qualifiedName == name)) <|>
    (s.typedefs.find? fun t => endsInScope t.qualifiedName name) <|>
    (s.typedefs.find? (·.name == String.ofList (Text.afterLast "::".toList name.toList)))

def function? (s : SymbolTable) (name : String) : Option FreeFunction :=
  s.functions.find? (·.name == name)

def resolutionLimit : Nat := 16

/-- The type that a type name stands for where `outer` is written. -/
def substitute (outer target : TypeExpr) : TypeExpr :=
  { target with
    pointerDepth := TypeExpr.addDepths target.pointerDepth outer.pointerDepth
    isConst := target.isConst || outer.isConst
    isReference := target.isReference || outer.isReference }

/-- Follows at most `steps` type names. -/
def resolveWithin (s : SymbolTable) : Nat → TypeExpr → TypeExpr
  | 0, t => t
  | steps + 1, t =>
    match s.typedef? t.base with
    | none => t
    | some name =>
      if name.name == t.base && name.target.base == t.base then t
      else s.resolveWithin steps (substitute t name.target)

/-- The type behind the type names; the marks of the written type are kept. -/
def resolve (s : SymbolTable) (t : TypeExpr) : TypeExpr :=
  s.resolveWithin resolutionLimit t

def classOf? (s : SymbolTable) (t : TypeExpr) : Option Class :=
  s.class? (s.resolve t).base

def builtinSizes : List (String × Nat) :=
  [("bool", 8), ("char", 8), ("signed char", 8), ("unsigned char", 8), ("int8_t", 8),
    ("uint8_t", 8), ("short", 16), ("short int", 16), ("unsigned short", 16),
    ("unsigned short int", 16), ("int16_t", 16), ("uint16_t", 16), ("int", 32), ("signed", 32),
    ("unsigned", 32), ("signed int", 32), ("unsigned int", 32), ("int32_t", 32),
    ("uint32_t", 32), ("float", 32), ("long", 64), ("unsigned long", 64), ("long long", 64),
    ("unsigned long long", 64), ("int64_t", 64), ("uint64_t", 64), ("double", 64),
    ("size_t", 64)]

/-- Containers whose size is told by their first template argument. -/
def containers : List String :=
  ["vector", "list", "set", "deque", "array"]

def elementWithin (s : SymbolTable) : Nat → TypeExpr → TypeExpr
  | 0, t => t
  | steps + 1, t =>
    match t.arguments with
    | first :: _ =>
      if containers.contains t.baseName then s.elementWithin steps (s.resolve first) else t
    | [] => t

/-- The size in bits of the number that a type designates, through type names, pointers,
references and containers. -/
def elementSize? (s : SymbolTable) (t : TypeExpr) : Option Nat :=
  let element := s.elementWithin resolutionLimit (s.resolve t)
  if element.isFunctionPointer then none
  else
    builtinSizes.lookup (String.ofList (Text.dropPrefixes "std::".toList element.base.toList))

end SymbolTable

end SkeletonWeave
