import SkeletonWeave.Declaration.Declarator
import SkeletonWeave.Declaration.Extent

/-!
# Reading declarations

Declarations are collected from a stream of tokens: namespaces, classes with
their members, type names and functions. Everything else is passed over by
balancing delimiters. Every step of a loop takes at least one token, so a loop
that may take as many steps as there are tokens, and one more, is never cut short.
-/

set_option autoImplicit false

namespace SkeletonWeave.Declaration

open Declarator (Member Declared)

/-- The names of the namespaces and classes around a declaration, outermost first. A class without
name has an empty one. -/
abbrev Scope := List String

def Scope.qualify (scope : Scope) (name : String) : String :=
  "::".intercalate ((scope ++ [name]).filter (· ≠ ""))

structure Reached where
  declarations : Declarations
  rest : List Token

def addTypedef (d : Declarations) (scope : Scope) (name : String) (target : TypeExpr) :
    Declarations :=
  d.addTypedef ⟨name, scope.qualify name, target⟩

/-- Reads `using X = T;` as a type name and passes over any other use of the word. -/
def readUsing (scope : Scope) (d : Declarations) (keyword : Token) (ts : List Token) :
    Outcome Reached :=
  let pass : Outcome Reached := (skip (keyword :: ts)).map fun rest => ⟨d, rest⟩
  match ts with
  | named :: equals :: after =>
    if named.kind = .identifier ∧ equals.isPunctuation "=" then do
      let (target, rest) ← splitDeclaration after
      return ⟨addTypedef d scope named.text (TypeExpr.ofTokens target), dropSemicolon rest⟩
    else pass
  | _ => pass

def typedefNames (head : List Token) : List (String × TypeExpr) :=
  match Declarator.functionPointer? head with
  | some (some name, type) => [(name, type)]
  | some (none, _) => []
  | none => Declarator.splitDeclarators Declarator.stripArray head

structure Aliasing where
  declarations : Declarations
  target? : Option String

/-- Gives the class that was read last the name of its first alias. -/
def nameLastClass (d : Declarations) (scope : Scope) (name : String) : Declarations :=
  d.modifyLastClass fun c =>
    { c with name := name, qualifiedName := "::".intercalate (scope ++ [name]) }

/-- Reads one declarator after a definition in a `typedef`. A class without name takes the first
one that is no pointer; an enumeration without name is an `int`. -/
def readAlias (scope : Scope) (isEnum : Bool) (a : Aliasing) (part : List Token) : Aliasing :=
  match part.reverse.find? fun t => t.kind == .identifier with
  | none => a
  | some name =>
    let pointers := (part.filter (·.isPunctuation "*")).length
    let a : Aliasing :=
      if a.target?.isNone && pointers == 0 && !isEnum then
        ⟨nameLastClass a.declarations scope name.text, some name.text⟩
      else a
    let base := a.target?.getD "int"
    let type : TypeExpr :=
      if 0 < pointers then
        { TypeExpr.named base with
          pointerDepth := TypeExpr.addDepths pointers 0
          spelling := base ++ "".pushn '*' pointers }
      else TypeExpr.named base
    if name.text ≠ base ∨ 0 < pointers then
      { a with declarations := addTypedef a.declarations scope name.text type }
    else a

def readAliases (scope : Scope) (isEnum : Bool) (a : Aliasing) (ts : List Token) :
    Outcome Reached := do
  let (declarators, rest) ← splitDeclaration ts
  let a := (Token.splitAtCommas declarators).foldl (readAlias scope isEnum) a
  return ⟨a.declarations, dropSemicolon rest⟩

structure Members where
  methods : List Method
  fields : List Field
  firstLine? : Option Nat

def Members.empty : Members := ⟨[], [], none⟩

def Members.add (m : Members) (line : Nat) : Declared → Members
  | .nothing => m
  | .method method =>
    { m with methods := m.methods ++ [method], firstLine? := m.firstLine? <|> some line }
  | .fields fields =>
    { m with fields := m.fields ++ fields, firstLine? := m.firstLine? <|> some line }

structure Body where
  members : Members
  close : Token
  reached : Reached

/-- Reads the body of a class of some name, inside a scope, whose brace `opener` is passed. -/
abbrev BodyReader :=
  (scope : Scope) → (name : String) → (access : Access) → (opener : Token) → Declarations →
    List Token → Outcome Body

def classKind (keyword : Token) : ClassKind :=
  if keyword.text = "struct" then .isStruct
  else if keyword.text = "union" then .isUnion
  else .isClass

def className (head : List Token) : String :=
  let own := head.takeWhile fun t => !t.isPunctuation ":"
  let name? := own.reverse.find? fun t => t.kind == .identifier && !t.isIdentifier "final"
  (name?.map (·.text)).getD ""

def baseClasses (head : List Token) : List String :=
  match head.dropWhile fun t => !t.isPunctuation ":" with
  | [] => []
  | _ :: list =>
    let spellings := (Token.splitAtCommas list).map fun part =>
      Token.spell (part.filter fun t => !t.isOneOf Words.inheriting)
    spellings.filter (· ≠ "")

/-- Reads a class definition from its keyword, its head and the brace of its body. -/
def readClass (readBody : BodyReader) (scope : Scope) (d : Declarations)
    (keyword : Token) (head : List Token) (opener : Token) (ts : List Token) :
    Outcome Reached := do
  let name := className head
  let kind := classKind keyword
  let body ← readBody scope name kind.defaultAccess opener d ts
  let read : Class := {
    name := name
    qualifiedName := scope.qualify name
    kind := kind
    span := ⟨keyword.span.file, keyword.span.start, body.close.span.stop⟩
    headLine := keyword.line
    bases := baseClasses head
    methods := body.members.methods
    fields := body.members.fields
    firstMemberLine? := body.members.firstLine? }
  return { body.reached with declarations := body.reached.declarations.addClass read }

def readTypedef (readBody : BodyReader) (scope : Scope) (d : Declarations) (ts : List Token) :
    Outcome Reached := do
  let (head, rest) ← splitDeclaration ts
  let plain : Outcome Reached :=
    .ok ⟨(typedefNames head).foldl (fun d (name, type) => addTypedef d scope name type) d,
      dropSemicolon rest⟩
  match head, rest with
  | keyword :: inner, brace :: after =>
    if keyword.isOneOf Words.classLike && brace.isPunctuation "\x7b" then
      if keyword.isIdentifier "enum" then
        let (_, _, after) ← closeGroup brace after
        let tag? := inner.reverse.find? fun t => t.kind == .identifier
        readAliases scope true ⟨d, tag?.map (·.text)⟩ after
      else
        let reached ← readClass readBody scope d keyword inner brace after
        let name := className inner
        readAliases scope false ⟨reached.declarations, if name = "" then none else some name⟩
          reached.rest
    else plain
  | _, _ => plain

structure Item where
  declared : Declared
  rest : List Token

def withBody (opening closing : Token) : Declared → Declared
  | .method m => .method { m with body? := some ⟨opening.span, closing.span⟩ }
  | other => other

/-- Reads the declaration of a function or of variables, passing over a body. -/
def readDeclaration (member? : Option Member) (ts : List Token) : Outcome Item := do
  let (head, rest) ← splitDeclaration ts
  match rest with
  | [] => return ⟨.nothing, []⟩
  | t :: after =>
    if t.isPunctuation "\x7d" then return ⟨.nothing, rest⟩
    else
      let declared := Declarator.classify (Declarator.clean head) member?
      if t.isPunctuation ";" then return ⟨declared, after⟩
      else
        let (_, close, after) ← closeGroup t after
        return ⟨withBody t close declared, dropSemicolon after⟩

/-- Reads a declaration that starts with a class keyword: the definition of a class, or anything
else in which the word stands beside a type. -/
def readClassOrDeclaration (readBody : BodyReader) (scope : Scope) (member? : Option Member)
    (d : Declarations) (keyword : Token) (ts : List Token) : Outcome (Declared × Reached) := do
  let (head, rest) ← splitDeclaration (keyword :: ts)
  let isDefinition := rest.head?.any (·.isPunctuation "\x7b") &&
    !head.any fun t => t.isPunctuation "(" || t.isPunctuation "="
  match isDefinition, rest with
  | true, opener :: after =>
    let reached ← readClass readBody scope d keyword head.tail opener after
    if reached.rest.head?.any (·.isPunctuation ";") then
      return (.nothing, { reached with rest := reached.rest.tail })
    else
      return (.nothing, { reached with rest := ← skip reached.rest })
  | _, _ =>
    let item ← readDeclaration member? (keyword :: ts)
    return (item.declared, ⟨d, item.rest⟩)

def accessLabel? (t : Token) (ts : List Token) : Option Access :=
  if ts.head?.any (·.isPunctuation ":") then
    if t.text = "public" then some .isPublic
    else if t.text = "protected" then some .isProtected
    else if t.text = "private" then some .isPrivate
    else none
  else none

def readMember (readBody : BodyReader) (scope : Scope) (member : Member) (d : Declarations)
    (t : Token) (ts : List Token) : Outcome (Declared × Reached) := do
  if t.text = "friend" ∨ t.text = "enum" ∨ t.text = "static_assert" then
    return (.nothing, ⟨d, ← skip (t :: ts)⟩)
  else if t.text = "using" then
    return (.nothing, ← readUsing scope d t ts)
  else if t.text = "template" then
    return (.nothing, ⟨d, ← skipTemplate ts⟩)
  else if t.text = "typedef" then
    return (.nothing, ← readTypedef readBody scope d ts)
  else if t.text = "class" ∨ t.text = "struct" ∨ t.text = "union" then
    readClassOrDeclaration readBody scope (some member) d t ts
  else
    let item ← readDeclaration (some member) (t :: ts)
    return (item.declared, ⟨d, item.rest⟩)

/-- Reads the members of a class through its closing brace, in at most `steps` steps. `scope` ends
with the class. -/
def readMembers (steps : Nat) (scope : Scope) (name : String) (opener : Token) (access : Access)
    (members : Members) (d : Declarations) (ts : List Token) : Outcome Body :=
  match steps, ts with
  | 0, _ => .error (unbalanced opener)
  | _ + 1, [] => .error (unbalanced opener)
  | steps + 1, t :: rest =>
    if t.isPunctuation "\x7d" then .ok ⟨members, t, ⟨d, rest⟩⟩
    else if t.isPunctuation ";" then
      readMembers steps scope name opener access members d rest
    else
      match accessLabel? t rest with
      | some access => readMembers steps scope name opener access members d rest.tail
      | none => do
        let readBody : BodyReader := fun scope name access opener d ts =>
          readMembers steps (scope ++ [name]) name opener access Members.empty d ts
        let (declared, reached) ← readMember readBody scope ⟨name, access⟩ d t rest
        readMembers steps scope name opener access (members.add t.line declared)
          reached.declarations reached.rest

def readBody : BodyReader := fun scope name access opener d ts =>
  readMembers (ts.length + 1) (scope ++ [name]) name opener access Members.empty d ts

def addFunction (d : Declarations) (scope : Scope) : Declared → Declarations
  | .method m =>
    if m.kind = .regular then
      d.addFunction {
        name := m.name
        qualifiedName := scope.qualify m.name
        returnType := m.returnType?.getD TypeExpr.void
        line := m.line
        nameSpan := m.nameSpan
        body? := m.body? }
    else d
  | _ => d

def inNamespaceName (t : Token) : Bool :=
  t.kind == .identifier || t.isPunctuation "::"

/-- Reads the declaration that starts with `t` outside of classes. `readInner` reads a scope
through its closing brace, after the given opening one. -/
def readItem (readInner : Scope → Token → Declarations → List Token → Outcome Reached)
    (scope : Scope) (d : Declarations) (t : Token) (ts : List Token) : Outcome Reached := do
  let isLinkage : Bool :=
    match ts with
    | language :: brace :: _ => language.kind == .string && brace.isPunctuation "\x7b"
    | _ => false
  if t.text = "namespace" then
    let names := (ts.takeWhile inNamespaceName).filter fun u => u.kind == .identifier
    match ts.dropWhile inNamespaceName with
    | opener :: after =>
      if opener.isPunctuation "\x7b" then
        readInner (scope ++ names.map (·.text)) opener d after
      else return ⟨d, ← skip (opener :: after)⟩
    | [] => return ⟨d, ← skip []⟩
  else if t.text = "inline" ∧ ts.head?.any (·.isIdentifier "namespace") then
    return ⟨d, ts⟩
  else if t.text = "extern" ∧ isLinkage then
    match ts with
    | _ :: brace :: after => readInner scope brace d after
    | _ => return ⟨d, ts⟩
  else if t.text = "using" then readUsing scope d t ts
  else if t.text = "template" then return ⟨d, ← skipTemplate ts⟩
  else if t.text = "typedef" then readTypedef readBody scope d ts
  else if t.text = "enum" ∨ t.text = "static_assert" then return ⟨d, ← skip (t :: ts)⟩
  else if t.text = "class" ∨ t.text = "struct" ∨ t.text = "union" then
    return (← readClassOrDeclaration readBody scope none d t ts).2
  else
    let item ← readDeclaration none (t :: ts)
    return ⟨addFunction d scope item.declared, item.rest⟩

/-- Reads declarations in at most `steps` steps: through the brace that closes `opener?`, or to the
end of the tokens if there is no brace to close. -/
def readScope (steps : Nat) (scope : Scope) (opener? : Option Token) (d : Declarations)
    (ts : List Token) : Outcome Reached :=
  match steps, ts with
  | 0, ts => .ok ⟨d, ts⟩
  | _ + 1, [] =>
    match opener? with
    | some opener => .error (unbalanced opener)
    | none => .ok ⟨d, []⟩
  | steps + 1, t :: rest =>
    if t.isPunctuation "\x7d" then
      if opener?.isSome then .ok ⟨d, rest⟩ else .error ⟨.unexpected t.text, t.span⟩
    else if t.isPunctuation ";" then readScope steps scope opener? d rest
    else if t.isPunctuation "\x7b" then do
      let (_, _, after) ← closeGroup t rest
      readScope steps scope opener? d after
    else do
      let readInner := fun scope opener d ts => readScope steps scope (some opener) d ts
      let reached ← readItem readInner scope d t rest
      readScope steps scope opener? reached.declarations reached.rest

def Fault.toError (files : List Source.File) (f : Fault) : Source.Error :=
  let name? := (files.find? fun file => file.id == f.span.file).map (·.path)
  .located f.cause (name?.getD "<unknown>") f.span.start f.span.length

def read (files : List Source.File) (ts : List Token) : Except Source.Error Declarations :=
  match readScope (ts.length + 1) [] none Declarations.empty ts with
  | .ok reached => .ok reached.declarations
  | .error fault => .error (fault.toError files)

end SkeletonWeave.Declaration
