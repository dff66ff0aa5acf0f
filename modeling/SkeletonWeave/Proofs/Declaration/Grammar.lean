import SkeletonWeave.Declaration.Reader
import SkeletonWeave.Proofs.Token.Spacing

/-!
# A grammar of declarations

Namespaces and classes as trees: how they are written, word for word, and which
classes they declare. Names, types and bodies carry what makes them readable.
-/

set_option autoImplicit false

namespace SkeletonWeave.Grammar

open Declaration (Scope)

def keywords : List String :=
  ["alignas", "alignof", "asm", "auto", "bool", "break", "case", "catch", "char", "char8_t",
    "char16_t", "char32_t", "class", "concept", "const", "consteval", "constexpr", "constinit",
    "const_cast", "continue", "co_await", "co_return", "co_yield", "decltype", "default", "delete",
    "do", "double", "dynamic_cast", "else", "enum", "explicit", "export", "extern", "false",
    "float", "for", "friend", "goto", "if", "inline", "int", "long", "mutable", "namespace", "new",
    "noexcept", "nullptr", "operator", "private", "protected", "public", "register",
    "reinterpret_cast", "requires", "return", "short", "signed", "sizeof", "static",
    "static_assert", "static_cast", "struct", "switch", "template", "this", "thread_local",
    "throw", "true", "try", "typedef", "typeid", "typename", "union", "unsigned", "using",
    "virtual", "void", "volatile", "wchar_t", "while"]

def reserved : List String :=
  keywords ++ ["final"] ++ Words.elaborating ++ Words.builtin ++ Words.qualifying ++
    Words.specifying ++ Words.attributes ++ Words.operatorLike ++ Words.classLike ++
    Words.inheriting

def isName (text : String) : Bool :=
  match text.toList with
  | [] => false
  | c :: cs => Lexeme.isNameStart c && cs.all Lexeme.isNamePart && !reserved.contains text

structure Name where
  text : String
  isName : isName text = true

structure Path where
  first : Name
  more : List Name

mutual

/-- A type: perhaps `const`, what it is based on, pointers, and perhaps a reference. -/
inductive TypeSyntax where
  | mk (isConst : Bool) (base : BaseSyntax) (pointers : Fin 255)
    (isReference : Bool)

inductive BaseSyntax where
  | builtin (word : { w : String // w ∈ Words.builtin })
  | named (path : Path)
  | applied (path : Path) (arguments : List TypeSyntax)

end

def mark (text : String) : Word := ⟨.punctuation, text⟩

def word (text : String) : Word := ⟨.identifier, text⟩

structure ParamSyntax where
  type : TypeSyntax
  name : Name

def bracesPair : Nat → List Word → Bool
  | depth, [] => depth == 0
  | depth, w :: ws =>
    if w = mark "\x7b" then bracesPair (depth + 1) ws
    else if w = mark "\x7d" then depth != 0 && bracesPair (depth - 1) ws
    else bracesPair depth ws

/-- What stands between the braces of a method: tokens of any kind but directives. -/
structure BodySyntax where
  words : List Word
  areTokens : ∀ w ∈ words, w.isToken = true
  bracesPair : bracesPair 0 words = true

structure MethodSyntax where
  result : TypeSyntax
  name : Name
  params : List ParamSyntax
  body? : Option BodySyntax

structure ClassHead where
  kind : ClassKind
  name : Name
  bases : List (Access × Path)

inductive MemberSyntax where
  | label (access : Access)
  | field (type : TypeSyntax) (name : Name)
  | method (method : MethodSyntax)
  | nested (head : ClassHead) (members : List MemberSyntax)

inductive ItemSyntax where
  | space (name : Name) (items : List ItemSyntax)
  | definition (head : ClassHead) (members : List MemberSyntax)

def Name.word (n : Name) : Word := Grammar.word n.text

def separated (parts : List (List Word)) : List Word :=
  [mark ","].intercalate parts

def Path.words (p : Path) : List Word :=
  p.first.word :: p.more.flatMap fun n => [mark "::", n.word]

mutual

def TypeSyntax.words : TypeSyntax → List Word
  | .mk isConst base pointers isReference =>
    (if isConst then [word "const"] else []) ++ base.words ++
      List.replicate pointers (mark "*") ++ (if isReference then [mark "&"] else [])

def BaseSyntax.words : BaseSyntax → List Word
  | .builtin w => [word w]
  | .named path => path.words
  | .applied path arguments =>
    path.words ++ mark "<" :: (separated (argumentWords arguments) ++ [mark ">"])

def argumentWords : List TypeSyntax → List (List Word)
  | [] => []
  | t :: ts => t.words :: argumentWords ts

end

def ParamSyntax.words (p : ParamSyntax) : List Word :=
  p.type.words ++ [p.name.word]

def BodySyntax.braced (b : BodySyntax) : List Word :=
  mark "\x7b" :: (b.words ++ [mark "\x7d"])

def MethodSyntax.words (m : MethodSyntax) : List Word :=
  m.result.words ++ m.name.word :: mark "(" ::
    (separated (m.params.map ParamSyntax.words) ++ mark ")" ::
      (m.body?.map BodySyntax.braced).getD [mark ";"])

def accessWord : Access → Word
  | .isPublic => word "public"
  | .isProtected => word "protected"
  | .isPrivate => word "private"

def keyword : ClassKind → Word
  | .isClass => word "class"
  | .isStruct => word "struct"
  | .isUnion => word "union"

def baseWords (b : Access × Path) : List Word :=
  accessWord b.1 :: b.2.words

def basesWords (bases : List (Access × Path)) : List Word :=
  if bases = [] then [] else mark ":" :: separated (bases.map baseWords)

def ClassHead.words (h : ClassHead) : List Word :=
  keyword h.kind :: h.name.word :: basesWords h.bases

mutual

def MemberSyntax.words : MemberSyntax → List Word
  | .label access => [accessWord access, mark ":"]
  | .field type name => type.words ++ [name.word, mark ";"]
  | .method m => m.words
  | .nested head members =>
    head.words ++ mark "\x7b" :: (memberWords members ++ [mark "\x7d", mark ";"])

def memberWords : List MemberSyntax → List Word
  | [] => []
  | m :: ms => m.words ++ memberWords ms

end

mutual

def ItemSyntax.words : ItemSyntax → List Word
  | .space name items =>
    word "namespace" :: name.word :: mark "\x7b" :: (itemWords items ++ [mark "\x7d"])
  | .definition head members =>
    head.words ++ mark "\x7b" :: (memberWords members ++ [mark "\x7d", mark ";"])

def itemWords : List ItemSyntax → List Word
  | [] => []
  | i :: is => i.words ++ itemWords is

end

def Path.text (p : Path) : String :=
  "::".intercalate ((p.first :: p.more).map (·.text))

mutual

def TypeSyntax.spelling : TypeSyntax → String
  | .mk isConst base pointers isReference =>
    (if isConst then "const " else "") ++ base.spelling ++
      String.ofList (List.replicate pointers '*') ++ (if isReference then "&" else "")

def BaseSyntax.spelling : BaseSyntax → String
  | .builtin w => w
  | .named path => path.text
  | .applied path arguments =>
    path.text ++ "<" ++ ", ".intercalate (argumentSpellings arguments) ++ ">"

def argumentSpellings : List TypeSyntax → List String
  | [] => []
  | t :: ts => t.spelling :: argumentSpellings ts

end

mutual

def TypeSyntax.denotes : TypeSyntax → TypeExpr
  | .mk isConst base pointers isReference =>
    ⟨(TypeSyntax.mk isConst base pointers isReference).spelling, base.spelling, isConst, pointers,
      isReference, base.arguments, none⟩

def BaseSyntax.arguments : BaseSyntax → List TypeExpr
  | .builtin _ => []
  | .named _ => []
  | .applied _ arguments => argumentTypes arguments

def argumentTypes : List TypeSyntax → List TypeExpr
  | [] => []
  | t :: ts => t.denotes :: argumentTypes ts

end

def ParamSyntax.denotes (p : ParamSyntax) : Param :=
  ⟨some p.name.text, p.type.denotes, false⟩

def nowhere : Source.Span := ⟨0, 0, 0⟩

def MethodSyntax.denotes (m : MethodSyntax) (access : Access) : Method where
  name := m.name.text
  kind := .regular
  returnType? := some m.result.denotes
  params := m.params.map ParamSyntax.denotes
  access := access
  isStatic := false
  isVirtual := false
  isConst := false
  line := 0
  nameSpan := nowhere
  body? := m.body?.map fun _ => ⟨nowhere, nowhere⟩

/-- The methods that members declare, `access` being in force before them. -/
def declaredMethods (access : Access) : List MemberSyntax → List Method
  | [] => []
  | .label later :: ms => declaredMethods later ms
  | .method m :: ms => m.denotes access :: declaredMethods access ms
  | _ :: ms => declaredMethods access ms

def declaredFields (access : Access) : List MemberSyntax → List Field
  | [] => []
  | .label later :: ms => declaredFields later ms
  | .field type name :: ms => ⟨name.text, type.denotes, access, false⟩ :: declaredFields access ms
  | _ :: ms => declaredFields access ms

def ClassHead.denotes (h : ClassHead) (scope : List Name) (members : List MemberSyntax) : Class where
  name := h.name.text
  qualifiedName := "::".intercalate ((scope ++ [h.name]).map (·.text))
  kind := h.kind
  span := nowhere
  headLine := 0
  bases := h.bases.map fun b => b.2.text
  methods := declaredMethods h.kind.defaultAccess members
  fields := declaredFields h.kind.defaultAccess members
  firstMemberLine? := none

mutual

def MemberSyntax.classes (scope : List Name) : MemberSyntax → List Class
  | .nested head members =>
    memberClasses (scope ++ [head.name]) members ++ [head.denotes scope members]
  | _ => []

def memberClasses (scope : List Name) : List MemberSyntax → List Class
  | [] => []
  | m :: ms => m.classes scope ++ memberClasses scope ms

end

mutual

def ItemSyntax.classes (scope : List Name) : ItemSyntax → List Class
  | .space name items => itemClasses (scope ++ [name]) items
  | .definition head members =>
    memberClasses (scope ++ [head.name]) members ++ [head.denotes scope members]

def itemClasses (scope : List Name) : List ItemSyntax → List Class
  | [] => []
  | i :: is => i.classes scope ++ itemClasses scope is

end

end SkeletonWeave.Grammar

namespace SkeletonWeave

open Grammar (nowhere)

def Method.unplaced (m : Method) : Method :=
  { m with
    line := 0
    nameSpan := nowhere
    body? := m.body?.map fun _ => ⟨nowhere, nowhere⟩ }

def Class.unplaced (c : Class) : Class :=
  { c with
    span := nowhere
    headLine := 0
    methods := c.methods.map Method.unplaced
    firstMemberLine? := none }

end SkeletonWeave
