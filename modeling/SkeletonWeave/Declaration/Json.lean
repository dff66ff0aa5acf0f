import SkeletonWeave.Declaration.Basic
import SkeletonWeave.Json.Value

/-!
# Declarations as JSON

The text of types, places and declarations for other programs.
-/

set_option autoImplicit false

namespace SkeletonWeave

open Json (Value)

namespace TypeExpr

mutual

def toJson : TypeExpr → Value
  | ⟨spelling, base, isConst, pointerDepth, isReference, arguments, signature⟩ =>
    .object [("spelling", .string spelling), ("base", .string base),
      ("is_const", .boolean isConst), ("pointer_depth", .number pointerDepth),
      ("is_reference", .boolean isReference), ("template_args", .array (listToJson arguments)),
      ("function", signatureToJson signature)]

def listToJson : List TypeExpr → List Value
  | [] => []
  | t :: ts => toJson t :: listToJson ts

def signatureToJson : Option (TypeExpr × List TypeExpr) → Value
  | none => .null
  | some (result, params) =>
    .object [("return_type", toJson result), ("params", .array (listToJson params))]

end

end TypeExpr

namespace Source

def Span.toJson (s : Span) : Value :=
  .object [("file", .number s.file), ("start", .number s.start), ("end", .number s.stop)]

def Body.toJson (b : Body) : Value :=
  .object [("open", b.opening.toJson), ("close", b.closing.toJson)]

end Source

def Access.toJson : Access → Value
  | isPublic => .string "public"
  | isProtected => .string "protected"
  | isPrivate => .string "private"

def ClassKind.toJson : ClassKind → Value
  | isClass => .string "class"
  | isStruct => .string "struct"
  | isUnion => .string "union"

def MethodKind.toJson : MethodKind → Value
  | regular => .string "regular"
  | constructor => .string "constructor"
  | destructor => .string "destructor"

def Param.toJson (p : Param) : Value :=
  .object [("name", .ofOption Value.string p.name?), ("ty", p.type.toJson),
    ("has_default", .boolean p.hasDefault)]

def Method.toJson (m : Method) : Value :=
  .object [("name", .string m.name), ("kind", m.kind.toJson),
    ("return_type", .ofOption TypeExpr.toJson m.returnType?),
    ("params", .array (m.params.map Param.toJson)), ("access", m.access.toJson),
    ("is_static", .boolean m.isStatic), ("is_virtual", .boolean m.isVirtual),
    ("is_const", .boolean m.isConst), ("line", .number m.line),
    ("name_span", m.nameSpan.toJson), ("body", .ofOption Source.Body.toJson m.body?)]

def Field.toJson (f : Field) : Value :=
  .object [("name", .string f.name), ("ty", f.type.toJson), ("access", f.access.toJson),
    ("is_static", .boolean f.isStatic)]

def Class.toJson (c : Class) : Value :=
  .object [("name", .string c.name), ("qualified_name", .string c.qualifiedName),
    ("kind", c.kind.toJson), ("span", c.span.toJson), ("head_line", .number c.headLine),
    ("bases", .ofStrings c.bases), ("methods", .array (c.methods.map Method.toJson)),
    ("fields", .array (c.fields.map Field.toJson)),
    ("first_member_line", .ofOption Value.number c.firstMemberLine?)]

def Typedef.toJson (t : Typedef) : Value :=
  .object [("name", .string t.name), ("qualified_name", .string t.qualifiedName),
    ("target", t.target.toJson)]

def FreeFunction.toJson (f : FreeFunction) : Value :=
  .object [("name", .string f.name), ("qualified_name", .string f.qualifiedName),
    ("return_type", f.returnType.toJson), ("line", .number f.line),
    ("name_span", f.nameSpan.toJson), ("body", .ofOption Source.Body.toJson f.body?)]

end SkeletonWeave
