import SkeletonWeave.Code.Fragment
import SkeletonWeave.Json.Value

/-!
# Configurations as JSON

The text of all settings for other programs, under the keys by which they are
set.
-/

set_option autoImplicit false

namespace SkeletonWeave

open Json (Value)

def SourcesSection.toJson (s : SourcesSection) : Value :=
  .object [("skeleton", .string s.skeleton), ("output", .string s.output),
    ("manager_header", .string s.managerHeader), ("include_dirs", .ofStrings s.includeDirs),
    ("defines", .ofStrings s.defines), ("ignored_macros", .ofStrings s.ignoredMacros)]

def HandlerSection.toJson (s : HandlerSection) : Value :=
  .object [("class", .string s.className), ("return_argument", .string s.returnArgument),
    ("retval_field", .string s.resultField)]

def ManagerSection.toJson (s : ManagerSection) : Value :=
  .object [("class", .string s.className), ("singleton_accessor", .string s.accessor),
    ("variable", .string s.objectName), ("ignored_methods", .ofStrings s.ignoredMethods),
    ("short_name", .string s.shortName)]

def MatchingSection.toJson (s : MatchingSection) : Value :=
  .object [("disambiguation_pattern", .string s.pattern),
    ("callback_marker", .string s.callbackMarker), ("context_marker", .string s.contextMarker),
    ("context_expression", .string s.contextExpression),
    ("conversions", .array (s.conversions.map fun (type, call) => .ofStrings [type, call]))]

def EmitSection.toldWidth : Nat := 4096

def EmitSection.toJson (s : EmitSection) : Value :=
  let lengths : Value :=
    if toldWidth < s.indentWidth then .null
    else .array [.number s.indentUnit.length, .number (Code.Indent.ofEmit s).unit.length]
  .object [("lock", .string s.lock), ("result_variable", .string s.resultVariable),
    ("indent", .string (match s.indent with | .tab => "tab" | .spaces => "spaces")),
    ("indent_width", .number s.indentWidth), ("comment_out_main", .boolean s.commentOutMain),
    ("banner", .ofStrings s.banner), ("indent_units", lengths)]

def Configuration.toJson (c : Configuration) : Value :=
  .object [("sources", c.sources.toJson), ("handler", c.handler.toJson),
    ("manager", c.manager.toJson), ("matching", c.matching.toJson), ("emit", c.emit.toJson)]

end SkeletonWeave
