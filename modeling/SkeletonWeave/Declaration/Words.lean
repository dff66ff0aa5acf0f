import SkeletonWeave.Token.Basic

/-!
# Words with a meaning in declarations

The reader knows these words and treats every other identifier as a name.
-/

set_option autoImplicit false

namespace SkeletonWeave.Words

/-- Words that announce a type name without being part of it. -/
def elaborating : List String :=
  ["struct", "class", "union", "enum", "typename"]

def builtin : List String :=
  ["void", "bool", "char", "wchar_t", "char16_t", "char32_t", "short", "int", "long", "float",
    "double", "signed", "unsigned", "auto"]

def qualifying : List String :=
  ["const", "volatile", "struct", "class", "union", "enum", "typename"]

def specifying : List String :=
  ["virtual", "static", "inline", "explicit", "friend", "extern", "constexpr", "register",
    "mutable"]

/-- Words that, with a parenthesis after them, are an attribute. -/
def attributes : List String :=
  ["__attribute__", "__declspec", "alignas", "__asm__", "asm"]

/-- Words that stand before a parenthesis without naming a function. -/
def operatorLike : List String :=
  ["decltype", "sizeof", "alignof", "throw", "noexcept", "typeof", "__typeof__"]

def classLike : List String :=
  ["class", "struct", "union", "enum"]

def inheriting : List String :=
  ["public", "protected", "private", "virtual"]

end SkeletonWeave.Words

namespace SkeletonWeave.Token

def isOneOf (t : Token) (words : List String) : Bool :=
  t.kind == .identifier && words.contains t.text

end SkeletonWeave.Token
