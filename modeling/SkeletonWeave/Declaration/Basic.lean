import SkeletonWeave.Declaration.TypeExpr
import SkeletonWeave.Source.Place

/-!
# Declarations

What is known of a class, a type alias and a function after reading: names,
types, access, and where in the source they stand.
-/

set_option autoImplicit false

namespace SkeletonWeave

inductive Access where
  | isPublic
  | isProtected
  | isPrivate
  deriving DecidableEq, Repr, Inhabited

inductive ClassKind where
  | isClass
  | isStruct
  | isUnion
  deriving DecidableEq, Repr, Inhabited

def ClassKind.defaultAccess : ClassKind → Access
  | isClass => .isPrivate
  | isStruct | isUnion => .isPublic

inductive MethodKind where
  | regular
  | constructor
  | destructor
  deriving DecidableEq, Repr, Inhabited

structure Param where
  name? : Option String
  type : TypeExpr
  hasDefault : Bool
  deriving Repr, Inhabited, BEq

/-- A member function. Constructors and destructors have no return type, and only a method that
is defined where it is declared has a body. `line` is the line of its name. -/
structure Method where
  name : String
  kind : MethodKind
  returnType? : Option TypeExpr
  params : List Param
  access : Access
  isStatic : Bool
  isVirtual : Bool
  isConst : Bool
  line : Nat
  nameSpan : Source.Span
  body? : Option Source.Body
  deriving Repr, Inhabited, BEq

namespace Method

def isPublic (m : Method) : Bool :=
  m.access == .isPublic

def isRegular (m : Method) : Bool :=
  m.kind == .regular

/-- Whether a call gives no value; constructors and destructors give none. -/
def returnsVoid (m : Method) : Bool :=
  m.returnType?.all TypeExpr.isVoid

def param? (m : Method) (name : String) : Option Param :=
  m.params.find? fun p => p.name? == some name

end Method

structure Field where
  name : String
  type : TypeExpr
  access : Access
  isStatic : Bool
  deriving Repr, Inhabited, BEq

/-- A class definition. Its span runs from the keyword, which stands on line `headLine`, through
the closing brace. -/
structure Class where
  name : String
  qualifiedName : String
  kind : ClassKind
  span : Source.Span
  headLine : Nat
  bases : List String
  methods : List Method
  fields : List Field
  firstMemberLine? : Option Nat
  deriving Repr, Inhabited, BEq

namespace Class

/-- The public methods that are neither constructors nor destructors, in order. -/
def publicMethods (c : Class) : List Method :=
  c.methods.filter fun m => m.isPublic && m.isRegular

def overloads (c : Class) (name : String) : List Method :=
  c.publicMethods.filter (·.name == name)

/-- The data member of a name that each object has of its own. -/
def field? (c : Class) (name : String) : Option Field :=
  c.fields.find? fun f => f.name == name && !f.isStatic

end Class

structure Typedef where
  name : String
  qualifiedName : String
  target : TypeExpr
  deriving Repr, Inhabited, BEq

structure FreeFunction where
  name : String
  qualifiedName : String
  returnType : TypeExpr
  line : Nat
  nameSpan : Source.Span
  body? : Option Source.Body
  deriving Repr, Inhabited, BEq

/-- Declarations in the order in which they are complete: nested classes before the class around
them. -/
structure Declarations where
  classes : List Class
  typedefs : List Typedef
  functions : List FreeFunction
  deriving Repr, Inhabited, BEq

namespace Declarations

def empty : Declarations := ⟨[], [], []⟩

def addClass (d : Declarations) (c : Class) : Declarations :=
  { d with classes := d.classes ++ [c] }

def addFunction (d : Declarations) (f : FreeFunction) : Declarations :=
  { d with functions := d.functions ++ [f] }

/-- Adds a type name. A qualified name that is there already keeps its place and takes the new
target. -/
def addTypedef (d : Declarations) (t : Typedef) : Declarations :=
  if d.typedefs.any (·.qualifiedName == t.qualifiedName) then
    { d with
      typedefs := d.typedefs.map fun old =>
        if old.qualifiedName == t.qualifiedName then t else old }
  else { d with typedefs := d.typedefs ++ [t] }

def modifyLastClass (d : Declarations) (change : Class → Class) : Declarations :=
  match d.classes.getLast? with
  | some c => { d with classes := d.classes.dropLast ++ [change c] }
  | none => d

end Declarations

end SkeletonWeave
