import SkeletonWeave.Declaration.Basic
import SkeletonWeave.Declaration.TypeReader

/-!
# Declarators

The head of a declaration, from its first token up to its semicolon or body,
declares a function, some variables or nothing that matters. The functions here
see the head alone.
-/

set_option autoImplicit false

namespace SkeletonWeave.Declarator

open Token

structure Member where
  className : String
  access : Access
  deriving DecidableEq, Repr

inductive Declared where
  | nothing
  | method (m : Method)
  | fields (fs : List Field)
  deriving Repr

/-- Skips tokens through the one that closes the group opened before them, or all of them. -/
def dropGroup (opener : String) (ts : List Token) : List Token :=
  match closeGroup? opener ts with
  | some (_, _, rest) => rest
  | none => []

theorem length_closeGroupFrom?_lt {opener : String} {depth : Nat} {inside ts group rest : List Token}
    {t : Token} (h : closeGroupFrom? opener depth inside ts = some (group, t, rest)) :
    rest.length < ts.length := by
  fun_induction closeGroupFrom? opener depth inside ts with
  | case1 => cases h
  | case2 depth inside u ts _ ih =>
    exact Nat.lt_succ_of_lt (ih h)
  | case3 inside u ts _ _ =>
    cases h
    simp
  | case4 inside u ts _ _ depth ih =>
    exact Nat.lt_succ_of_lt (ih h)
  | case5 depth inside u ts _ _ ih =>
    exact Nat.lt_succ_of_lt (ih h)

theorem length_dropGroup_le (opener : String) (ts : List Token) :
    (dropGroup opener ts).length ≤ ts.length := by
  unfold dropGroup
  split
  · next h => exact Nat.le_of_lt (length_closeGroupFrom?_lt h)
  · simp

/-- The head without its attributes: attribute words with their parentheses, and doubled square
brackets. -/
def clean : List Token → List Token
  | [] => []
  | [t] => [t]
  | t :: u :: rest =>
    if t.isOneOf Words.attributes && u.isPunctuation "(" then clean (dropGroup "(" rest)
    else if t.isPunctuation "[" && u.isPunctuation "[" then clean (dropGroup "[" (u :: rest))
    else t :: clean (u :: rest)
termination_by ts => ts.length
decreasing_by
  · have := length_dropGroup_le "(" rest
    simp only [List.length_cons]
    omega
  · have := length_dropGroup_le "[" (u :: rest)
    simp only [List.length_cons] at *
    omega
  · simp

/-- Splits off the declared name at the end. There is none when the last token belongs to the
type, as in `const int32_t`. -/
def splitName? (ts : List Token) : Option (String × List Token) :=
  match ts.reverse with
  | [] => none
  | last :: before =>
    let isName := last.kind == .identifier && !Words.builtin.contains last.text &&
      !Words.qualifying.contains last.text
    let isQualified := before.head?.any (·.isPunctuation "::")
    let namesType := before.any fun t => t.kind == .identifier && !Words.qualifying.contains t.text
    if isName && !isQualified && namesType then some (last.text, before.reverse) else none

def splitExtraName? (ts : List Token) : Option (String × List Token) :=
  match ts.reverse with
  | last :: before =>
    if last.kind == .identifier then some (last.text, before.reverse) else none
  | [] => none

/-- Drops the array extents, which stand at the start of the reversed tokens. -/
def dropExtents : List Token → List Token
  | [] => []
  | t :: ts =>
    if t.isPunctuation "]" then
      match _h : ts.dropWhile fun u => !u.isPunctuation "[" with
      | [] => t :: ts
      | _ :: rest => dropExtents rest
    else t :: ts
termination_by ts => ts.length
decreasing_by
  have := (List.dropWhile_suffix (fun u : Token => !u.isPunctuation "[") (l := ts)).length_le
  rw [_h] at this
  simp only [List.length_cons] at *
  omega

def stripArray (ts : List Token) : List Token :=
  (dropExtents ts.reverse).reverse

def stripInitializer (ts : List Token) : List Token :=
  ts.takeWhile fun t => !(t.isPunctuation "=" || t.isPunctuation "\x7b" || t.isPunctuation ":")

def withoutPointers (ts : List Token) : List Token :=
  ts.filter fun t => !(t.isPunctuation "*" || t.isPunctuation "&")

def withoutSpecifiers (ts : List Token) : List Token :=
  ts.filter fun t => !t.isOneOf Words.specifying

/-- The names and types that a list of declarators gives to one base. `prepare` strips what
follows a name. -/
def splitDeclarators (prepare : List Token → List Token) (ts : List Token) :
    List (String × TypeExpr) :=
  match splitAtCommas ts with
  | [] => []
  | first :: others =>
    match splitName? (prepare first) with
    | none => []
    | some (name, type) =>
      (name, TypeExpr.ofTokens type) :: others.filterMap fun part =>
        (splitExtraName? (prepare part)).map fun (name, marks) =>
          (name, TypeExpr.ofTokens (withoutPointers type ++ marks))

def splitAtParenthesis? (ts : List Token) : Option (List Token × List Token) :=
  match ts.dropWhile fun t => !t.isPunctuation "(" with
  | [] => none
  | _ :: rest => some (ts.takeWhile fun t => !t.isPunctuation "(", rest)

/-- What is read of `result (*name)(parameters)`: the name, if there is one, and the type.
`readParam?` reads a parameter. -/
def readFunctionPointer? (readParam? : List Token → Option Param) (ts : List Token) :
    Option (Option String × TypeExpr) := do
  let (result, rest) ← splitAtParenthesis? ts
  guard (rest.head?.any (·.isPunctuation "*"))
  let (inside, _, after) ← closeGroup? "(" rest
  let name? := inside.tail.reverse.find? fun t =>
    t.kind == .identifier && !Words.qualifying.contains t.text
  match after with
  | t :: list =>
    guard (t.isPunctuation "(")
    let (params, _, _) ← closeGroup? "(" list
    let types := (splitAtCommas params).filterMap fun p => (readParam? p).map (·.type)
    return (name?.map (·.text),
      TypeExpr.functionPointer (TypeExpr.ofTokens (withoutSpecifiers result)) types)
  | [] => none

/-- A parameter that is no pointer to a function. An array counts as a pointer. -/
def readPlainParam (ts : List Token) (hasDefault : Bool) : Param :=
  let stripped := stripArray ts
  let (name?, typeTokens) :=
    match splitName? stripped with
    | some (name, type) => (some name, type)
    | none => (none, stripped)
  let type := TypeExpr.ofTokens typeTokens
  if ts.getLast?.any (·.isPunctuation "]") then
    ⟨name?, { type with
      pointerDepth := TypeExpr.addDepths type.pointerDepth 1
      spelling := type.spelling ++ "*" }, hasDefault⟩
  else ⟨name?, type, hasDefault⟩

/-- Reads one parameter whose types nest functions at most `levels` deep. An empty list, `void`
and an ellipsis are no parameter. -/
def readParamWithin : Nat → List Token → Option Param
  | levels, ts =>
    let hasDefault := ts.any (·.isPunctuation "=")
    let ts := ts.takeWhile fun t => !t.isPunctuation "="
    let isNone :=
      match ts with
      | [] => true
      | [t] => t.isIdentifier "void" || t.isPunctuation "..."
      | _ => false
    if isNone then none
    else
      let pointer? :=
        match levels with
        | 0 => none
        | levels + 1 => readFunctionPointer? (readParamWithin levels) ts
      match pointer? with
      | some (name?, type) => some ⟨name?, type, hasDefault⟩
      | none => some (readPlainParam ts hasDefault)

def readParam? (ts : List Token) : Option Param :=
  readParamWithin ts.length ts

def functionPointer? (ts : List Token) : Option (Option String × TypeExpr) :=
  readFunctionPointer? readParam? ts

/-- The tokens before and after the first parenthesis outside angle brackets. -/
def splitAtParams (angles : Nat) (before : List Token) :
    List Token → Option (List Token × List Token)
  | [] => none
  | t :: ts =>
    if t.isPunctuation "<" then splitAtParams (angles + 1) (t :: before) ts
    else if t.isPunctuation ">" then splitAtParams (angles - 1) (t :: before) ts
    else if angles = 0 ∧ t.isPunctuation "(" then some (before.reverse, ts)
    else splitAtParams angles (t :: before) ts

def readFields (head : List Token) (access : Access) : Declared :=
  let isStatic := head.any (·.isIdentifier "static")
  let prepare := fun ts => stripArray (stripInitializer ts)
  match splitDeclarators prepare (withoutSpecifiers head) with
  | [] => .nothing
  | found => .fields (found.map fun (name, type) => ⟨name, type, access, isStatic⟩)

/-- The return type of a function: the trailing one if there is one, else the tokens before the
name. Without either, the head is no declaration. -/
def returnType? (before trailing : List Token) : Option TypeExpr :=
  match trailing.dropWhile fun t => !t.isPunctuation "->" with
  | _ :: rest =>
    some (TypeExpr.ofTokens
      (rest.takeWhile fun t => !(t.isPunctuation "=" || t.isPunctuation ":")))
  | [] => if before.isEmpty then none else some (TypeExpr.ofTokens before)

/-- The function that a head declares: `before` stands before the name, `rest` after the opening
parenthesis. -/
def readMethod (before : List Token) (name : Token) (rest : List Token) (member? : Option Member) :
    Declared :=
  let isDestructor := before.getLast?.any (·.isPunctuation "~")
  let start := if isDestructor then before.dropLast else before
  if start.getLast?.any (·.isPunctuation "::") then .nothing
  else
    match closeGroup? "(" rest with
    | none => .nothing
    | some (params, _, trailing) =>
      let result := start.filter fun t => !(t.isOneOf Words.specifying || t.kind == .string)
      let qualifiers := trailing.takeWhile fun t =>
        !(t.isPunctuation "=" || t.isPunctuation ":" || t.isPunctuation "->")
      let kind : MethodKind :=
        if isDestructor then .destructor
        else if member?.any (·.className == name.text) && result.isEmpty then .constructor
        else .regular
      let method (type? : Option TypeExpr) : Declared :=
        .method {
          name := name.text
          kind := kind
          returnType? := type?
          params := (splitAtCommas params).filterMap readParam?
          access := (member?.map (·.access)).getD .isPublic
          isStatic := start.any (·.isIdentifier "static")
          isVirtual := start.any (·.isIdentifier "virtual")
          isConst := qualifiers.any (·.isIdentifier "const")
          line := name.line
          nameSpan := name.span
          body? := none }
      if kind = .regular then
        match returnType? result trailing with
        | some type => method (some type)
        | none => .nothing
      else method none

def readPointerField (head : List Token) (member? : Option Member) : Declared :=
  match member?, functionPointer? head with
  | some member, some (some name, type) =>
    .fields [⟨name, type, member.access, head.any (·.isIdentifier "static")⟩]
  | _, _ => .nothing

/-- What a clean head declares. Variables outside of classes do not matter. -/
def classify (head : List Token) (member? : Option Member) : Declared :=
  if head.any (·.isIdentifier "operator") then .nothing
  else
    match splitAtParams 0 [] head with
    | none =>
      match member? with
      | some member => readFields head member.access
      | none => .nothing
    | some (before, rest) =>
      if rest.head?.any (·.isPunctuation "*") then readPointerField head member?
      else
        match before.getLast? with
        | some name =>
          if name.kind == .identifier && !Words.operatorLike.contains name.text then
            readMethod before.dropLast name rest member?
          else .nothing
        | none => .nothing

end SkeletonWeave.Declarator
