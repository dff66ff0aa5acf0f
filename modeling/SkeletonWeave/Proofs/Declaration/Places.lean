import Mathlib.Data.Option.Basic
import SkeletonWeave.Proofs.Declaration.Types
import SkeletonWeave.Proofs.Results

/-!
# Reading without places

What the reader makes of tokens depends on their kinds and texts, not on where
they stand. The places are taken from the tokens, and every function of the
reader is followed on what is left; of a method only its lines and spans change.
-/

set_option autoImplicit false

namespace SkeletonWeave

def Token.unplaced (t : Token) : Token :=
  { t with span := ⟨t.span.file, 0, 0⟩, line := 0 }

/-- What a method declares, without its body and the place of its name. -/
def Method.signature (m : Method) : Method :=
  { m with line := 0, nameSpan := ⟨0, 0, 0⟩, body? := none }

def Token.Alike (ts us : List Token) : Prop :=
  ts.map Token.unplaced = us.map Token.unplaced

namespace Token

variable (t : Token)

@[simp] theorem kind_unplaced : t.unplaced.kind = t.kind := (rfl)

@[simp] theorem text_unplaced : t.unplaced.text = t.text := (rfl)

@[simp] theorem isPunctuation_unplaced (text : String) :
    t.unplaced.isPunctuation text = t.isPunctuation text := (rfl)

@[simp] theorem isIdentifier_unplaced (text : String) :
    t.unplaced.isIdentifier text = t.isIdentifier text := (rfl)

@[simp] theorem isOneOf_unplaced (words : List String) :
    t.unplaced.isOneOf words = t.isOneOf words := (rfl)

theorem any_unplaced {p : Token → Bool} (h : ∀ t, p t.unplaced = p t) (ts : List Token) :
    (ts.map unplaced).any p = ts.any p := by
  rw [List.any_map]
  exact congrArg ts.any (funext h)

theorem filter_unplaced {p : Token → Bool} (h : ∀ t, p t.unplaced = p t) (ts : List Token) :
    (ts.map unplaced).filter p = (ts.filter p).map unplaced := by
  rw [List.filter_map]
  exact congrArg (fun q => (ts.filter q).map unplaced) (funext h)

theorem takeWhile_unplaced {p : Token → Bool} (h : ∀ t, p t.unplaced = p t) (ts : List Token) :
    (ts.map unplaced).takeWhile p = (ts.takeWhile p).map unplaced := by
  rw [List.takeWhile_map]
  exact congrArg (fun q => (ts.takeWhile q).map unplaced) (funext h)

theorem dropWhile_unplaced {p : Token → Bool} (h : ∀ t, p t.unplaced = p t) (ts : List Token) :
    (ts.map unplaced).dropWhile p = (ts.dropWhile p).map unplaced := by
  rw [List.dropWhile_map]
  exact congrArg (fun q => (ts.dropWhile q).map unplaced) (funext h)

theorem find?_unplaced {p : Token → Bool} (h : ∀ t, p t.unplaced = p t) (ts : List Token) :
    (ts.map unplaced).find? p = (ts.find? p).map unplaced := by
  rw [List.find?_map]
  exact congrArg (fun q => (ts.find? q).map unplaced) (funext h)

structure KeepsWords (f : Token → Token) : Prop where
  kind : ∀ t, (f t).kind = t.kind
  text : ∀ t, (f t).text = t.text

theorem keepsWords_unplaced : KeepsWords unplaced := ⟨kind_unplaced, text_unplaced⟩

theorem keepsWords_bare : KeepsWords fun t => Grammar.bare t.word :=
  ⟨fun _ => rfl, fun _ => rfl⟩

section

variable {f : Token → Token}

namespace KeepsWords

variable (hf : KeepsWords f) (t : Token)

include hf

theorem isPunctuation : (f t).isPunctuation = t.isPunctuation := by
  funext text
  rw [Token.isPunctuation, hf.kind, hf.text, Token.isPunctuation]

theorem isIdentifier (text : String) : (f t).isIdentifier text = t.isIdentifier text := by
  rw [Token.isIdentifier, hf.kind, hf.text, Token.isIdentifier]

theorem isOneOf (words : List String) : (f t).isOneOf words = t.isOneOf words := by
  rw [Token.isOneOf, hf.kind, hf.text, Token.isOneOf]

theorem isOpening : (f t).isOpening = t.isOpening := by
  simp only [Token.isOpening, hf.isPunctuation]

theorem isClosing : (f t).isClosing = t.isClosing := by
  simp only [Token.isClosing, hf.isPunctuation]

theorem needsSpace (u : Token) : Token.needsSpace (f t) (f u) = Token.needsSpace t u := by
  simp only [Token.needsSpace, Token.isWord, hf.kind, hf.isPunctuation]

end KeepsWords

theorem closeGroupFrom?_map (hf : KeepsWords f) (opener : String) (depth : Nat)
    (inside ts : List Token) :
    closeGroupFrom? opener depth (inside.map f) (ts.map f) =
      (closeGroupFrom? opener depth inside ts).map fun (group, close, rest) =>
        (group.map f, f close, rest.map f) := by
  induction ts generalizing depth inside with
  | nil => rfl
  | cons t ts ih =>
    simp only [List.map_cons, closeGroupFrom?, hf.isPunctuation]
    by_cases hOpens : t.isPunctuation opener = true
    · rw [if_pos hOpens, if_pos hOpens]
      exact ih (depth + 1) (t :: inside)
    · rw [if_neg hOpens, if_neg hOpens]
      by_cases hCloses : t.isPunctuation (closer opener) = true
      · rw [if_pos hCloses, if_pos hCloses]
        cases depth with
        | zero => simp
        | succ depth => exact ih depth (t :: inside)
      · rw [if_neg hCloses, if_neg hCloses]
        exact ih depth (t :: inside)

theorem closeGroup?_map (hf : KeepsWords f) (opener : String) (ts : List Token) :
    closeGroup? opener (ts.map f) =
      (closeGroup? opener ts).map fun (group, close, rest) => (group.map f, f close, rest.map f) :=
  closeGroupFrom?_map hf opener 0 [] ts

theorem splitTopFrom_map (hf : KeepsWords f) (separator : String) (depth : Int)
    (part ts : List Token) :
    splitTopFrom separator depth (part.map f) (ts.map f) =
      (splitTopFrom separator depth part ts).map (·.map f) := by
  induction ts generalizing depth part with
  | nil => simp [splitTopFrom]
  | cons t ts ih =>
    have hNone := ih depth []
    have hPass (depth : Int) := ih depth (t :: part)
    simp only [List.map_nil, List.map_cons] at hNone hPass
    simp only [List.map_cons, splitTopFrom, hf.isPunctuation, hf.isOpening, hf.isClosing, hNone,
      hPass]
    split
    · simp
    · split
      · rfl
      · split
        · rfl
        · rfl

theorem splitAtCommas_map (hf : KeepsWords f) (ts : List Token) :
    splitAtCommas (ts.map f) = (splitAtCommas ts).map (·.map f) :=
  splitTopFrom_map hf "," 0 [] ts

theorem spell_map (hf : KeepsWords f) (ts : List Token) : spell (ts.map f) = spell ts := by
  fun_induction spell ts with
  | case1 => rfl
  | case2 a => exact hf.text a
  | case3 a b rest ih =>
    rw [List.map_cons] at ih
    simp only [List.map_cons, spell, hf.text, hf.needsSpace, ih]

end

theorem closeGroup?_unplaced (opener : String) (ts : List Token) :
    closeGroup? opener (ts.map unplaced) =
      (closeGroup? opener ts).map fun (group, close, rest) =>
        (group.map unplaced, close.unplaced, rest.map unplaced) :=
  closeGroup?_map keepsWords_unplaced opener ts

theorem splitAtCommas_unplaced (ts : List Token) :
    splitAtCommas (ts.map unplaced) = (splitAtCommas ts).map (·.map unplaced) :=
  splitAtCommas_map keepsWords_unplaced ts

theorem spell_unplaced (ts : List Token) : spell (ts.map unplaced) = spell ts :=
  spell_map keepsWords_unplaced ts

end Token

open Token (KeepsWords unplaced any_unplaced filter_unplaced takeWhile_unplaced dropWhile_unplaced
  find?_unplaced closeGroup?_unplaced splitAtCommas_unplaced spell_unplaced)

namespace TypeExpr

section

variable {f : Token → Token}

theorem separate_map (hf : KeepsWords f) (depth : Nat) (marks : Marks) (base ts : List Token) :
    separate depth marks (base.map f) (ts.map f) =
      ((separate depth marks base ts).1, (separate depth marks base ts).2.map f) := by
  induction ts generalizing depth marks base with
  | nil => simp [separate]
  | cons t ts ih =>
    have hPass (depth : Nat) (marks : Marks) := ih depth marks (t :: base)
    simp only [List.map_cons] at hPass
    simp only [List.map_cons, separate, hf.isPunctuation, hf.isIdentifier, hf.isOneOf, hPass, ih]
    repeat' split
    all_goals rfl

theorem argumentParts_map (hf : KeepsWords f) (base : List Token) :
    argumentParts (base.map f) = (argumentParts base).map (·.map f) := by
  unfold argumentParts
  have hDrop : (base.map f).dropWhile (fun t => !t.isPunctuation "<") =
      (base.dropWhile fun t => !t.isPunctuation "<").map f := by
    rw [List.dropWhile_map]
    exact congrArg (fun p => (base.dropWhile p).map f)
      (funext fun t => congrArg (!·) (congrFun (hf.isPunctuation t) "<"))
  rw [hDrop]
  cases base.dropWhile fun t => !t.isPunctuation "<" with
  | nil => rfl
  | cons opener rest =>
    simp only [List.map_cons, Token.closeGroup?_map hf]
    cases Token.closeGroup? "<" rest with
    | none => rfl
    | some group =>
      simp only [Option.map_some, Token.splitAtCommas_map hf, List.filter_map]
      congr 2
      funext part
      cases part <;> rfl

theorem ofTokensWithin_map (hf : KeepsWords f) (levels : Nat) (ts : List Token) :
    ofTokensWithin levels (ts.map f) = ofTokensWithin levels ts := by
  induction levels generalizing ts with
  | zero =>
    have hSeparate := separate_map hf 0 ⟨false, 0, false⟩ [] ts
    rw [List.map_nil] at hSeparate
    simp only [ofTokensWithin, hSeparate, Token.spell_map hf]
  | succ levels ih =>
    have hSeparate := separate_map hf 0 ⟨false, 0, false⟩ [] ts
    rw [List.map_nil] at hSeparate
    simp only [ofTokensWithin, hSeparate, Token.spell_map hf, argumentParts_map hf, List.map_map]
    congr 2
    funext part
    exact ih part

theorem ofTokens_map (hf : KeepsWords f) (ts : List Token) : ofTokens (ts.map f) = ofTokens ts := by
  rw [ofTokens, List.length_map, ofTokensWithin_map hf, ofTokens]

end

theorem ofTokens_unplaced (ts : List Token) : ofTokens (ts.map unplaced) = ofTokens ts :=
  ofTokens_map Token.keepsWords_unplaced ts

end TypeExpr

namespace Declarator

open TypeExpr (ofTokens_unplaced)

theorem dropGroup_unplaced (opener : String) (ts : List Token) :
    dropGroup opener (ts.map unplaced) = (dropGroup opener ts).map unplaced := by
  rw [dropGroup, dropGroup, closeGroup?_unplaced]
  cases Token.closeGroup? opener ts with
  | none => rfl
  | some group => rfl

theorem clean_unplaced (ts : List Token) : clean (ts.map unplaced) = (clean ts).map unplaced := by
  fun_induction clean ts with
  | case1 => simp [clean]
  | case2 t => simp [clean]
  | case3 t u rest hAttribute ih =>
    simp only [List.map_cons]
    rw [clean, if_pos (by simpa using hAttribute), dropGroup_unplaced, ih]
  | case4 t u rest hAttribute hBrackets ih =>
    simp only [List.map_cons]
    rw [clean, if_neg (by simpa using hAttribute), if_pos (by simpa using hBrackets),
      ← List.map_cons, dropGroup_unplaced, ih]
  | case5 t u rest hAttribute hBrackets ih =>
    simp only [List.map_cons]
    rw [clean, if_neg (by simpa using hAttribute), if_neg (by simpa using hBrackets),
      ← List.map_cons, ih]

theorem splitName?_unplaced (ts : List Token) :
    splitName? (ts.map unplaced) =
      (splitName? ts).map fun (name, type) => (name, type.map unplaced) := by
  unfold splitName?
  rw [← List.map_reverse]
  cases ts.reverse with
  | nil => rfl
  | cons last before =>
    simp only [List.map_cons, Token.kind_unplaced, Token.text_unplaced, List.head?_map,
      Option.any_map, Token.isPunctuation_unplaced]
    rw [any_unplaced fun _ => rfl]
    split
    · simp
    · rfl

theorem splitExtraName?_unplaced (ts : List Token) :
    splitExtraName? (ts.map unplaced) =
      (splitExtraName? ts).map fun (name, marks) => (name, marks.map unplaced) := by
  unfold splitExtraName?
  rw [← List.map_reverse]
  cases ts.reverse with
  | nil => rfl
  | cons last before =>
    simp only [List.map_cons, Token.kind_unplaced, Token.text_unplaced]
    split
    · simp
    · rfl

theorem dropExtents_unplaced (ts : List Token) :
    dropExtents (ts.map unplaced) = (dropExtents ts).map unplaced := by
  fun_induction dropExtents ts with
  | case1 => simp [dropExtents]
  | case2 t ts hClose hNone =>
    have hDrop := dropWhile_unplaced (p := fun u => !u.isPunctuation "[") (fun _ => rfl) ts
    rw [hNone] at hDrop
    simp only [List.map_cons]
    rw [dropExtents, if_pos (by simpa using hClose)]
    split
    · rfl
    · next h =>
      rw [hDrop] at h
      cases h
  | case3 t ts hClose opener rest hDropped ih =>
    have hDrop := dropWhile_unplaced (p := fun u => !u.isPunctuation "[") (fun _ => rfl) ts
    rw [hDropped] at hDrop
    simp only [List.map_cons]
    rw [dropExtents, if_pos (by simpa using hClose)]
    split
    · next h =>
      rw [hDrop] at h
      cases h
    · next h =>
      rw [hDrop] at h
      cases h
      exact ih
  | case4 t ts hClose =>
    simp only [List.map_cons]
    rw [dropExtents, if_neg (by simpa using hClose)]

theorem stripArray_unplaced (ts : List Token) :
    stripArray (ts.map unplaced) = (stripArray ts).map unplaced := by
  rw [stripArray, stripArray, ← List.map_reverse, dropExtents_unplaced, List.map_reverse]

theorem stripInitializer_unplaced (ts : List Token) :
    stripInitializer (ts.map unplaced) = (stripInitializer ts).map unplaced :=
  takeWhile_unplaced (fun _ => rfl) ts

theorem withoutPointers_unplaced (ts : List Token) :
    withoutPointers (ts.map unplaced) = (withoutPointers ts).map unplaced :=
  filter_unplaced (fun _ => rfl) ts

theorem withoutSpecifiers_unplaced (ts : List Token) :
    withoutSpecifiers (ts.map unplaced) = (withoutSpecifiers ts).map unplaced :=
  filter_unplaced (fun _ => rfl) ts

theorem splitDeclarators_unplaced (prepare : List Token → List Token)
    (hPrepare : ∀ ts, prepare (ts.map unplaced) = (prepare ts).map unplaced) (ts : List Token) :
    splitDeclarators prepare (ts.map unplaced) = splitDeclarators prepare ts := by
  unfold splitDeclarators
  rw [splitAtCommas_unplaced]
  cases Token.splitAtCommas ts with
  | nil => rfl
  | cons first others =>
    simp only [List.map_cons, hPrepare, splitName?_unplaced]
    cases splitName? (prepare first) with
    | none => rfl
    | some found =>
      simp only [Option.map_some, ofTokens_unplaced, List.filterMap_map, Function.comp_def, hPrepare,
        splitExtraName?_unplaced, withoutPointers_unplaced, Option.map_map, ← List.map_append]

theorem splitAtParenthesis?_unplaced (ts : List Token) :
    splitAtParenthesis? (ts.map unplaced) =
      (splitAtParenthesis? ts).map fun (before, after) =>
        (before.map unplaced, after.map unplaced) := by
  unfold splitAtParenthesis?
  rw [dropWhile_unplaced fun _ => rfl]
  cases ts.dropWhile fun t => !t.isPunctuation "(" with
  | nil => rfl
  | cons opener rest =>
    simp only [List.map_cons, Option.map_some]
    rw [takeWhile_unplaced fun _ => rfl]

theorem readFunctionPointer?_unplaced {readParam? : List Token → Option Param}
    (hParam : ∀ ts, readParam? (ts.map unplaced) = readParam? ts) (ts : List Token) :
    readFunctionPointer? readParam? (ts.map unplaced) = readFunctionPointer? readParam? ts := by
  unfold readFunctionPointer?
  rw [splitAtParenthesis?_unplaced]
  cases splitAtParenthesis? ts with
  | none => rfl
  | some parts =>
    obtain ⟨result, rest⟩ := parts
    simp only [Option.map_some, Option.bind_eq_bind, Option.bind_some, List.head?_map, Option.any_map,
      Token.isPunctuation_unplaced, closeGroup?_unplaced]
    cases Token.closeGroup? "(" rest with
    | none => rfl
    | some group =>
      obtain ⟨inside, close, after⟩ := group
      simp only [Option.map_some, Option.bind_some]
      have hName : ((inside.map unplaced).tail.reverse.find? fun t =>
          t.kind == .identifier && !Words.qualifying.contains t.text).map (·.text) =
          (inside.tail.reverse.find? fun t =>
            t.kind == .identifier && !Words.qualifying.contains t.text).map (·.text) := by
        rw [← List.map_tail, ← List.map_reverse, find?_unplaced fun _ => rfl, Option.map_map]
        rfl
      cases after with
      | nil => rfl
      | cons opener list =>
        simp only [List.map_cons, Token.isPunctuation_unplaced, closeGroup?_unplaced, hName,
          withoutSpecifiers_unplaced, ofTokens_unplaced]
        cases Token.closeGroup? "(" list with
        | none => rfl
        | some params =>
          simp only [Option.map_some, Option.bind_some, splitAtCommas_unplaced, List.filterMap_map,
            Function.comp_def, hParam]

theorem readPlainParam_unplaced (ts : List Token) (hasDefault : Bool) :
    readPlainParam (ts.map unplaced) hasDefault = readPlainParam ts hasDefault := by
  unfold readPlainParam
  simp only [stripArray_unplaced, splitName?_unplaced, List.getLast?_map, Option.any_map,
    Token.isPunctuation_unplaced]
  cases splitName? (stripArray ts) with
  | none => simp only [Option.map_none, ofTokens_unplaced]
  | some found => simp only [Option.map_some, ofTokens_unplaced]

def paramFrom (pointer? : List Token → Option (Option String × TypeExpr)) (ts : List Token) :
    Option Param :=
  let hasDefault := ts.any (·.isPunctuation "=")
  let ts := ts.takeWhile fun t => !t.isPunctuation "="
  let isNone :=
    match ts with
    | [] => true
    | [t] => t.isIdentifier "void" || t.isPunctuation "..."
    | _ => false
  if isNone then none
  else
    match pointer? ts with
    | some (name?, type) => some ⟨name?, type, hasDefault⟩
    | none => some (readPlainParam ts hasDefault)

theorem readParamWithin_eq_paramFrom (levels : Nat) (ts : List Token) :
    readParamWithin levels ts =
      paramFrom
        (match levels with
        | 0 => fun _ => none
        | levels + 1 => readFunctionPointer? (readParamWithin levels)) ts := by
  cases levels with
  | zero => rfl
  | succ levels => rfl

theorem paramFrom_unplaced {pointer? : List Token → Option (Option String × TypeExpr)}
    (hPointer : ∀ ts, pointer? (ts.map unplaced) = pointer? ts) (ts : List Token) :
    paramFrom pointer? (ts.map unplaced) = paramFrom pointer? ts := by
  unfold paramFrom
  rw [takeWhile_unplaced fun _ => rfl, any_unplaced fun _ => rfl]
  simp only [readPlainParam_unplaced, hPointer]
  generalize (ts.takeWhile fun t => !t.isPunctuation "=") = own
  rcases own with - | ⟨t, - | ⟨u, rest⟩⟩
  · rfl
  · rfl
  · rfl

theorem readParamWithin_unplaced (levels : Nat) (ts : List Token) :
    readParamWithin levels (ts.map unplaced) = readParamWithin levels ts := by
  induction levels generalizing ts with
  | zero =>
    rw [readParamWithin_eq_paramFrom, readParamWithin_eq_paramFrom, paramFrom_unplaced]
    exact fun _ => rfl
  | succ levels ih =>
    rw [readParamWithin_eq_paramFrom, readParamWithin_eq_paramFrom, paramFrom_unplaced]
    exact readFunctionPointer?_unplaced ih

theorem readParam?_unplaced (ts : List Token) : readParam? (ts.map unplaced) = readParam? ts := by
  rw [readParam?, List.length_map, readParamWithin_unplaced, readParam?]

theorem functionPointer?_unplaced (ts : List Token) :
    functionPointer? (ts.map unplaced) = functionPointer? ts :=
  readFunctionPointer?_unplaced readParam?_unplaced ts

def Declared.unplaced : Declared → Declared
  | .method m => .method m.signature
  | other => other

theorem splitAtParams_unplaced (angles : Nat) (before ts : List Token) :
    splitAtParams angles (before.map unplaced) (ts.map unplaced) =
      (splitAtParams angles before ts).map fun (before, after) =>
        (before.map unplaced, after.map unplaced) := by
  induction ts generalizing angles before with
  | nil => rfl
  | cons t ts ih =>
    have hPass (angles : Nat) := ih angles (t :: before)
    simp only [List.map_cons] at hPass
    simp only [List.map_cons, splitAtParams, Token.isPunctuation_unplaced, hPass]
    split
    · rfl
    · split
      · rfl
      · split
        · simp
        · rfl

theorem readFields_unplaced (head : List Token) (access : Access) :
    readFields (head.map unplaced) access = readFields head access := by
  have hPrepare (ts : List Token) : stripArray (stripInitializer (ts.map unplaced)) =
      (stripArray (stripInitializer ts)).map unplaced := by
    rw [stripInitializer_unplaced, stripArray_unplaced]
  unfold readFields
  simp only [withoutSpecifiers_unplaced]
  rw [splitDeclarators_unplaced _ hPrepare, any_unplaced fun _ => rfl]

theorem returnType?_unplaced (before trailing : List Token) :
    returnType? (before.map unplaced) (trailing.map unplaced) = returnType? before trailing := by
  unfold returnType?
  rw [dropWhile_unplaced fun _ => rfl]
  cases trailing.dropWhile fun t => !t.isPunctuation "->" with
  | nil => simp only [List.map_nil, List.isEmpty_map, ofTokens_unplaced]
  | cons arrow rest =>
    simp only [List.map_cons]
    rw [takeWhile_unplaced fun _ => rfl, ofTokens_unplaced]

theorem readMethod_unplaced (before : List Token) (name : Token) (rest : List Token)
    (member? : Option Member) :
    (readMethod (before.map unplaced) name.unplaced (rest.map unplaced) member?).unplaced =
      (readMethod before name rest member?).unplaced := by
  have hStart : (if (before.map unplaced).getLast?.any (·.isPunctuation "~") then
        (before.map unplaced).dropLast else before.map unplaced) =
      (if before.getLast?.any (·.isPunctuation "~") then before.dropLast else before).map
        unplaced := by
    rw [List.getLast?_map, Option.any_map]
    simp only [Token.isPunctuation_unplaced]
    split
    · rw [List.map_dropLast]
    · rfl
  unfold readMethod
  simp only [hStart]
  simp only [List.getLast?_map, Option.any_map, Token.isPunctuation_unplaced, closeGroup?_unplaced,
    Token.text_unplaced]
  generalize (if before.getLast?.any (·.isPunctuation "~") then before.dropLast else before) = start
  split
  · rfl
  · cases Token.closeGroup? "(" rest with
    | none => rfl
    | some group =>
      obtain ⟨params, close, trailing⟩ := group
      simp only [Option.map_some]
      rw [filter_unplaced fun _ => rfl, takeWhile_unplaced fun _ => rfl, any_unplaced fun _ => rfl,
        any_unplaced fun _ => rfl, any_unplaced fun _ => rfl]
      simp only [List.isEmpty_map, returnType?_unplaced, splitAtCommas_unplaced, List.filterMap_map,
        Function.comp_def, readParam?_unplaced]
      generalize (if before.getLast?.any (·.isPunctuation "~") then MethodKind.destructor
        else _) = kind
      split
      · split <;> rfl
      · rfl

theorem readPointerField_unplaced (head : List Token) (member? : Option Member) :
    readPointerField (head.map unplaced) member? = readPointerField head member? := by
  unfold readPointerField
  rw [functionPointer?_unplaced, any_unplaced fun _ => rfl]

theorem classify_unplaced (head : List Token) (member? : Option Member) :
    (classify (head.map unplaced) member?).unplaced = (classify head member?).unplaced := by
  have hParams := splitAtParams_unplaced 0 [] head
  rw [List.map_nil] at hParams
  unfold classify
  rw [any_unplaced fun _ => rfl, hParams]
  split
  · rfl
  · cases splitAtParams 0 [] head with
    | none =>
      cases member? with
      | none => rfl
      | some member => simp only [Option.map_none, readFields_unplaced]
    | some parts =>
      obtain ⟨before, rest⟩ := parts
      simp only [Option.map_some, List.head?_map, Option.any_map, Token.isPunctuation_unplaced,
        readPointerField_unplaced, List.getLast?_map]
      split
      · rfl
      · cases before.getLast? with
        | none => rfl
        | some name =>
          simp only [Option.map_some, Token.kind_unplaced, Token.text_unplaced]
          split
          · rw [← List.map_dropLast, readMethod_unplaced]
          · rfl

end Declarator

namespace Declaration

theorem className_unplaced (head : List Token) : className (head.map unplaced) = className head := by
  unfold className
  simp only
  rw [takeWhile_unplaced fun _ => rfl, ← List.map_reverse, find?_unplaced fun _ => rfl,
    Option.map_map]
  rfl

end Declaration

end SkeletonWeave
