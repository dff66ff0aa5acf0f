import SkeletonWeave.Proofs.Declaration.RewrittenScopes

/-!
# Alike tokens are read alike

What is read of tokens depends neither on their places nor on the number of steps
that a reader may take, if these are more than the tokens: tokens that differ in
their places are both read or both not, and they declare the same, apart from
spans and lines.
-/

set_option autoImplicit false

namespace SkeletonWeave

open Declarator (Declared Member)
open Grammar (nowhere)
open Token (Alike)

/-- Whether both of two results are failures, or both are values and these are related. -/
inductive Concur {ε φ α β : Type} (R : α → β → Prop) : Except ε α → Except φ β → Prop
  | fails {e : ε} {f : φ} : Concur R (.error e) (.error f)
  | returns {a : α} {b : β} : R a b → Concur R (.ok a) (.ok b)

namespace Concur

variable {ε φ α β γ δ : Type} {R : α → β → Prop} {S : γ → δ → Prop} {x : Except ε α} {y : Except φ β}

theorem bind (h : Concur R x y) {f : α → Except ε γ} {g : β → Except φ δ}
    (hNext : ∀ a b, x = .ok a → y = .ok b → R a b → Concur S (f a) (g b)) :
    Concur S (x >>= f) (y >>= g) := by
  cases h with
  | fails => exact .fails
  | returns hSame => exact hNext _ _ rfl rfl hSame

theorem map (h : Concur R x y) {f : α → γ} {g : β → δ} (hNext : ∀ a b, R a b → S (f a) (g b)) :
    Concur S (x.map f) (y.map g) := by
  cases h with
  | fails => exact .fails
  | returns hSame => exact .returns (hNext _ _ hSame)

end Concur

def FreeFunction.unplaced (f : FreeFunction) : FreeFunction :=
  { f with
    line := 0
    nameSpan := nowhere
    body? := f.body?.map fun _ => ⟨nowhere, nowhere⟩ }

/-- Whether declarations are the same apart from spans and lines. -/
structure Declarations.Alike (d d' : Declarations) : Prop where
  classes : d.classes.map Class.unplaced = d'.classes.map Class.unplaced
  typedefs : d.typedefs = d'.typedefs
  functions : d.functions.map FreeFunction.unplaced = d'.functions.map FreeFunction.unplaced

namespace Declarations.Alike

variable {d d' : Declarations}

theorem refl (d : Declarations) : d.Alike d := ⟨rfl, rfl, rfl⟩

theorem addTypedef (h : d.Alike d') (scope : Declaration.Scope) (name : String) (target : TypeExpr) :
    (Declaration.addTypedef d scope name target).Alike
      (Declaration.addTypedef d' scope name target) := by
  obtain ⟨hClasses, hTypedefs, hFunctions⟩ := h
  unfold Declaration.addTypedef Declarations.addTypedef
  rw [← hTypedefs]
  split
  · exact ⟨hClasses, rfl, hFunctions⟩
  · exact ⟨hClasses, rfl, hFunctions⟩

theorem foldl_addTypedef (h : d.Alike d') (scope : Declaration.Scope)
    (found : List (String × TypeExpr)) :
    (found.foldl (fun d named => Declaration.addTypedef d scope named.1 named.2) d).Alike
      (found.foldl (fun d named => Declaration.addTypedef d scope named.1 named.2) d') := by
  induction found generalizing d d' with
  | nil => exact h
  | cons named found ih => exact ih (h.addTypedef _ _ _)

theorem addClass (h : d.Alike d') {c c' : Class} (hClass : c.unplaced = c'.unplaced) :
    (d.addClass c).Alike (d'.addClass c') where
  classes := by simp [Declarations.addClass, h.classes, hClass]
  typedefs := h.typedefs
  functions := h.functions

theorem nameLastClass (h : d.Alike d') (scope : Declaration.Scope) (name : String) :
    (Declaration.nameLastClass d scope name).Alike (Declaration.nameLastClass d' scope name) := by
  have hLast := congrArg List.getLast? h.classes
  rw [List.getLast?_map, List.getLast?_map] at hLast
  unfold Declaration.nameLastClass Declarations.modifyLastClass
  cases hEnd : d.classes.getLast? with
  | none =>
    rw [hEnd, Option.map_none, eq_comm, Option.map_eq_none_iff] at hLast
    rw [hLast]
    exact h
  | some c =>
    rw [hEnd, Option.map_some, eq_comm, Option.map_eq_some_iff] at hLast
    obtain ⟨c', hEnd', hSame⟩ := hLast
    rw [hEnd']
    refine ⟨?_, h.typedefs, h.functions⟩
    have hNamed : Class.unplaced { c with name := name, qualifiedName := "::".intercalate (scope ++ [name]) } =
        Class.unplaced { c' with name := name, qualifiedName := "::".intercalate (scope ++ [name]) } := by
      have hFields := congrArg (fun k : Class =>
        { k with name := name, qualifiedName := "::".intercalate (scope ++ [name]) }) hSame
      exact hFields.symm
    simp only [List.map_append, List.map_dropLast, h.classes, List.map_cons, List.map_nil, hNamed]

end Declarations.Alike

def Declarator.Declared.placeless : Declared → Declared
  | .method m => .method m.unplaced
  | other => other

namespace Declaration

def SplitAlike (p q : List Token × List Token) : Prop :=
  Alike p.1 q.1 ∧ Alike p.2 q.2

theorem Extent.split_alike {e e' : Extent} (h : e.unplaced = e'.unplaced) {ts us : List Token}
    (hTokens : Alike ts us) : Concur SplitAlike (e.split ts) (e'.split us) := by
  have hReverse {e e' : Extent} (h : e.unplaced = e'.unplaced) :
      Alike e.passed.reverse e'.passed.reverse := by
    have hPassed : e.passed.map Token.unplaced = e'.passed.map Token.unplaced := congrArg Extent.passed h
    rw [Token.Alike, List.map_reverse, List.map_reverse, hPassed]
  induction ts generalizing e e' us with
  | nil =>
    have hGroup : e.group?.map OpenGroup.unplaced = e'.group?.map OpenGroup.unplaced :=
      congrArg Extent.group? h
    rw [hTokens.eq_nil, split, split]
    cases hOpen : e.group? with
    | none =>
      rw [hOpen, Option.map_none, eq_comm, Option.map_eq_none_iff] at hGroup
      rw [hGroup]
      exact .returns ⟨hReverse h, rfl⟩
    | some g =>
      rw [hOpen, Option.map_some, eq_comm, Option.map_eq_some_iff] at hGroup
      obtain ⟨g', hOpen', -⟩ := hGroup
      rw [hOpen']
      exact .fails
  | cons t ts ih =>
    obtain ⟨t', us, rfl, hToken, hRest⟩ := hTokens.exists_cons
    rw [split_cons, split_cons]
    cases hNext : e.next? t with
    | none =>
      rw [next?_eq_none_of_alike h hToken hNext]
      exact .returns ⟨hReverse h, hTokens⟩
    | some next =>
      obtain ⟨next', hNext', hSame⟩ := exists_next?_of_alike h hToken hNext
      rw [hNext']
      exact ih hSame hRest

theorem splitDeclaration_alike {ts us : List Token} (h : Alike ts us) :
    Concur SplitAlike (splitDeclaration ts) (splitDeclaration us) :=
  Extent.split_alike rfl h

def GroupAlike (p q : List Token × Token × List Token) : Prop :=
  Alike p.1 q.1 ∧ p.2.1.unplaced = q.2.1.unplaced ∧ Alike p.2.2 q.2.2

theorem closeGroup_alike {opener opener' : Token} (hOpener : opener.unplaced = opener'.unplaced)
    {ts us : List Token} (h : Alike ts us) :
    Concur GroupAlike (closeGroup opener ts) (closeGroup opener' us) := by
  have hFound := Token.closeGroup?_unplaced opener.text ts
  rw [show ts.map Token.unplaced = us.map Token.unplaced from h, Token.closeGroup?_unplaced] at hFound
  rw [closeGroup, closeGroup, Token.text_of_alike hOpener]
  cases hClose : Token.closeGroup? opener.text ts with
  | none =>
    rw [hClose, Option.map_none, Option.map_eq_none_iff] at hFound
    rw [hFound]
    exact .fails
  | some group =>
    rw [hClose, Option.map_some, Option.map_eq_some_iff] at hFound
    obtain ⟨group', hClose', hSame⟩ := hFound
    simp only [Prod.mk.injEq] at hSame
    rw [hClose']
    exact .returns ⟨hSame.1.symm, hSame.2.1.symm, hSame.2.2.symm⟩

theorem dropSemicolon_alike {ts us : List Token} (h : Alike ts us) :
    Alike (dropSemicolon ts) (dropSemicolon us) := by
  cases ts with
  | nil =>
    rw [h.eq_nil]
    rfl
  | cons t ts =>
    obtain ⟨t', us, rfl, hToken, hRest⟩ := h.exists_cons
    rw [dropSemicolon, dropSemicolon, Token.isPunctuation_of_alike hToken]
    split
    · exact hRest
    · exact h

theorem head?_alike {p : Token → Bool} (hp : ∀ t, p t.unplaced = p t) {ts us : List Token}
    (h : Alike ts us) : us.head?.any p = ts.head?.any p := by
  cases ts with
  | nil => rw [h.eq_nil]
  | cons t ts =>
    obtain ⟨t', us, rfl, hToken, -⟩ := h.exists_cons
    rw [List.head?_cons, List.head?_cons, Option.any_some, Option.any_some, ← hp t', ← hToken, hp]

theorem skipFrom_alike {steps steps' : Nat} {passed passed' ts us : List Token}
    (hPassed : Alike passed passed') (h : Alike ts us) (hSteps : ts.length < steps)
    (hSteps' : us.length < steps') :
    Concur Alike (skipFrom steps passed ts) (skipFrom steps' passed' us) := by
  induction steps generalizing steps' passed passed' ts us with
  | zero => omega
  | succ steps ih =>
    obtain ⟨steps', rfl⟩ := Nat.exists_eq_succ_of_ne_zero (Nat.ne_zero_of_lt hSteps')
    rw [skipFrom, skipFrom]
    refine (splitDeclaration_alike h).bind ?_
    rintro ⟨head, rest⟩ ⟨head', rest'⟩ hSplit hSplit' hParts
    obtain ⟨hHead, hRest⟩ : Alike head head' ∧ Alike rest rest' := hParts
    simp only
    cases rest with
    | nil =>
      rw [hRest.eq_nil]
      exact .returns rfl
    | cons t after =>
      obtain ⟨t', after', rfl, hToken, hAfter⟩ := hRest.exists_cons
      simp only [Token.isPunctuation_of_alike hToken]
      split
      · exact .returns hAfter
      · split
        · exact .returns hRest
        · refine (closeGroup_alike hToken hAfter).bind ?_
          rintro ⟨body, close, later⟩ ⟨body', close', later'⟩ hGroup hGroup' hParts
          obtain ⟨hBody, hClose, hLater⟩ :
            Alike body body' ∧ close.unplaced = close'.unplaced ∧ Alike later later' := hParts
          have hAll : Alike (passed ++ head) (passed' ++ head') := hPassed.append hHead
          simp only [continuesAfterBody_alike hAll]
          split
          · obtain rfl := splitDeclaration_eq_ok hSplit
            obtain rfl := splitDeclaration_eq_ok hSplit'
            obtain rfl := closeGroup_eq_ok hGroup
            obtain rfl := closeGroup_eq_ok hGroup'
            simp only [List.length_append, List.length_cons] at hSteps hSteps'
            refine ih ((hAll.append (.cons hToken hBody)).append (.cons hClose (.refl []))) hLater
              (by omega) (by omega)
          · exact .returns (dropSemicolon_alike hLater)

theorem skip_alike {ts us : List Token} (h : Alike ts us) : Concur Alike (skip ts) (skip us) :=
  skipFrom_alike (.refl []) h (Nat.lt_succ_self _) (Nat.lt_succ_self _)

theorem skipTemplate_alike {ts us : List Token} (h : Alike ts us) :
    Concur Alike (skipTemplate ts) (skipTemplate us) := by
  cases ts with
  | nil =>
    rw [h.eq_nil]
    exact skip_alike (.refl [])
  | cons t ts =>
    obtain ⟨t', us, rfl, hToken, hRest⟩ := h.exists_cons
    simp only [skipTemplate, Token.isPunctuation_of_alike hToken]
    split
    · refine (closeGroup_alike hToken hRest).bind fun _ _ _ _ hParts => ?_
      exact skip_alike hParts.2.2
    · exact skip_alike h

theorem placeless_of_braces {declared : Declared} (h : declared.braces = []) :
    declared.placeless = declared.unplaced := by
  cases declared with
  | method m =>
    have hBody : m.body? = none := by
      have hBraces : m.braces = [] := h
      unfold Method.braces at hBraces
      split at hBraces
      · cases hBraces
      · next hBody => exact hBody
    rw [Declared.placeless, Method.unplaced, hBody]
    rfl
  | nothing => rfl
  | fields fs => rfl

theorem cases_of_placeless {declared declared' : Declared}
    (h : declared.placeless = declared'.placeless) :
    declared = declared' ∨
      ∃ m m', declared = .method m ∧ declared' = .method m' ∧ m.unplaced = m'.unplaced := by
  cases declared with
  | nothing =>
    cases declared' with
    | nothing => exact .inl rfl
    | method => cases h
    | fields => cases h
  | method m =>
    cases declared' with
    | nothing => cases h
    | method m' => exact .inr ⟨m, m', rfl, rfl, Declared.method.inj h⟩
    | fields => cases h
  | fields fs =>
    cases declared' with
    | nothing => cases h
    | method => cases h
    | fields fs' => exact .inl h

theorem classify_placeless {head head' : List Token} (h : Alike head head') (member? : Option Member) :
    (Declarator.classify (Declarator.clean head) member?).placeless =
      (Declarator.classify (Declarator.clean head') member?).placeless := by
  rw [placeless_of_braces (Declarator.classify_braces _ _),
    placeless_of_braces (Declarator.classify_braces _ _), classify_alike h]

theorem withBody_placeless (opening closing : Token) (declared : Declared) :
    (withBody opening closing declared).placeless =
      withBody (Grammar.bare (Grammar.mark "\x7b")) (Grammar.bare (Grammar.mark "\x7d"))
        declared.placeless := by
  cases declared <;> rfl

structure Item.Alike (i i' : Item) : Prop where
  declared : i.declared.placeless = i'.declared.placeless
  rest : Token.Alike i.rest i'.rest

theorem readDeclaration_alike (member? : Option Member) {ts us : List Token} (h : Alike ts us) :
    Concur Item.Alike (readDeclaration member? ts) (readDeclaration member? us) := by
  unfold readDeclaration
  refine (splitDeclaration_alike h).bind ?_
  rintro ⟨head, rest⟩ ⟨head', rest'⟩ - - hParts
  obtain ⟨hHead, hRest⟩ : Alike head head' ∧ Alike rest rest' := hParts
  simp only
  cases rest with
  | nil =>
    rw [hRest.eq_nil]
    exact .returns ⟨rfl, rfl⟩
  | cons t after =>
    obtain ⟨t', after', rfl, hToken, hAfter⟩ := hRest.exists_cons
    simp only [Token.isPunctuation_of_alike hToken]
    have hDeclared := classify_placeless hHead member?
    split
    · exact .returns ⟨rfl, hRest⟩
    · split
      · exact .returns ⟨hDeclared, hAfter⟩
      · refine (closeGroup_alike hToken hAfter).bind fun _ _ _ _ hParts => ?_
        refine .returns ⟨?_, dropSemicolon_alike hParts.2.2⟩
        rw [withBody_placeless, withBody_placeless, hDeclared]

structure Reached.Alike (r r' : Reached) : Prop where
  declarations : r.declarations.Alike r'.declarations
  rest : Token.Alike r.rest r'.rest

variable {d d' : Declarations}

theorem readUsing_alike (hDeclarations : d.Alike d') (scope : Scope) {t t' : Token}
    (hToken : t.unplaced = t'.unplaced) {ts us : List Token} (h : Alike ts us) :
    Concur Reached.Alike (readUsing scope d t ts) (readUsing scope d' t' us) := by
  have hPass : Concur Reached.Alike ((skip (t :: ts)).map fun rest => (⟨d, rest⟩ : Reached))
      ((skip (t' :: us)).map fun rest => (⟨d', rest⟩ : Reached)) :=
    (skip_alike (.cons hToken h)).map fun _ _ hRest => ⟨hDeclarations, hRest⟩
  rcases ts with - | ⟨named, - | ⟨equals, after⟩⟩
  · obtain rfl := h.eq_nil
    exact hPass
  · obtain ⟨named', us, rfl, hNamed, hRest⟩ := h.exists_cons
    obtain rfl := hRest.eq_nil
    exact hPass
  · obtain ⟨named', us, rfl, hNamed, hRest⟩ := h.exists_cons
    obtain ⟨equals', after', rfl, hEquals, hAfter⟩ := hRest.exists_cons
    simp only [readUsing, Token.kind_of_alike hNamed, Token.isPunctuation_of_alike hEquals]
    split
    · refine (splitDeclaration_alike hAfter).bind ?_
      rintro ⟨target, rest⟩ ⟨target', rest'⟩ - - hParts
      obtain ⟨hTarget, hRest⟩ : Alike target target' ∧ Alike rest rest' := hParts
      have hType : TypeExpr.ofTokens target = TypeExpr.ofTokens target' := by
        rw [← TypeExpr.ofTokens_unplaced, hTarget, TypeExpr.ofTokens_unplaced]
      simp only [hType, Token.text_of_alike hNamed]
      exact .returns ⟨hDeclarations.addTypedef _ _ _, dropSemicolon_alike hRest⟩
    · exact hPass

theorem typedefNames_alike {head head' : List Token} (h : Alike head head') :
    typedefNames head' = typedefNames head := by
  have hUnplaced (ts : List Token) : typedefNames (ts.map Token.unplaced) = typedefNames ts := by
    unfold typedefNames
    rw [Declarator.functionPointer?_unplaced,
      Declarator.splitDeclarators_unplaced _ Declarator.stripArray_unplaced]
  rw [← hUnplaced, ← h, hUnplaced]

structure Aliasing.Alike (a a' : Aliasing) : Prop where
  declarations : a.declarations.Alike a'.declarations
  target? : a.target? = a'.target?

theorem readAlias_unplaced (scope : Scope) (isEnum : Bool) (a : Aliasing) (part : List Token) :
    readAlias scope isEnum a (part.map Token.unplaced) = readAlias scope isEnum a part := by
  unfold readAlias
  rw [← List.map_reverse, Token.find?_unplaced fun _ => rfl, Token.filter_unplaced fun _ => rfl,
    List.length_map]
  cases part.reverse.find? fun t => t.kind == .identifier <;> rfl

theorem readAlias_alike (scope : Scope) (isEnum : Bool) {a a' : Aliasing} (h : a.Alike a')
    (part : List Token) : (readAlias scope isEnum a part).Alike (readAlias scope isEnum a' part) := by
  obtain ⟨declarations, target?⟩ := a
  obtain ⟨declarations', _⟩ := a'
  obtain ⟨hDeclarations, rfl⟩ := h
  unfold readAlias
  cases part.reverse.find? fun t => t.kind == .identifier with
  | none => exact ⟨hDeclarations, rfl⟩
  | some name =>
    simp only
    by_cases hFirst : (target?.isNone && (part.filter (·.isPunctuation "*")).length == 0 && !isEnum) = true
    · simp only [if_pos hFirst]
      split
      · exact ⟨(hDeclarations.nameLastClass _ _).addTypedef _ _ _, rfl⟩
      · exact ⟨hDeclarations.nameLastClass _ _, rfl⟩
    · simp only [if_neg hFirst]
      split
      · exact ⟨hDeclarations.addTypedef _ _ _, rfl⟩
      · exact ⟨hDeclarations, rfl⟩

theorem readAliases_alike (scope : Scope) (isEnum : Bool) {a a' : Aliasing} (h : a.Alike a')
    {ts us : List Token} (hTokens : Alike ts us) :
    Concur Reached.Alike (readAliases scope isEnum a ts) (readAliases scope isEnum a' us) := by
  have hUnplaced (a : Aliasing) (ts : List Token) :
      (Token.splitAtCommas (ts.map Token.unplaced)).foldl (readAlias scope isEnum) a =
        (Token.splitAtCommas ts).foldl (readAlias scope isEnum) a := by
    rw [Token.splitAtCommas_unplaced, List.foldl_map]
    simp only [readAlias_unplaced]
  have hFold {a a' : Aliasing} (h : a.Alike a') (parts : List (List Token)) :
      (parts.foldl (readAlias scope isEnum) a).Alike (parts.foldl (readAlias scope isEnum) a') := by
    induction parts generalizing a a' with
    | nil => exact h
    | cons part parts ih => exact ih (readAlias_alike scope isEnum h part)
  unfold readAliases
  refine (splitDeclaration_alike hTokens).bind ?_
  rintro ⟨head, rest⟩ ⟨head', rest'⟩ - - hParts
  obtain ⟨hHead, hRest⟩ : Alike head head' ∧ Alike rest rest' := hParts
  have hSame := hFold h (Token.splitAtCommas (head.map Token.unplaced))
  rw [hUnplaced, show head.map Token.unplaced = head'.map Token.unplaced from hHead, hUnplaced] at hSame
  exact .returns ⟨hSame.declarations, dropSemicolon_alike hRest⟩

theorem baseClasses_alike {head head' : List Token} (h : Alike head head') :
    baseClasses head' = baseClasses head := by
  have hUnplaced (ts : List Token) : baseClasses (ts.map Token.unplaced) = baseClasses ts := by
    unfold baseClasses
    rw [Token.dropWhile_unplaced fun _ => rfl]
    cases ts.dropWhile fun t => !t.isPunctuation ":" with
    | nil => rfl
    | cons colon list =>
      simp only [List.map_cons, Token.splitAtCommas_unplaced, List.map_map, Function.comp_def]
      congr 2
      funext part
      rw [Token.filter_unplaced fun _ => rfl, Token.spell_unplaced]
  rw [← hUnplaced, ← h, hUnplaced]

structure Members.Alike (m m' : Members) : Prop where
  methods : m.methods.map Method.unplaced = m'.methods.map Method.unplaced
  fields : m.fields = m'.fields

theorem Members.Alike.refl (m : Members) : m.Alike m := ⟨rfl, rfl⟩

theorem Members.Alike.add {m m' : Members} (h : m.Alike m') (line line' : Nat)
    {declared declared' : Declared} (hDeclared : declared.placeless = declared'.placeless) :
    (m.add line declared).Alike (m'.add line' declared') := by
  obtain rfl | ⟨k, k', rfl, rfl, hMethod⟩ := cases_of_placeless hDeclared
  · cases declared with
    | nothing => exact h
    | method k => exact ⟨by simp [Members.add, h.methods], h.fields⟩
    | fields fs => exact ⟨h.methods, by rw [Members.add, Members.add, h.fields]⟩
  · exact ⟨by simp [Members.add, h.methods, hMethod], h.fields⟩

structure Body.Alike (b b' : Body) : Prop where
  members : b.members.Alike b'.members
  reached : b.reached.Alike b'.reached

/-- Whether two readers of bodies concur on alike tokens, if these are at most `n`. -/
def BodiesConcur (n : Nat) (readBody readBody' : BodyReader) : Prop :=
  ∀ (scope : Scope) (name : String) (access : Access) (opener opener' : Token) (d d' : Declarations)
    (ts us : List Token), d.Alike d' → Token.Alike ts us → ts.length ≤ n →
    Concur Body.Alike (readBody scope name access opener d ts)
      (readBody' scope name access opener' d' us)

section

variable {n : Nat} {readBody readBody' : BodyReader} {t t' : Token} {ts us : List Token}

theorem readClass_alike (hBody : BodiesConcur n readBody readBody') (hDeclarations : d.Alike d')
    (scope : Scope) (hToken : t.unplaced = t'.unplaced) {head head' : List Token}
    (hHead : Alike head head') (opener opener' : Token) (h : Alike ts us) (hLength : ts.length ≤ n) :
    Concur Reached.Alike (readClass readBody scope d t head opener ts)
      (readClass readBody' scope d' t' head' opener' us) := by
  have hName : className head' = className head := className_alike hHead
  have hKind : classKind t' = classKind t := by rw [classKind, classKind, Token.text_of_alike hToken]
  unfold readClass
  simp only [hName, hKind, baseClasses_alike hHead]
  refine (hBody scope (className head) (classKind t).defaultAccess opener opener' d d' ts us
    hDeclarations h hLength).bind fun b b' _ _ hSame => ?_
  refine .returns ⟨hSame.reached.declarations.addClass ?_, hSame.reached.rest⟩
  simp [Class.unplaced, hSame.members.methods, hSame.members.fields]

theorem readTypedef_alike (hBody : BodiesConcur n readBody readBody') (hDeclarations : d.Alike d')
    (scope : Scope) (h : Alike ts us) (hLength : ts.length ≤ n) :
    Concur Reached.Alike (readTypedef readBody scope d ts) (readTypedef readBody' scope d' us) := by
  unfold readTypedef
  refine (splitDeclaration_alike h).bind ?_
  rintro ⟨head, rest⟩ ⟨head', rest'⟩ hSplit - hParts
  obtain ⟨hHead, hRest⟩ : Alike head head' ∧ Alike rest rest' := hParts
  have hPlain : Concur Reached.Alike
      (.ok ⟨(typedefNames head).foldl (fun d named => addTypedef d scope named.1 named.2) d,
        dropSemicolon rest⟩ : Outcome Reached)
      (.ok ⟨(typedefNames head').foldl (fun d named => addTypedef d scope named.1 named.2) d',
        dropSemicolon rest'⟩ : Outcome Reached) := by
    rw [typedefNames_alike hHead]
    exact .returns ⟨hDeclarations.foldl_addTypedef scope _, dropSemicolon_alike hRest⟩
  cases head with
  | nil =>
    obtain rfl := hHead.eq_nil
    exact hPlain
  | cons keyword inner =>
    obtain ⟨keyword', inner', rfl, hKeyword, hInner⟩ := hHead.exists_cons
    cases rest with
    | nil =>
      obtain rfl := hRest.eq_nil
      exact hPlain
    | cons brace after =>
      obtain ⟨brace', after', rfl, hBrace, hAfter⟩ := hRest.exists_cons
      simp only [Token.isOneOf_of_alike hKeyword, Token.isIdentifier_of_alike hKeyword,
        Token.isPunctuation_of_alike hBrace]
      split
      · split
        · refine (closeGroup_alike hBrace hAfter).bind fun _ _ _ _ hParts => ?_
          exact readAliases_alike scope true ⟨hDeclarations, lastName_alike hInner⟩ hParts.2.2
        · have hShorter : after.length ≤ n := by
            have hCut := congrArg List.length (splitDeclaration_eq_ok hSplit)
            simp only [List.length_append, List.length_cons] at hCut
            omega
          have hClass := readClass_alike hBody hDeclarations scope hKeyword hInner brace brace' hAfter
            hShorter
          refine hClass.bind fun r r' _ _ hSame => ?_
          simp only [className_alike hInner]
          have hAliasing : Aliasing.Alike
              ⟨r.declarations, if className inner = "" then none else some (className inner)⟩
              ⟨r'.declarations, if className inner = "" then none else some (className inner)⟩ :=
            ⟨hSame.declarations, rfl⟩
          exact readAliases_alike scope false hAliasing hSame.rest
      · exact hPlain

def ResultAlike (p q : Declared × Reached) : Prop :=
  p.1.placeless = q.1.placeless ∧ p.2.Alike q.2

theorem definesClass_alike {head head' rest rest' : List Token} (hHead : Alike head head')
    (hRest : Alike rest rest') : definesClass head' rest' = definesClass head rest := by
  unfold definesClass
  rw [@head?_alike (·.isPunctuation "\x7b") (fun _ => rfl) _ _ hRest,
    @Token.any_of_alike (fun t => t.isPunctuation "(" || t.isPunctuation "=") (fun _ => rfl) _ _ hHead]

theorem leaveClass_alike (h : Alike ts us) : Concur Alike (leaveClass ts) (leaveClass us) := by
  unfold leaveClass
  rw [@head?_alike (·.isPunctuation ";") (fun _ => rfl) _ _ h]
  split
  · have hTail : Alike ts.tail us.tail := by
      rw [Token.Alike, List.map_tail, List.map_tail, h]
    exact .returns hTail
  · exact skip_alike h

theorem readClassOrDeclaration_alike (hBody : BodiesConcur n readBody readBody')
    (hDeclarations : d.Alike d') (scope : Scope) (member? : Option Member)
    (hToken : t.unplaced = t'.unplaced) (h : Alike ts us) (hLength : ts.length ≤ n) :
    Concur ResultAlike (readClassOrDeclaration readBody scope member? d t ts)
      (readClassOrDeclaration readBody' scope member? d' t' us) := by
  have hWhole : Alike (t :: ts) (t' :: us) := .cons hToken h
  rw [readClassOrDeclaration_eq, readClassOrDeclaration_eq]
  refine (splitDeclaration_alike hWhole).bind ?_
  rintro ⟨head, rest⟩ ⟨head', rest'⟩ hSplit - hParts
  obtain ⟨hHead, hRest⟩ : Alike head head' ∧ Alike rest rest' := hParts
  simp only [definesClass_alike hHead hRest]
  cases hDefines : definesClass head rest with
  | false =>
    exact (readDeclaration_alike member? hWhole).map fun _ _ hSame =>
      ⟨hSame.declared, hDeclarations, hSame.rest⟩
  | true =>
    obtain ⟨opener, after, rfl, -⟩ := exists_opener_of_defines hDefines
    obtain ⟨opener', after', rfl, -, hAfter⟩ := hRest.exists_cons
    have hTail : Alike head.tail head'.tail := by
      rw [Token.Alike, List.map_tail, List.map_tail, hHead]
    have hShorter : after.length ≤ n := by
      have hCut := congrArg List.length (splitDeclaration_eq_ok hSplit)
      simp only [List.length_append, List.length_cons] at hCut
      omega
    exact (readClass_alike hBody hDeclarations scope hToken hTail opener opener' hAfter
      hShorter).bind fun _ _ _ _ hSame => (leaveClass_alike hSame.rest).bind fun _ _ _ _ hLater =>
        .returns ⟨rfl, hSame.declarations, hLater⟩

theorem Form.read_alike (hBody : BodiesConcur n readBody readBody') (hDeclarations : d.Alike d')
    (form : Form) (scope : Scope) (member? : Option Member) (hToken : t.unplaced = t'.unplaced)
    (h : Alike ts us) (hLength : ts.length ≤ n) :
    Concur ResultAlike (form.read readBody scope member? d t ts)
      (form.read readBody' scope member? d' t' us) := by
  have hWhole : Alike (t :: ts) (t' :: us) := .cons hToken h
  cases form with
  | passed => exact (skip_alike hWhole).bind fun _ _ _ _ hRest => .returns ⟨rfl, hDeclarations, hRest⟩
  | typeAlias =>
    exact (readUsing_alike hDeclarations scope hToken h).bind fun _ _ _ _ hSame => .returns ⟨rfl, hSame⟩
  | template =>
    exact (skipTemplate_alike h).bind fun _ _ _ _ hRest => .returns ⟨rfl, hDeclarations, hRest⟩
  | typedef =>
    exact (readTypedef_alike hBody hDeclarations scope h hLength).bind fun _ _ _ _ hSame =>
      .returns ⟨rfl, hSame⟩
  | classLike => exact readClassOrDeclaration_alike hBody hDeclarations scope member? hToken h hLength
  | plain =>
    exact (readDeclaration_alike member? hWhole).bind fun _ _ _ _ hSame =>
      .returns ⟨hSame.declared, hDeclarations, hSame.rest⟩

theorem readMember_alike (hBody : BodiesConcur n readBody readBody') (hDeclarations : d.Alike d')
    (scope : Scope) (member : Member) (hToken : t.unplaced = t'.unplaced) (h : Alike ts us)
    (hLength : ts.length ≤ n) :
    Concur ResultAlike (readMember readBody scope member d t ts)
      (readMember readBody' scope member d' t' us) := by
  obtain ⟨form, hForm⟩ := Form.exists_starts passedMembers t.text
  have hForm' : form.Starts passedMembers t'.text := by
    rw [Token.text_of_alike hToken]
    exact hForm
  rw [readMember_eq hForm, readMember_eq hForm']
  exact form.read_alike hBody hDeclarations scope (some member) hToken h hLength

end

theorem accessLabel?_alike {t t' : Token} (hToken : t.unplaced = t'.unplaced) {ts us : List Token}
    (h : Alike ts us) : accessLabel? t' us = accessLabel? t ts := by
  unfold accessLabel?
  rw [@head?_alike (·.isPunctuation ":") (fun _ => rfl) _ _ h, Token.text_of_alike hToken]

theorem BodyPart.starts_alike {t t' : Token} (hToken : t.unplaced = t'.unplaced) {ts us : List Token}
    (h : Alike ts us) {part : BodyPart} (hPart : part.Starts t ts) : part.Starts t' us := by
  cases part <;>
    simpa only [BodyPart.Starts, Token.isPunctuation_of_alike hToken, accessLabel?_alike hToken h]
      using hPart

theorem ScopePart.starts_alike {t t' : Token} (hToken : t.unplaced = t'.unplaced) {part : ScopePart}
    (hPart : part.Starts t) : part.Starts t' := by
  cases part <;> simpa only [ScopePart.Starts, Token.isPunctuation_of_alike hToken] using hPart

theorem readMembers_alike {steps steps' : Nat} {scope : Scope} {name : String} {opener opener' : Token}
    {access : Access} {members members' : Members} {ts us : List Token} (hMembers : members.Alike members')
    (hDeclarations : d.Alike d') (h : Alike ts us) (hSteps : ts.length < steps)
    (hSteps' : us.length < steps') :
    Concur Body.Alike (readMembers steps scope name opener access members d ts)
      (readMembers steps' scope name opener' access members' d' us) := by
  induction steps generalizing steps' scope name opener opener' access members members' d d' ts us with
  | zero => omega
  | succ steps ih =>
    obtain ⟨steps', rfl⟩ := Nat.exists_eq_succ_of_ne_zero (Nat.ne_zero_of_lt hSteps')
    cases ts with
    | nil =>
      obtain rfl := h.eq_nil
      unfold readMembers
      exact .fails
    | cons t rest =>
      obtain ⟨t', rest', rfl, hToken, hRest⟩ := h.exists_cons
      simp only [List.length_cons] at hSteps hSteps'
      obtain ⟨part, hPart⟩ := BodyPart.exists_starts t rest
      rw [readMembers_eq hPart, readMembers_eq (BodyPart.starts_alike hToken hRest hPart)]
      cases part with
      | close => exact .returns ⟨hMembers, hDeclarations, hRest⟩
      | semicolon => exact ih hMembers hDeclarations hRest (by omega) (by omega)
      | label access =>
        have hTail : Alike rest.tail rest'.tail := by
          rw [Token.Alike, List.map_tail, List.map_tail, hRest]
        refine ih hMembers hDeclarations hTail ?_ ?_
        · rw [List.length_tail]
          omega
        · rw [List.length_tail]
          omega
      | member =>
        have hBody : BodiesConcur rest.length (bodyReader steps) (bodyReader steps') := by
          intro scope name access opener opener' d d' ts us hDeclarations hTokens hLength
          refine ih (.refl _) hDeclarations hTokens (by omega) ?_
          have hSame := hTokens.length_eq
          have hLengths := hRest.length_eq
          omega
        have hMember := readMember_alike hBody hDeclarations scope ⟨name, access⟩ hToken hRest
          (Nat.le_refl _)
        refine hMember.bind ?_
        rintro ⟨declared, r⟩ ⟨declared', r'⟩ hRead hRead' ⟨hDeclared, hReached⟩
        have hShorter : r.rest.length ≤ rest.length :=
          (readMember_suffix_tail (bodyReader_sound steps) hRead hPart.1).length_le
        have hShorter' : r'.rest.length ≤ rest'.length :=
          (readMember_suffix_tail (bodyReader_sound steps') hRead'
            ((Token.isPunctuation_of_alike hToken _).trans hPart.1)).length_le
        have hNext : r.rest.length < steps := by omega
        have hNext' : r'.rest.length < steps' := by omega
        exact ih (hMembers.add _ _ hDeclared) hReached.declarations hReached.rest hNext hNext'

theorem readBody_alike (n : Nat) : BodiesConcur n readBody readBody := by
  intro scope name access opener opener' d d' ts us hDeclarations hTokens _
  exact readMembers_alike (.refl _) hDeclarations hTokens (Nat.lt_succ_self _) (Nat.lt_succ_self _)

theorem addFunction_alike (hDeclarations : d.Alike d') (scope : Scope) {declared declared' : Declared}
    (h : declared.placeless = declared'.placeless) :
    (addFunction d scope declared).Alike (addFunction d' scope declared') := by
  have hAdd {k k' : Method} (hMethod : k.unplaced = k'.unplaced) :
      (addFunction d scope (.method k)).Alike (addFunction d' scope (.method k')) := by
    have hKind : k.kind = k'.kind := (congrArg Method.kind hMethod :)
    unfold addFunction
    simp only [hKind]
    split
    · refine ⟨hDeclarations.classes, hDeclarations.typedefs, ?_⟩
      have hFunction := congrArg (fun m : Method => (⟨m.name, scope.qualify m.name,
        m.returnType?.getD TypeExpr.void, 0, nowhere, m.body?⟩ : FreeFunction)) hMethod
      simp only [Declarations.addFunction, List.map_append, hDeclarations.functions, List.map_cons,
        List.map_nil]
      exact congrArg (fun f => d'.functions.map FreeFunction.unplaced ++ [f]) hFunction
    · exact hDeclarations
  obtain rfl | ⟨k, k', rfl, rfl, hMethod⟩ := cases_of_placeless h
  · cases declared with
    | nothing => exact hDeclarations
    | method k => exact hAdd rfl
    | fields fs => exact hDeclarations
  · exact hAdd hMethod

def ScopesConcur (n : Nat)
    (readInner readInner' : Scope → Token → Declarations → List Token → Outcome Reached) : Prop :=
  ∀ (scope : Scope) (opener opener' : Token) (d d' : Declarations) (ts us : List Token), d.Alike d' →
    Token.Alike ts us → ts.length ≤ n →
    Concur Reached.Alike (readInner scope opener d ts) (readInner' scope opener' d' us)

theorem startsLinkage_of_alike {ts us : List Token} (h : Alike ts us) (hStarts : StartsLinkage ts) :
    StartsLinkage us := by
  obtain ⟨language, brace, after, rfl, hKind, hBrace⟩ := hStarts
  obtain ⟨language', us, rfl, hLanguage, hRest⟩ := h.exists_cons
  obtain ⟨brace', after', rfl, hMark, -⟩ := hRest.exists_cons
  exact ⟨language', brace', after', rfl, (Token.kind_of_alike hLanguage).trans hKind,
    (Token.isPunctuation_of_alike hMark _).trans hBrace⟩

theorem IsItem.inner_alike {t t' opener : Token} {ts us after : List Token} {names : List String}
    (hItem : IsItem t ts (.inner names opener after)) (hToken : t.unplaced = t'.unplaced)
    (h : Alike ts us) :
    ∃ opener' after', IsItem t' us (.inner names opener' after') ∧ Alike after after' := by
  have hText := Token.text_of_alike hToken
  cases hItem with
  | space hWord hName hOpen =>
    have hAfterName : Alike (ts.dropWhile inNamespaceName) (us.dropWhile inNamespaceName) :=
      h.dropWhile fun _ => rfl
    rw [hName] at hAfterName
    obtain ⟨opener', after', hName', hOpener, hAfter⟩ := hAfterName.exists_cons
    refine ⟨opener', after', ?_, hAfter⟩
    rw [show spaceNames ts = spaceNames us from (names_alike (h.takeWhile fun _ => rfl)).symm]
    exact .space (hText.trans hWord) hName' ((Token.isPunctuation_of_alike hOpener _).trans hOpen)
  | linkage hWord hCut hString hOpen =>
    subst hCut
    obtain ⟨language', us, rfl, hLanguage, hRest⟩ := h.exists_cons
    obtain ⟨opener', after', rfl, hOpener, hAfter⟩ := hRest.exists_cons
    exact ⟨opener', after', .linkage (hText.trans hWord) rfl
      ((Token.kind_of_alike hLanguage).trans hString)
      ((Token.isPunctuation_of_alike hOpener _).trans hOpen), hAfter⟩

theorem Form.record_alike (form : Form) (scope : Scope) {declared declared' : Declared}
    {r r' : Reached} (h : ResultAlike (declared, r) (declared', r')) :
    (form.record scope declared r).Alike (form.record scope declared' r') := by
  obtain ⟨hDeclared, hReached⟩ := h
  cases form with
  | plain => exact ⟨addFunction_alike hReached.declarations scope hDeclared, hReached.rest⟩
  | _ => exact hReached

theorem readItem_alike {n : Nat} {readInner readInner' : ScopeReader}
    (hInner : ScopesConcur n readInner readInner') (hDeclarations : d.Alike d') (scope : Scope)
    {t t' : Token} (hToken : t.unplaced = t'.unplaced) {ts us : List Token} (h : Alike ts us)
    (hLength : ts.length ≤ n) :
    Concur Reached.Alike (readItem readInner scope d t ts) (readItem readInner' scope d' t' us) := by
  have hText := Token.text_of_alike hToken
  have hNamespace := @head?_alike (·.isIdentifier "namespace") (fun _ => rfl) _ _ h
  obtain ⟨form, hForm⟩ := exists_isItem t ts
  rw [readItem_eq hForm]
  cases form with
  | inner names opener after =>
    obtain ⟨opener', after', hForm', hAfter⟩ := hForm.inner_alike hToken h
    have hShorter := hForm.inner_suffix.length_le
    rw [List.length_cons] at hShorter
    rw [readItem_eq hForm']
    exact hInner _ opener opener' d d' after after' hDeclarations hAfter (by omega)
  | bodiless passed =>
    cases hForm with
    | bodiless hWord hNot =>
      have hAfterName : Alike (ts.dropWhile inNamespaceName) (us.dropWhile inNamespaceName) :=
        h.dropWhile fun _ => rfl
      have hBrace := @head?_alike (·.isPunctuation "\x7b") (fun _ => rfl) _ _ hAfterName
      rw [readItem_eq (.bodiless (hText.trans hWord) (hBrace.trans hNot))]
      exact (skip_alike hAfterName).bind fun _ _ _ _ hRest => .returns ⟨hDeclarations, hRest⟩
  | inlineSpace =>
    cases hForm with
    | inlineSpace hWord hNext =>
      rw [readItem_eq (.inlineSpace (hText.trans hWord) (hNamespace.trans hNext))]
      exact .returns ⟨hDeclarations, h⟩
  | shared form =>
    cases hForm with
    | shared hSpace hInline hLinkage hStarts =>
      have hForm' : IsItem t' us (.shared form) := by
        refine .shared ?_ ?_ ?_ ?_
        · rwa [hText]
        · rwa [hText, hNamespace]
        · rw [hText]
          exact fun hBoth => hLinkage ⟨hBoth.1, startsLinkage_of_alike (Eq.symm h) hBoth.2⟩
        · rwa [hText]
      rw [readItem_eq hForm']
      exact (form.read_alike (readBody_alike ts.length) hDeclarations scope none hToken h
        (Nat.le_refl _)).bind fun _ _ _ _ hSame => .returns (form.record_alike scope hSame)

theorem readScope_alike {steps steps' : Nat} {scope : Scope} {opener? opener'? : Option Token}
    (hOpener : opener'?.isSome = opener?.isSome) {ts us : List Token} (hDeclarations : d.Alike d')
    (h : Alike ts us) (hSteps : ts.length < steps) (hSteps' : us.length < steps') :
    Concur Reached.Alike (readScope steps scope opener? d ts) (readScope steps' scope opener'? d' us) := by
  induction steps generalizing steps' scope opener? opener'? d d' ts us with
  | zero => omega
  | succ steps ih =>
    obtain ⟨steps', rfl⟩ := Nat.exists_eq_succ_of_ne_zero (Nat.ne_zero_of_lt hSteps')
    cases ts with
    | nil =>
      obtain rfl := h.eq_nil
      unfold readScope
      cases opener? with
      | none =>
        obtain rfl : opener'? = none := by simpa using hOpener
        exact .returns ⟨hDeclarations, h⟩
      | some opener =>
        obtain ⟨opener', rfl⟩ := Option.isSome_iff_exists.mp (hOpener.trans rfl)
        exact .fails
    | cons t rest =>
      obtain ⟨t', rest', rfl, hToken, hRest⟩ := h.exists_cons
      simp only [List.length_cons] at hSteps hSteps'
      obtain ⟨part, hPart⟩ := ScopePart.exists_starts t
      rw [readScope_eq hPart, readScope_eq (ScopePart.starts_alike hToken hPart)]
      cases part with
      | close =>
        simp only [ScopePart.read, hOpener]
        split
        · exact .returns ⟨hDeclarations, hRest⟩
        · exact .fails
      | semicolon => exact ih hOpener hDeclarations hRest (by omega) (by omega)
      | group =>
        refine (closeGroup_alike hToken hRest).bind ?_
        rintro ⟨body, close, later⟩ ⟨body', close', later'⟩ hGroup hGroup' ⟨-, -, hLater⟩
        obtain rfl := closeGroup_eq_ok hGroup
        obtain rfl := closeGroup_eq_ok hGroup'
        simp only [List.length_append, List.length_cons] at hSteps hSteps'
        have hNext : later.length < steps := by omega
        have hNext' : later'.length < steps' := by omega
        exact ih hOpener hDeclarations hLater hNext hNext'
      | item =>
        have hInner : ScopesConcur rest.length
            (fun scope opener d ts => readScope steps scope (some opener) d ts)
            (fun scope opener d ts => readScope steps' scope (some opener) d ts) := by
          intro scope opener opener' d d' ts us hDeclarations hTokens hLength
          have hSame := hTokens.length_eq
          have hLengths := hRest.length_eq
          have hNext : us.length < steps' := by omega
          have hBoth : (some opener').isSome = (some opener).isSome := rfl
          exact ih hBoth hDeclarations hTokens (by omega) hNext
        have hItem := readItem_alike hInner hDeclarations scope hToken hRest (Nat.le_refl _)
        refine hItem.bind fun r r' hRead hRead' hSame => ?_
        have hShorter := (readItem_suffix_tail (fun _ _ _ _ _ h => readScope_suffix h) hRead
          hPart.1).length_le
        have hShorter' := (readItem_suffix_tail (fun _ _ _ _ _ h => readScope_suffix h) hRead'
          ((Token.isPunctuation_of_alike hToken _).trans hPart.1)).length_le
        exact ih hOpener hSame.declarations hSame.rest (by omega) (by omega)

/-- Whether tokens are read as others, as a whole, outside of classes, and in a class: both or none
are read, and they declare the same apart from spans and lines. -/
structure ReadAlike (ts us : List Token) : Prop where
  whole : ∀ files files' : List Source.File, Concur Declarations.Alike (read files ts) (read files' us)
  scopes : ∀ (scope : Scope) (opener? opener'? : Option Token) (d d' : Declarations) (steps steps' : Nat),
    opener'?.isSome = opener?.isSome → d.Alike d' → ts.length < steps → us.length < steps' →
    Concur Reached.Alike (readScope steps scope opener? d ts) (readScope steps' scope opener'? d' us)
  members : ∀ (scope : Scope) (name : String) (opener opener' : Token) (access : Access)
    (members members' : Members) (d d' : Declarations) (steps steps' : Nat), members.Alike members' →
    d.Alike d' → ts.length < steps → us.length < steps' →
    Concur Body.Alike (readMembers steps scope name opener access members d ts)
      (readMembers steps' scope name opener' access members' d' us)

theorem concur_read {files files' : List Source.File} {ts us : List Token}
    (h : Concur Reached.Alike (readScope (ts.length + 1) [] none Declarations.empty ts)
      (readScope (us.length + 1) [] none Declarations.empty us)) :
    Concur Declarations.Alike (read files ts) (read files' us) := by
  unfold read
  cases hFirst : readScope (ts.length + 1) [] none Declarations.empty ts <;>
    cases hSecond : readScope (us.length + 1) [] none Declarations.empty us <;>
    rw [hFirst, hSecond] at h <;> cases h
  case error.error => exact .fails
  case ok.ok hSame => exact .returns hSame.declarations

end Declaration

end SkeletonWeave
