import Mathlib.Data.List.Chain
import SkeletonWeave.Proofs.Declaration.Heads
import SkeletonWeave.Proofs.Declaration.Places
import SkeletonWeave.Proofs.Declaration.RoundTrip

/-!
# Parameters with defaults

The parameters of a method are told apart by the commas outside of delimiters, and
the angle brackets of a default count as delimiters, although they compare and
shift. So the parameters are the written ones just if all defaults but the last
have as many angle brackets that open as that close, and no default has a comma
where the count is zero.
-/

set_option autoImplicit false

namespace SkeletonWeave

open Token (Nested brackets closer)

namespace Grammar

structure Unattributed (ws : List Word) : Prop where
  words : ∀ w ∈ ws, w.kind = .identifier → w.text ∉ Words.attributes
  brackets : ws.IsChain fun w v => ¬(w = mark "[" ∧ v = mark "[")

/-- The words of an expression: brackets nest, and there are no attributes and operator names. -/
structure ExpressionSyntax where
  words : List Word
  isNested : Nested (words.map bare)
  isUnattributed : Unattributed words
  isPlain : word "operator" ∉ words

structure GivenSyntax where
  param : ParamSyntax
  default? : Option ExpressionSyntax

namespace GivenSyntax

def defaultWords (p : GivenSyntax) : List Word :=
  (p.default?.map ExpressionSyntax.words).getD []

def words (p : GivenSyntax) : List Word :=
  p.param.words ++ (p.default?.map fun e => mark "=" :: e.words).getD []

def denotes (p : GivenSyntax) : Param :=
  { p.param.denotes with hasDefault := p.default?.isSome }

end GivenSyntax

inductive MethodStart where
  | regular (result : TypeSyntax) (name : Name)
  | constructor (name : Name)
  | destructor (name : Name)

namespace MethodStart

def name : MethodStart → Name
  | regular _ name | constructor name | destructor name => name

def before : MethodStart → List Word
  | regular result _ => result.words
  | constructor _ => []
  | destructor _ => [mark "~"]

def words (s : MethodStart) : List Word :=
  s.before ++ [s.name.word]

def Fits (className : String) : MethodStart → Prop
  | constructor name => name.text = className
  | _ => True

end MethodStart

/-- The specifiers and attributes before a method, and the specifiers among them. -/
inductive Prelude : List Token → List Token → Prop
  | nil : Prelude [] []
  | specifier {t : Token} {ts us : List Token} :
    t.kind = .identifier → t.text ∈ Words.specifying → t.text ≠ "friend" → Prelude ts us →
    Prelude (t :: ts) (t :: us)
  | worded {t opener close : Token} {inside ts us : List Token} :
    t.isOneOf Words.attributes = true → opener.word = mark "(" → close.word = mark ")" →
    Nested inside → Prelude ts us → Prelude (t :: opener :: (inside ++ close :: ts)) us
  | bracketed {first second third fourth : Token} {inside ts us : List Token} :
    first.word = mark "[" → second.word = mark "[" → third.word = mark "]" →
    fourth.word = mark "]" → Nested inside → Prelude ts us →
    Prelude (first :: second :: (inside ++ third :: fourth :: ts)) us

/-- Whether tokens from the end of a head on are a semicolon, or a body and perhaps a semicolon,
and some tokens are left after them. -/
inductive Ending (stop : Token) : List Token → List Token → Prop
  | semicolon {rest : List Token} : stop.word = mark ";" → Ending stop (stop :: rest) rest
  | body {close : Token} {inside rest : List Token} :
    stop.word = mark "\x7b" → close.word = mark "\x7d" → Nested inside →
    Ending stop (stop :: (inside ++ close :: rest)) (Declaration.dropSemicolon rest)

/-- The head of a method of a class, up to the token that ends it. What follows the parameters is
free. -/
structure MethodHead (className : String) where
  start : MethodStart
  params : List GivenSyntax
  lead : List Token
  specifiers : List Token
  before : List Token
  name : Token
  opener : Token
  list : List Token
  close : Token
  trailing : List Token
  stop : Token
  fits : start.Fits className
  isPrelude : Prelude lead specifiers
  isBefore : before.map Token.word = start.before
  isName : name.word = start.name.word
  opens : opener.word = mark "("
  isList : list.map Token.word = separated (params.map GivenSyntax.words)
  closes : close.word = mark ")"
  isTrailing : Declaration.Head stop none true false trailing
  noOperator : ∀ t ∈ trailing, t.isIdentifier "operator" = false

def MethodHead.tokens {className : String} (m : MethodHead className) : List Token :=
  m.lead ++ (m.before ++ m.name :: m.opener :: (m.list ++ m.close :: m.trailing))

/-- Whether the parameters are told apart: angle brackets pair up in number in all defaults but the
last, and no default has a comma outside of what counts as delimiters. -/
structure ToldApart (ps : List GivenSyntax) : Prop where
  closed : ∀ p ∈ ps.dropLast, p.defaultWords.count (mark "<") = p.defaultWords.count (mark ">")
  hidden : ∀ p ∈ ps, hidesCommas 0 p.defaultWords = true

theorem mark_of_isBracket {t : Token} (h : t.isBracket = false) :
    ∀ bracket ∈ brackets, t.word ≠ mark bracket ∧ t.word ≠ mark (closer bracket) := by
  intro bracket hBracket
  obtain ⟨hOpens, hCloses⟩ := Token.isPunctuation_of_isBracket h hBracket
  rw [← Bool.not_eq_true, Token.isPunctuation_iff] at hOpens hCloses
  exact ⟨hOpens, hCloses⟩

theorem rise_of_isBracket {t : Token} (h : t.isBracket = false) :
    rise t.word = [t.word].count (mark "<") - [t.word].count (mark ">") := by
  obtain ⟨hRound, hRound'⟩ := mark_of_isBracket h "(" (by decide)
  obtain ⟨hSquare, hSquare'⟩ := mark_of_isBracket h "[" (by decide)
  obtain ⟨hCurly, hCurly'⟩ := mark_of_isBracket h "\x7b" (by decide)
  simp only [closer, String.reduceEq, if_false, if_true] at hRound' hSquare' hCurly'
  by_cases hOpen : t.word = mark "<"
  · rw [hOpen]
    decide
  by_cases hClose : t.word = mark ">"
  · rw [hClose]
    decide
  simp [rise, hRound, hRound', hSquare, hSquare', hCurly, hCurly', hOpen, hClose]

theorem depth_nested {ts : List Token} (h : Nested ts) :
    depth (ts.map Token.word) =
      (ts.map Token.word).count (mark "<") - (ts.map Token.word).count (mark ">") := by
  induction h with
  | nil => rfl
  | @plain t ts hPlain _ ih =>
    have hFirst : depth [t.word] = [t.word].count (mark "<") - [t.word].count (mark ">") := by
      rw [← rise_of_isBracket hPlain]
      simp
    rw [List.map_cons, ← List.singleton_append, depth_append, hFirst, ih, List.count_append,
      List.count_append]
    push_cast
    omega
  | @group opener close inside rest hText hOpen hClose _ _ ihInside ih =>
    rw [Token.isPunctuation_iff] at hOpen hClose
    have hEnds : rise opener.word + rise close.word = 0 ∧
        ∀ angle ∈ [mark "<", mark ">"], opener.word ≠ angle ∧ close.word ≠ angle := by
      rw [hOpen, hClose]
      rcases Token.brackets_cases hText with h | h | h <;> rw [h] <;> decide
    obtain ⟨hRise, hAngle⟩ := hEnds
    obtain ⟨hOpenLess, hCloseLess⟩ := hAngle (mark "<") (by simp)
    obtain ⟨hOpenMore, hCloseMore⟩ := hAngle (mark ">") (by simp)
    have hDepth : depth ((opener :: (inside ++ close :: rest)).map Token.word) =
        rise opener.word + rise close.word + depth (inside.map Token.word) +
          depth (rest.map Token.word) := by
      simp only [List.map_cons, List.map_append, depth_cons, depth_append]
      omega
    rw [hDepth, hRise, ihInside, ih]
    simp only [List.map_cons, List.map_append, List.count_cons_of_ne hOpenLess,
      List.count_cons_of_ne hOpenMore, List.count_append, List.count_cons_of_ne hCloseLess,
      List.count_cons_of_ne hCloseMore]
    push_cast
    omega

section

variable {bracket : String} {opener close : Token} {inside rest : List Token}

theorem nested_marked (hBracket : bracket ∈ brackets) (hOpen : opener.word = mark bracket)
    (hClose : close.word = mark (closer bracket)) (hInside : Nested inside) (hRest : Nested rest) :
    Nested (opener :: (inside ++ close :: rest)) := by
  obtain rfl : opener.text = bracket := congrArg Word.text hOpen
  exact .group hBracket (Token.isPunctuation_iff.mpr hOpen) (Token.isPunctuation_iff.mpr hClose)
    hInside hRest

theorem head_marked {stop : Token} {previous? : Option Token} {params inits : Bool}
    (hBracket : bracket ∈ brackets) (hOpen : opener.word = mark bracket)
    (hClose : close.word = mark (closer bracket)) (hInside : Nested inside)
    (hInitializes : bracket = "\x7b" → Declaration.initializes previous? inits = true)
    (hRest : Declaration.Head stop (some close) (params || opener.isPunctuation "(") inits rest) :
    Declaration.Head stop previous? params inits (opener :: (inside ++ close :: rest)) := by
  obtain rfl : opener.text = bracket := congrArg Word.text hOpen
  exact .group hBracket (Token.isPunctuation_iff.mpr hOpen) (Token.isPunctuation_iff.mpr hClose)
    hInside (fun hBrace => hInitializes (Token.text_of_isPunctuation hBrace)) hRest

end

theorem nested_of_words {ws : List Word} (h : Nested (ws.map bare)) {ts : List Token}
    (hWords : ts.map Token.word = ws) : Nested ts := by
  have hMark (t : Token) : (bare t.word).isPunctuation = t.isPunctuation :=
    Token.keepsWords_bare.isPunctuation t
  have hBare : ts.map (fun t => bare t.word) = ws.map bare := by
    rw [← hWords, List.map_map]
    rfl
  generalize ws.map bare = us at h hBare
  clear hWords
  induction h generalizing ts with
  | nil =>
    obtain rfl := List.map_eq_nil_iff.mp hBare
    exact .nil
  | plain hPlain _ ih =>
    obtain ⟨t, ts, rfl, rfl, hRest⟩ := List.map_eq_cons_iff.mp hBare
    refine .plain ?_ (ih hRest)
    rwa [Token.isBracket, hMark] at hPlain
  | group hText hOpen hClose _ _ ihInside ih =>
    obtain ⟨opener, ts, rfl, rfl, hTail⟩ := List.map_eq_cons_iff.mp hBare
    obtain ⟨inside, ts, rfl, hInside, hTail⟩ := List.map_eq_append_iff.mp hTail
    obtain ⟨close, rest, rfl, rfl, hRest⟩ := List.map_eq_cons_iff.mp hTail
    rw [hMark] at hOpen hClose
    exact .group hText hOpen hClose (ihInside hInside) (ih hRest)

namespace Unattributed

theorem nil : Unattributed [] :=
  ⟨nofun, .nil⟩

theorem append {ws vs : List Word} (h : Unattributed ws) (h' : Unattributed vs)
    (hHead : vs.head? ≠ some (mark "[")) : Unattributed (ws ++ vs) where
  words := List.forall_mem_append.mpr ⟨h.words, h'.words⟩
  brackets := by
    refine List.isChain_append.mpr ⟨h.brackets, h'.brackets, fun w _ v hv hBoth => hHead ?_⟩
    rw [← hBoth.2]
    exact hv

theorem plain_append (ws : List Word) {vs : List Word} (hPlain : ∀ w ∈ ws, w.text ∉ "[" :: Words.attributes)
    (h : Unattributed vs) : Unattributed (ws ++ vs) := by
  induction ws with
  | nil => exact h
  | cons w ws ih =>
    obtain ⟨hFirst, hRest⟩ := List.forall_mem_cons.mp hPlain
    have hTail := ih hRest
    refine ⟨List.forall_mem_cons.mpr ⟨fun _ hMem => hFirst (List.mem_cons_of_mem _ hMem),
      hTail.words⟩, hTail.brackets.cons fun v _ hBoth => hFirst ?_⟩
    rw [hBoth.1]
    exact List.mem_cons_self

theorem of_plain {ws : List Word} (h : ∀ w ∈ ws, w.text ∉ "[" :: Words.attributes) :
    Unattributed ws := by
  rw [← List.append_nil ws]
  exact plain_append ws h nil

end Unattributed

def bracketTexts : List String :=
  ["(", ")", "[", "]", "\x7b", "\x7d"]

theorem foreign_unattributed : ("[" :: Words.attributes).all isForeign = true := by decide

theorem isBracket_of_text {t : Token} (h : t.text ∉ bracketTexts) : t.isBracket = false := by
  have hNone : ∀ text ∈ bracketTexts, t.isPunctuation text = false := by
    intro text hText
    apply Token.isPunctuation_of_ne
    rintro rfl
    exact h hText
  simp (disch := decide) [Token.isBracket, brackets, closer, hNone]

theorem Typelike.outside {ts : List Token} (h : Typelike ts) : ∀ t ∈ ts,
    t.isBracket = false ∧ t.isPunctuation ";" = false ∧ t.isPunctuation ":" = false := by
  intro t ht
  exact ⟨isBracket_of_text ((h t ht).text_notMem (by decide)), h.isPunctuation ht ";" (by decide),
    h.isPunctuation ht ":" (by decide)⟩

theorem Typelike.nested {ts : List Token} (h : Typelike ts) : Nested ts := by
  induction ts with
  | nil => exact .nil
  | cons t ts ih =>
    obtain ⟨hFirst, hRest⟩ := List.forall_mem_cons.mp h
    exact .plain (isBracket_of_text (hFirst.text_notMem (by decide))) (ih hRest)

theorem nested_plain_append {ws : List Word} (hPlain : ∀ w ∈ ws, w.text ∉ bracketTexts)
    {ts : List Token} (h : Nested ts) : Nested (ws.map bare ++ ts) := by
  induction ws with
  | nil => exact h
  | cons w ws ih =>
    obtain ⟨hFirst, hRest⟩ := List.forall_mem_cons.mp hPlain
    exact .plain (isBracket_of_text hFirst) (ih hRest)

theorem ParamSyntax.isTypeWord (p : ParamSyntax) : ∀ w ∈ p.words, IsTypeWord w := by
  rw [ParamSyntax.words, List.forall_mem_append, List.forall_mem_singleton]
  exact ⟨p.type.isTypeWord, .name p.name⟩

theorem ParamSyntax.angled (p : ParamSyntax) : Angled false p.words :=
  p.type.angled.append (.plain p.name.plain .nil)

namespace GivenSyntax

variable (p : GivenSyntax)

theorem words_cases :
    p.words = p.param.words ∧ p.default? = none ∨
      ∃ e, p.default? = some e ∧ p.words = p.param.words ++ mark "=" :: e.words := by
  obtain ⟨param, default?⟩ := p
  cases default? with
  | none => exact .inl ⟨List.append_nil _, rfl⟩
  | some e => exact .inr ⟨e, rfl, rfl⟩

theorem unattributed : Unattributed p.words := by
  have hPlain : ∀ w ∈ p.param.words, w.text ∉ "[" :: Words.attributes :=
    fun w hw => (p.param.isTypeWord w hw).text_notMem foreign_unattributed
  rcases p.words_cases with ⟨hWords, -⟩ | ⟨e, -, hWords⟩
  · rw [hWords]
    exact .of_plain hPlain
  · rw [hWords]
    exact .plain_append _ hPlain
      (.plain_append [mark "="] (by decide) e.isUnattributed)

theorem nested : Nested (p.words.map bare) := by
  have hPlain : ∀ w ∈ p.param.words, w.text ∉ bracketTexts :=
    fun w hw => (p.param.isTypeWord w hw).text_notMem (by decide)
  rcases p.words_cases with ⟨hWords, -⟩ | ⟨e, -, hWords⟩
  · rw [hWords, ← List.append_nil (List.map bare _)]
    exact nested_plain_append hPlain .nil
  · rw [hWords, List.map_append]
    exact nested_plain_append hPlain (.plain (by decide) e.isNested)

theorem noOperator : word "operator" ∉ p.words := by
  have hParam : word "operator" ∉ p.param.words :=
    fun hMem => (p.param.isTypeWord _ hMem).text_ne (by decide) rfl
  rcases p.words_cases with ⟨hWords, -⟩ | ⟨e, -, hWords⟩
  · rwa [hWords]
  · rw [hWords, List.mem_append, List.mem_cons]
    rintro (hMem | hMark | hMem)
    · exact hParam hMem
    · exact absurd hMark (by decide)
    · exact e.isPlain hMem

theorem words_delimited :
    depth p.words = p.defaultWords.count (mark "<") - p.defaultWords.count (mark ">") ∧
      hidesCommas 0 p.words = hidesCommas 0 p.defaultWords := by
  obtain ⟨hHides, hZero⟩ := p.param.angled.hides (Int.le_refl 0) nofun
  rcases p.words_cases with ⟨hWords, hNone⟩ | ⟨e, hSome, hWords⟩
  · rw [hWords, hZero, hHides, defaultWords, hNone]
    exact ⟨rfl, rfl⟩
  · have hDefault : p.defaultWords = e.words := by
      rw [defaultWords, hSome]
      rfl
    have hEquals : hidesCommas 0 (mark "=" :: e.words) = hidesCommas 0 e.words := by
      have hRise : rise (mark "=") = 0 := by decide
      rw [hidesCommas, hRise]
      rfl
    have hWord : (fun w => (bare w).word) = (id : Word → Word) := rfl
    have hDepth : depth e.words = e.words.count (mark "<") - e.words.count (mark ">") := by
      simpa [List.map_map, Function.comp_def, hWord] using depth_nested e.isNested
    have hEqualsDepth : depth (mark "=" :: e.words) = depth e.words := by
      have hRise : rise (mark "=") = 0 := by decide
      simp [hRise]
    rw [hWords, hDefault, depth_append, hZero, hidesCommas_append, hHides, hZero, Int.zero_add,
      Bool.true_and, hEqualsDepth, ← hDepth]
    exact ⟨rfl, hEquals⟩

end GivenSyntax

theorem separable_iff (ps : List GivenSyntax) :
    Separable (ps.map GivenSyntax.words) ↔ ToldApart ps := by
  have hClosed (p : GivenSyntax) : depth p.words = 0 ↔
      p.defaultWords.count (mark "<") = p.defaultWords.count (mark ">") := by
    rw [p.words_delimited.1]
    omega
  constructor
  · rintro ⟨hHides, hZero⟩
    rw [← List.map_dropLast, List.forall_mem_map] at hZero
    rw [List.forall_mem_map] at hHides
    refine ⟨fun p hp => (hClosed p).mp (hZero p hp), fun p hp => ?_⟩
    rw [← p.words_delimited.2]
    exact hHides p hp
  · rintro ⟨hEven, hHides⟩
    refine ⟨List.forall_mem_map.mpr fun p hp => ?_, ?_⟩
    · rw [p.words_delimited.2]
      exact hHides p hp
    · rw [← List.map_dropLast]
      exact List.forall_mem_map.mpr fun p hp => (hClosed p).mpr (hEven p hp)

def givenWords (ps : List GivenSyntax) : List Word :=
  separated (ps.map GivenSyntax.words)

theorem givenWords_cons (p : GivenSyntax) (ps : List GivenSyntax) :
    givenWords (p :: ps) = p.words ++ (if ps = [] then [] else mark "," :: givenWords ps) := by
  cases ps <;> simp [givenWords, separated]

theorem unattributed_givenWords (ps : List GivenSyntax) : Unattributed (givenWords ps) := by
  induction ps with
  | nil => exact .nil
  | cons p ps ih =>
    rw [givenWords_cons]
    split
    · rw [List.append_nil]
      exact p.unattributed
    · exact p.unattributed.append (.plain_append [mark ","] (by decide) ih) (by simp [mark])

theorem nested_givenWords (ps : List GivenSyntax) : Nested ((givenWords ps).map bare) := by
  induction ps with
  | nil => exact .nil
  | cons p ps ih =>
    rw [givenWords_cons, List.map_append]
    refine p.nested.append ?_
    split
    · exact .nil
    · exact .plain (by decide) ih

theorem noOperator_givenWords (ps : List GivenSyntax) : word "operator" ∉ givenWords ps := by
  rw [givenWords]
  intro hMem
  refine forall_mem_separated (P := (· ≠ word "operator")) (by decide) ?_ _ hMem rfl
  intro ws hPart w hw
  obtain ⟨p, -, rfl⟩ := List.mem_map.mp hPart
  rintro rfl
  exact p.noOperator hw

theorem head?_givenWords (ps : List GivenSyntax) : (givenWords ps).head? ≠ some (mark "*") := by
  cases ps with
  | nil => nofun
  | cons p ps =>
    obtain ⟨w, ws, hType, hKind⟩ := p.param.type.exists_words_eq_cons
    have hFirst : (givenWords (p :: ps)).head? = some w := by
      rw [givenWords_cons, GivenSyntax.words, ParamSyntax.words, hType]
      rfl
    rw [hFirst]
    rintro hEq
    rw [Option.some.inj hEq] at hKind
    cases hKind

end Grammar

open Grammar

namespace Declarator

theorem clean_cons {t : Token} {ts : List Token} (hWord : t.isOneOf Words.attributes = false)
    (hBracket : t.isPunctuation "[" = true → ts.head?.any (·.isPunctuation "[") = false) :
    clean (t :: ts) = t :: clean ts := by
  cases ts with
  | nil => simp [clean]
  | cons u ts =>
    rw [clean, hWord, Bool.false_and, if_neg Bool.false_ne_true, if_neg]
    rw [Bool.and_eq_true]
    rintro ⟨hFirst, hSecond⟩
    have hNot : u.isPunctuation "[" = false := hBracket hFirst
    rw [hNot] at hSecond
    cases hSecond

theorem isOneOf_of_unattributed {ws : List Word} (h : Unattributed ws) {t : Token}
    (ht : t.word ∈ ws) : t.isOneOf Words.attributes = false := by
  rw [Token.isOneOf]
  by_cases hKind : t.kind = .identifier
  · have hText := h.words t.word ht hKind
    simp [show t.text ∉ Words.attributes from hText]
  · simp [hKind]

theorem clean_unattributed {front : List Token} (h : Unattributed (front.map Token.word))
    {rest : List Token} (hRest : rest.head?.any (·.isPunctuation "[") = false) :
    clean (front ++ rest) = front ++ clean rest := by
  induction front with
  | nil => rfl
  | cons t front ih =>
    have hTail : Unattributed (front.map Token.word) :=
      ⟨fun w hw => h.words w (List.mem_cons_of_mem _ hw), h.brackets.tail⟩
    rw [List.cons_append, clean_cons (isOneOf_of_unattributed h List.mem_cons_self), ih hTail]
    · rfl
    · intro hFirst
      cases front with
      | nil => exact hRest
      | cons u front =>
        have hApart := List.isChain_cons_cons.mp h.brackets
        rw [List.cons_append, List.head?_cons, Option.any_some, Bool.eq_false_iff]
        intro hSecond
        exact hApart.1 ⟨Token.isPunctuation_iff.mp hFirst, Token.isPunctuation_iff.mp hSecond⟩

theorem dropGroup_nested {inside : List Token} (h : Nested inside) {bracket : String}
    (hBracket : bracket ∈ brackets) {close : Token} (hClose : close.word = mark (closer bracket))
    (rest : List Token) : dropGroup bracket (inside ++ close :: rest) = rest := by
  rw [dropGroup, Token.closeGroup?_nested h hBracket (Token.isPunctuation_iff.mpr hClose)]

end Declarator

namespace Grammar.Prelude

variable {ts us : List Token}

theorem specifiers (h : Prelude ts us) : ∀ u ∈ us, u.isOneOf Words.specifying = true := by
  induction h with
  | nil => nofun
  | specifier hKind hText _ _ ih =>
    refine List.forall_mem_cons.mpr ⟨?_, ih⟩
    simp [Token.isOneOf, hKind, hText]
  | worded _ _ _ _ _ ih => exact ih
  | bracketed _ _ _ _ _ _ ih => exact ih

theorem clean (h : Prelude ts us) (rest : List Token) :
    Declarator.clean (ts ++ rest) = us ++ Declarator.clean rest := by
  induction h with
  | nil => rfl
  | @specifier t _ _ hKind hText _ _ ih =>
    have hNone : ∀ text ∈ Words.specifying, text ∉ Words.attributes := by decide
    have hMark : t.isPunctuation "[" = false :=
      Token.isPunctuation_of_kind (by rw [hKind]; decide) "["
    rw [List.cons_append, Declarator.clean_cons (Token.isOneOf_of_notMem (hNone _ hText))
      (by rw [hMark]; nofun), ih]
    rfl
  | worded hWord hOpen hClose hInside _ ih =>
    rw [List.cons_append, List.cons_append, List.append_assoc, List.cons_append, Declarator.clean,
      hWord, Token.isPunctuation_iff.mpr hOpen]
    simp only [Bool.and_self, if_true]
    rw [Declarator.dropGroup_nested hInside (by decide) hClose, ih]
  | @bracketed first second third fourth inside ts us hFirst hSecond hThird hFourth hInside _ ih =>
    have hGroup : Nested (second :: (inside ++ third :: [])) :=
      nested_marked (by decide) hSecond hThird hInside .nil
    have hWord : first.isOneOf Words.attributes = false := by
      apply Token.isOneOf_of_notMem
      rw [show first.text = "[" from congrArg Word.text hFirst]
      decide
    have hCut : second :: (inside ++ third :: fourth :: (ts ++ rest)) =
        second :: (inside ++ third :: []) ++ fourth :: (ts ++ rest) := by simp
    rw [List.cons_append, List.cons_append, List.append_assoc, List.cons_append, List.cons_append,
      Declarator.clean, hWord, Token.isPunctuation_iff.mpr hFirst, Token.isPunctuation_iff.mpr hSecond]
    simp only [Bool.false_and, Bool.false_eq_true, Bool.and_self, if_false, if_true]
    rw [hCut, Declarator.dropGroup_nested hGroup (by decide) hFourth, ih]

theorem head (h : Prelude ts us) {stop : Token} {rest : List Token}
    (hRest : ∀ (previous? : Option Token) (params : Bool),
      Declaration.Head stop previous? params false rest)
    (previous? : Option Token) (params : Bool) :
    Declaration.Head stop previous? params false (ts ++ rest) := by
  induction h generalizing previous? params with
  | nil => exact hRest previous? params
  | @specifier t _ _ hKind _ _ _ ih =>
    have hMark (text : String) : t.isPunctuation text = false :=
      Token.isPunctuation_of_kind (by rw [hKind]; decide) text
    refine .plain (by simp [Token.isBracket, hMark]) (hMark ";") ?_
    rw [hMark ":"]
    exact ih (some t) params
  | @worded t opener close inside _ _ hWord hOpen hClose hInside _ ih =>
    have hKind : t.kind = .identifier := by
      rw [Token.isOneOf, Bool.and_eq_true, beq_iff_eq] at hWord
      exact hWord.1
    have hMark (text : String) : t.isPunctuation text = false :=
      Token.isPunctuation_of_kind (by rw [hKind]; decide) text
    rw [List.cons_append, List.cons_append, List.append_assoc, List.cons_append]
    refine .plain (by simp [Token.isBracket, hMark]) (hMark ";") ?_
    rw [hMark ":"]
    exact head_marked (by decide) hOpen hClose hInside (by simp) (ih (some close) _)
  | @bracketed first second third fourth inside _ _ hFirst hSecond hThird hFourth hInside _ ih =>
    have hGroup : Nested (second :: (inside ++ third :: [])) :=
      nested_marked (by decide) hSecond hThird hInside .nil
    have hCut (more : List Token) : second :: (inside ++ third :: fourth :: more) =
        second :: (inside ++ third :: []) ++ fourth :: more := by simp
    rw [List.cons_append, List.cons_append, List.append_assoc, List.cons_append, List.cons_append, hCut]
    exact head_marked (by decide) hFirst hFourth hGroup (by simp) (ih (some fourth) _)

end Grammar.Prelude

namespace Grammar.MethodStart

theorem word_cases (s : MethodStart) : ∀ w ∈ s.words, w = mark "~" ∨ IsTypeWord w := by
  rw [words, List.forall_mem_append, List.forall_mem_singleton]
  refine ⟨fun w hw => ?_, .inr (.name s.name)⟩
  cases s with
  | regular result name => exact .inr (result.isTypeWord w hw)
  | constructor name => cases hw
  | destructor name => exact .inl (List.mem_singleton.mp hw)

theorem text_notMem (s : MethodStart) {texts : List String} (hForeign : texts.all isForeign = true)
    (hTilde : "~" ∉ texts) : ∀ w ∈ s.words, w.text ∉ texts := by
  intro w hw
  rcases s.word_cases w hw with rfl | hType
  · exact hTilde
  · exact hType.text_notMem hForeign

theorem angled (s : MethodStart) : Angled true s.words := by
  have hName : Angled true [s.name.word] := .plain s.name.plain .nil
  refine Angled.append ?_ hName
  cases s with
  | regular result name => exact result.angled.weaken
  | constructor name => exact .nil
  | destructor name =>
    refine .of_plain fun w hw => ?_
    rw [List.mem_singleton.mp hw]
    decide

end Grammar.MethodStart

namespace Declarator

open Token (splitAtCommas)

theorem returnType?_of_result {before : List Token} (h : before ≠ []) (trailing : List Token) :
    ∃ type, returnType? before trailing = some type := by
  unfold returnType?
  split
  · exact ⟨_, rfl⟩
  · rw [if_neg (by simpa using h)]
    exact ⟨_, rfl⟩

variable {start : MethodStart} {specifiers before : List Token} {name : Token}

theorem filter_specifiers (hSpecifiers : ∀ u ∈ specifiers, u.isOneOf Words.specifying = true)
    (ts : List Token) :
    ((specifiers ++ ts).filter fun u => !(u.isOneOf Words.specifying || u.kind == .string)) =
      ts.filter fun u => !(u.isOneOf Words.specifying || u.kind == .string) := by
  rw [List.filter_append, List.filter_eq_nil_iff.mpr, List.nil_append]
  intro u hu
  simp [hSpecifiers u hu]

theorem getLast?_specifiers (hSpecifiers : ∀ u ∈ specifiers, u.isOneOf Words.specifying = true)
    (text : String) : specifiers.getLast?.any (·.isPunctuation text) = false := by
  cases hLast : specifiers.getLast? with
  | none => rfl
  | some u =>
    have hWord := hSpecifiers u (List.mem_of_getLast? hLast)
    rw [Token.isOneOf, Bool.and_eq_true, beq_iff_eq] at hWord
    exact Token.isPunctuation_of_kind (by rw [hWord.1]; decide) text

theorem readMethod_start (member : Member)
    (hSpecifiers : ∀ u ∈ specifiers, u.isOneOf Words.specifying = true)
    (hBefore : before.map Token.word = start.before) (hName : name.word = start.name.word)
    (hFits : start.Fits member.className) {list trailing rest : List Token} {close : Token}
    (hClose : Token.closeGroup? "(" rest = some (list, close, trailing)) :
    ∃ m, readMethod (specifiers ++ before) name rest (some member) = .method m ∧
      m.name = start.name.text ∧ m.params = (splitAtCommas list).filterMap readParam? := by
  have hText : name.text = start.name.text := congrArg Word.text hName
  cases start with
  | regular result n =>
    have h : Declares before name result n := ⟨hBefore, hName⟩
    have hLast (text : String) (hNone : isForeign text = true ∨ text = "::") :
        (specifiers ++ before).getLast?.any (·.isPunctuation text) = false := by
      rw [List.getLast?_append_of_ne_nil _ h.type_ne_nil]
      exact h.getLast?_type text hNone
    have hNonempty : before.isEmpty = false := by simpa using h.type_ne_nil
    obtain ⟨type, hType⟩ := returnType?_of_result h.type_ne_nil trailing
    unfold readMethod
    simp only [hLast "~" (.inl (by decide)), hLast "::" (.inr rfl), Bool.false_eq_true, if_false, hClose,
      filter_specifiers hSpecifiers, h.typelike_type.filter_result, hNonempty, Bool.and_false, hType]
    exact ⟨_, rfl, hText, rfl⟩
  | constructor n =>
    obtain rfl := List.map_eq_nil_iff.mp hBefore
    have hResult :
        (specifiers.filter fun u => !(u.isOneOf Words.specifying || u.kind == .string)) = [] := by
      simpa using filter_specifiers hSpecifiers []
    have hClass : (member.className == name.text) = true := by
      rw [hText, beq_iff_eq]
      exact hFits.symm
    rw [List.append_nil]
    unfold readMethod
    simp only [getLast?_specifiers hSpecifiers, Bool.false_eq_true, if_false, hClose, hResult,
      Option.any_some, hClass, List.isEmpty_nil, Bool.and_self, if_true]
    exact ⟨_, rfl, hText, rfl⟩
  | destructor n =>
    obtain ⟨tilde, rfl, hTilde⟩ := List.map_eq_singleton_iff.mp hBefore
    have hFirst : (specifiers ++ [tilde]).getLast?.any (·.isPunctuation "~") = true := by
      rw [List.getLast?_concat]
      exact Token.isPunctuation_iff.mpr hTilde
    unfold readMethod
    simp only [hFirst, if_true, List.dropLast_concat, getLast?_specifiers hSpecifiers,
      Bool.false_eq_true, if_false, hClose]
    exact ⟨_, rfl, hText, rfl⟩

end Declarator

namespace Grammar.MethodHead

variable {className : String} (m : MethodHead className)

theorem nested_list : Nested m.list :=
  nested_of_words (nested_givenWords m.params) m.isList

theorem startWords : (m.before ++ [m.name]).map Token.word = m.start.words := by
  rw [List.map_append, m.isBefore, List.map_singleton, m.isName]
  rfl

theorem start_notMem (texts : List String) (hForeign : texts.all isForeign = true)
    (hTilde : "~" ∉ texts) : ∀ t ∈ m.before ++ [m.name], t.text ∉ texts := by
  intro t ht
  exact m.start.text_notMem hForeign hTilde _ (Token.word_mem m.startWords ht)

theorem isHead : Declaration.Head m.stop none false false m.tokens := by
  have hStart : ∀ previous? params, Declaration.Head m.stop previous? params false
      (m.before ++ m.name :: m.opener :: (m.list ++ m.close :: m.trailing)) := by
    intro previous? params
    have hPlain : ∀ t ∈ m.before ++ [m.name], t.isBracket = false ∧
        t.isPunctuation ";" = false ∧ t.isPunctuation ":" = false := by
      intro t ht
      have hNone := m.start_notMem [";", ":"] (by decide) (by decide) t ht
      refine ⟨isBracket_of_text (m.start_notMem _ (by decide) (by decide) t ht), ?_, ?_⟩
      · exact Token.isPunctuation_of_ne fun hEq => hNone (by simp [hEq])
      · exact Token.isPunctuation_of_ne fun hEq => hNone (by simp [hEq])
    have hRest (previous? : Option Token) : Declaration.Head m.stop previous? params false
        (m.opener :: (m.list ++ m.close :: m.trailing)) := by
      have hNone : Declaration.initializes (some m.close) false =
          Declaration.initializes none false := by
        simp [Declaration.initializes, Token.isPunctuation_of_word m.closes]
      refine head_marked (by decide) m.opens m.closes m.nested_list (by simp) ?_
      rw [Token.isPunctuation_iff.mpr m.opens, Bool.or_true]
      exact m.isTrailing.of_previous hNone
    have hHead := Declaration.Head.append_plain hPlain hRest previous?
    rwa [List.append_assoc, List.singleton_append] at hHead
  exact m.isPrelude.head hStart none false

theorem clean_tokens :
    Declarator.clean m.tokens = m.specifiers ++ (m.before ++ m.name :: m.opener ::
      (m.list ++ m.close :: Declarator.clean m.trailing)) := by
  have hFront : Unattributed ((m.before ++ m.name :: m.opener :: m.list).map Token.word) := by
    have hWords : (m.before ++ m.name :: m.opener :: m.list).map Token.word =
        (m.start.words ++ [mark "("]) ++ givenWords m.params := by
      rw [← m.startWords, givenWords, ← m.isList, ← m.opens]
      simp
    rw [hWords]
    refine .plain_append _ (List.forall_mem_append.mpr ⟨?_, by decide⟩) (unattributed_givenWords _)
    exact m.start.text_notMem foreign_unattributed (by decide)
  have hClose : m.close.isPunctuation "[" = false := Token.isPunctuation_of_word m.closes "["
  have hWord : m.close.isOneOf Words.attributes = false := by
    apply Token.isOneOf_of_notMem
    rw [show m.close.text = ")" from congrArg Word.text m.closes]
    decide
  have hCut : m.before ++ m.name :: m.opener :: (m.list ++ m.close :: m.trailing) =
      (m.before ++ m.name :: m.opener :: m.list) ++ m.close :: m.trailing := by simp
  rw [tokens, m.isPrelude.clean, hCut, Declarator.clean_unattributed hFront (by simpa using hClose),
    Declarator.clean_cons hWord (by rw [hClose]; nofun)]
  simp

theorem noOperator_clean :
    ((Declarator.clean m.tokens).any fun t => t.isIdentifier "operator") = false := by
  rw [m.clean_tokens, List.any_eq_false]
  intro t ht hOperator
  have hWord : t.word = word "operator" := by
    rw [Token.isIdentifier, Bool.and_eq_true, beq_iff_eq, beq_iff_eq] at hOperator
    rw [Token.word, hOperator.1, hOperator.2]
    rfl
  have hText : t.text = "operator" := congrArg Word.text hWord
  have ht : t ∈ m.specifiers ∨ t ∈ m.before ++ [m.name] ∨ t = m.opener ∨ t ∈ m.list ∨ t = m.close ∨
      t ∈ Declarator.clean m.trailing := by
    simpa [or_assoc] using ht
  rcases ht with hSpecifier | hStart | rfl | hList | rfl | hTrailing
  · have hOne := m.isPrelude.specifiers t hSpecifier
    rw [Token.isOneOf_of_notMem (by rw [hText]; decide)] at hOne
    cases hOne
  · exact m.start_notMem ["operator"] (by decide) (by decide) t hStart (by simp [hText])
  · rw [m.opens] at hWord
    exact absurd hWord (by decide)
  · refine noOperator_givenWords m.params ?_
    rw [← hWord, givenWords]
    exact Token.word_mem m.isList hList
  · rw [m.closes] at hWord
    exact absurd hWord (by decide)
  · have hNone := m.noOperator t ((Declarator.clean_sublist _).subset hTrailing)
    rw [hOperator] at hNone
    cases hNone

theorem splitAtParams_tokens : Declarator.splitAtParams 0 [] (Declarator.clean m.tokens) =
    some (m.specifiers ++ (m.before ++ [m.name]), m.list ++ m.close :: Declarator.clean m.trailing) := by
  have hAngled : Angled true ((m.specifiers ++ (m.before ++ [m.name])).map Token.word) := by
    rw [List.map_append, m.startWords]
    refine Angled.append (.of_plain fun w hw => ?_) m.start.angled
    obtain ⟨t, ht, rfl⟩ := List.mem_map.mp hw
    have hOne := m.isPrelude.specifiers t ht
    rw [Token.isOneOf, Bool.and_eq_true, List.contains_iff_mem] at hOne
    have hNone : ∀ text ∈ Words.specifying, text ∉ delimiters := by decide
    exact hNone _ hOne.2
  have hPass := Declarator.passesAngled_splitAtParams.pass hAngled rfl 0 (fun _ => .inl rfl) []
    (m.opener :: (m.list ++ m.close :: Declarator.clean m.trailing))
  have hCut : m.specifiers ++ (m.before ++ m.name :: m.opener ::
      (m.list ++ m.close :: Declarator.clean m.trailing)) =
      (m.specifiers ++ (m.before ++ [m.name])) ++ m.opener ::
        (m.list ++ m.close :: Declarator.clean m.trailing) := by simp
  rw [m.clean_tokens, hCut, hPass, Declarator.splitAtParams]
  simp [Token.isPunctuation_of_word m.opens]

theorem head?_list (rest : List Token) :
    (m.list ++ m.close :: rest).head?.any (·.isPunctuation "*") = false := by
  rw [Bool.eq_false_iff]
  intro hFirst
  cases hList : m.list with
  | nil =>
    rw [hList, List.nil_append, List.head?_cons, Option.any_some, Token.isPunctuation_of_word m.closes]
      at hFirst
    exact absurd hFirst (by decide)
  | cons t list =>
    rw [hList, List.cons_append, List.head?_cons, Option.any_some, Token.isPunctuation_iff] at hFirst
    refine head?_givenWords m.params ?_
    rw [givenWords, ← m.isList, hList, List.map_cons, List.head?_cons, hFirst]

theorem classify_tokens (access : Access) :
    ∃ read, Declarator.classify (Declarator.clean m.tokens) (some ⟨className, access⟩) =
        .method read ∧
      read.name = m.start.name.text ∧
      read.params = (Token.splitAtCommas m.list).filterMap Declarator.readParam? := by
  have hClose := Token.closeGroup?_nested m.nested_list (by decide : "(" ∈ brackets)
    (Token.isPunctuation_iff.mpr m.closes) (Declarator.clean m.trailing)
  obtain ⟨read, hRead, hName, hParams⟩ := Declarator.readMethod_start ⟨className, access⟩
    m.isPrelude.specifiers m.isBefore m.isName m.fits hClose
  have hKind : m.name.kind = .identifier := congrArg Word.kind m.isName
  have hOperatorLike : Words.operatorLike.contains m.name.text = false := by
    simpa using Declarator.name_notMem_of_word m.isName Words.operatorLike (by decide)
  refine ⟨read, ?_, hName, hParams⟩
  rw [Declarator.classify, m.noOperator_clean, if_neg Bool.false_ne_true, m.splitAtParams_tokens]
  simp only [m.head?_list, ← List.append_assoc, List.getLast?_concat, List.dropLast_concat, hKind,
    hOperatorLike, hRead]
  rfl

theorem exists_first : ∃ t rest, m.tokens = t :: rest ∧ t.text ∉ Declaration.leadingWords ∧
    t.text ∉ ["\x7d", ";", "public", "protected", "private"] := by
  have hStart : ∃ t rest, m.before ++ m.name :: m.opener :: (m.list ++ m.close :: m.trailing) = t :: rest ∧
      t ∈ m.before ++ [m.name] := by
    cases hBefore : m.before with
    | nil => exact ⟨m.name, _, rfl, by simp⟩
    | cons t before => exact ⟨t, _, rfl, by simp⟩
  obtain ⟨t, rest, hCons, ht⟩ := hStart
  have hFirst := m.start_notMem _ Declaration.foreign_leadingWords (by decide) t ht
  have hFirst' := m.start_notMem ["\x7d", ";", "public", "protected", "private"] (by decide)
    (by decide) t ht
  have hPrelude := m.isPrelude
  rw [tokens, hCons]
  generalize m.lead = lead at hPrelude ⊢
  generalize m.specifiers = specifiers at hPrelude
  cases hPrelude with
  | nil => exact ⟨t, rest, rfl, hFirst, hFirst'⟩
  | @specifier u _ _ _ hText hFriend _ =>
    have hNone : ∀ text ∈ Words.specifying, text ≠ "friend" → text ∉ Declaration.leadingWords ∧
        text ∉ ["\x7d", ";", "public", "protected", "private"] := by decide
    exact ⟨u, _, rfl, hNone u.text hText hFriend⟩
  | @worded u _ _ _ _ _ hWord _ _ _ _ =>
    rw [Token.isOneOf, Bool.and_eq_true, List.contains_iff_mem] at hWord
    have hNone : ∀ text ∈ Words.attributes, text ∉ Declaration.leadingWords ∧
        text ∉ ["\x7d", ";", "public", "protected", "private"] := by decide
    exact ⟨u, _, rfl, hNone u.text hWord.2⟩
  | @bracketed u _ _ _ _ _ _ hOpen _ _ _ _ _ =>
    refine ⟨u, _, rfl, ?_⟩
    rw [show u.text = "[" from congrArg Word.text hOpen]
    decide

end Grammar.MethodHead

namespace Declaration

open Declarator (Declared Member)

theorem readDeclaration_ends {head after left : List Token} {stop : Token}
    (h : Head stop none false false head) (hEnds : Ending stop after left) {member? : Option Member}
    {m : Method} (hDeclared : Declarator.classify (Declarator.clean head) member? = .method m) :
    ∃ body?, readDeclaration member? (head ++ after) = .ok ⟨.method { m with body? := body? }, left⟩ := by
  have hSplit := splitDeclaration_head h
  cases hEnds with
  | semicolon hStop =>
    refine ⟨m.body?, ?_⟩
    rw [readDeclaration_eq_ok_iff.mpr (.semicolon (hSplit _) (Token.isPunctuation_iff.mpr hStop)),
      hDeclared]
  | @body close inside rest hStop hClose hInside =>
    have hOpen := Token.isPunctuation_iff.mpr hStop
    have hGroup := closeGroup_nested hInside hOpen (Token.isPunctuation_iff.mpr hClose) rest
    refine ⟨some ⟨stop.span, close.span⟩, ?_⟩
    rw [readDeclaration_eq_ok_iff.mpr (.body (hSplit _) hOpen hGroup), hDeclared]
    rfl

theorem readMembers_given {className : String} (m : MethodHead className) {after left : List Token}
    (hEnds : Ending m.stop after left) (access : Access) :
    ∃ read line, read.name = m.start.name.text ∧
      read.params = (Token.splitAtCommas m.list).filterMap Declarator.readParam? ∧
      ∀ (steps : Nat) (scope : Scope) (opener : Token) (members : Members) (d : Declarations),
        readMembers (steps + 1) scope className opener access members d (m.tokens ++ after) =
          readMembers steps scope className opener access (members.add line (.method read)) d left := by
  obtain ⟨declared, hDeclared, hName, hParams⟩ := m.classify_tokens access
  obtain ⟨body?, hRead⟩ := readDeclaration_ends m.isHead hEnds hDeclared
  obtain ⟨t, rest, hTokens, hLeading, hOther⟩ := m.exists_first
  have hText : ∀ text ∈ ["\x7d", ";", "public", "protected", "private"], t.text ≠ text := by
    rintro text hMem rfl
    exact hOther hMem
  have hLabel (ts : List Token) : accessLabel? t ts = none := by
    simp (disch := decide) [accessLabel?, hText]
  refine ⟨{ declared with body? := body? }, t.line, hName, hParams, ?_⟩
  intro steps scope opener members d
  rw [hTokens, List.cons_append] at hRead ⊢
  exact readMembers_next (Token.isPunctuation_of_ne (hText _ (by simp)))
    (Token.isPunctuation_of_ne (hText _ (by simp))) (hLabel _) (readMember_plain hLeading hRead)

theorem readParam?_given {p : GivenSyntax} {part : List Token} (hWords : part.map Token.word = p.words) :
    Declarator.readParam? part = some p.denotes := by
  obtain ⟨front, rest, rfl, hFront, hRest⟩ := List.map_eq_append_iff.mp hWords
  obtain ⟨type, name, rfl, h⟩ := Declarator.Declares.exists_of_words hFront
  have hEquals : ∀ u us, rest = u :: us → u.word = mark "=" := by
    rintro u us rfl
    cases hDefault : p.default? with
    | none =>
      rw [hDefault] at hRest
      cases hRest
    | some e =>
      rw [hDefault] at hRest
      exact (List.cons.inj hRest).1
  have hSome : (!rest.isEmpty) = p.default?.isSome := by
    rw [← List.isEmpty_map (f := Token.word), hRest]
    cases p.default? <;> rfl
  rw [List.append_assoc, List.singleton_append, h.readParam?_default hEquals, hSome]
  rfl

theorem readParams_given {ps : List GivenSyntax} (h : ToldApart ps) {list : List Token}
    (hWords : list.map Token.word = separated (ps.map GivenSyntax.words)) :
    (Token.splitAtCommas list).filterMap Declarator.readParam? = ps.map GivenSyntax.denotes := by
  by_cases hNone : ps = []
  · subst hNone
    obtain rfl := List.map_eq_nil_iff.mp hWords
    rfl
  · have hParts := Token.splitAtCommas_separable ((separable_iff ps).mpr h) (by simpa using hNone) hWords
    exact TypeExpr.filterMap_eq_of_words hParts fun p _ part hPart => readParam?_given hPart

/-- A method in a class is read with the parts between commas as its parameters. These are the
written parameters just if they are told apart, and then names, types and defaults are as written. -/
theorem params_with_defaults_split_iff {className : String} (m : MethodHead className)
    {after left : List Token} (hEnds : Ending m.stop after left) (access : Access) :
    ∃ read line, read.name = m.start.name.text ∧
      read.params = (Token.splitAtCommas m.list).filterMap Declarator.readParam? ∧
      (∀ (steps : Nat) (scope : Scope) (opener : Token) (members : Members) (d : Declarations),
        readMembers (steps + 1) scope className opener access members d (m.tokens ++ after) =
          readMembers steps scope className opener access (members.add line (.method read)) d left) ∧
      (m.params ≠ [] → ((Token.splitAtCommas m.list).map (·.map Token.word) =
        m.params.map GivenSyntax.words ↔ ToldApart m.params)) ∧
      (ToldApart m.params → read.params = m.params.map GivenSyntax.denotes) := by
  obtain ⟨read, line, hName, hParams, hRead⟩ := readMembers_given m hEnds access
  refine ⟨read, line, hName, hParams, hRead, fun hSome => ?_, fun hApart => ?_⟩
  · rw [Token.splitAtCommas_eq_iff (by simpa using hSome) m.isList, separable_iff]
  · rw [hParams, readParams_given hApart m.isList]

theorem params_of_compared_defaults :
    ∃ m : MethodHead "S", m.tokens.map (·.text) = ["virtual", "void", "f", "(", "int", "a", "=", "(", "x",
        "<", "y", ")", ">", "z", ",", "V", "<", "int", ">", "b", "=", "g", "(", "1", ",", "2", ")", ")",
        "const"] ∧
      Ending m.stop [m.stop] [] ∧ ToldApart m.params ∧
      ∃ read line, read.params.map (fun p => (p.name?, p.type.spelling, p.hasDefault)) =
          [(some "a", "int", true), (some "b", "V<int>", true)] ∧
        ∀ (steps : Nat) (scope : Scope) (opener : Token) (members : Members) (d : Declarations),
          readMembers (steps + 1) scope "S" opener .isPublic members d (m.tokens ++ [m.stop]) =
            readMembers steps scope "S" opener .isPublic (members.add line (.method read)) d [] := by
  let int : TypeSyntax := .mk false (.builtin ⟨"int", by decide⟩) 0 false
  let compared : ExpressionSyntax :=
    ⟨[mark "(", word "x", mark "<", word "y", mark ")", mark ">", word "z"],
      .group (by decide) rfl rfl (.plain rfl (.plain rfl (.plain rfl .nil)))
        (.plain rfl (.plain rfl .nil)), ⟨by decide, by decide⟩, by decide⟩
  let called : ExpressionSyntax :=
    ⟨[word "g", mark "(", ⟨.number, "1"⟩, mark ",", ⟨.number, "2"⟩, mark ")"],
      .plain rfl (.group (by decide) rfl rfl (.plain rfl (.plain rfl (.plain rfl .nil))) .nil),
      ⟨by decide, by decide⟩, by decide⟩
  let params : List GivenSyntax :=
    [⟨⟨int, ⟨"a", by decide⟩⟩, some compared⟩,
      ⟨⟨.mk false (.applied ⟨⟨"V", by decide⟩, []⟩ [int]) 0 false, ⟨"b", by decide⟩⟩, some called⟩]
  let m : MethodHead "S" := {
    start := .regular (.mk false (.builtin ⟨"void", by decide⟩) 0 false) ⟨"f", by decide⟩
    params := params
    lead := [bare (word "virtual")]
    specifiers := [bare (word "virtual")]
    before := [bare (word "void")]
    name := bare (word "f")
    opener := bare (mark "(")
    list := (separated (params.map GivenSyntax.words)).map bare
    close := bare (mark ")")
    trailing := [bare (word "const")]
    stop := bare (mark ";")
    fits := trivial
    isPrelude := .specifier rfl (by decide) (by decide) .nil
    isBefore := rfl
    isName := rfl
    opens := rfl
    isList := rfl
    closes := rfl
    isTrailing := .plain rfl rfl (.done (.inl rfl))
    noOperator := by decide }
  have hEnds : Ending m.stop [m.stop] [] := .semicolon rfl
  have hApart : ToldApart m.params := ⟨by decide, by decide⟩
  obtain ⟨read, line, -, -, hRead, -, hParams⟩ := params_with_defaults_split_iff m hEnds .isPublic
  refine ⟨m, by decide, hEnds, hApart, read, line, ?_, hRead⟩
  rw [hParams hApart]
  decide

/-- A comparison in a default hides the comma after it, and the second parameter is lost. -/
theorem param_lost_to_comparison :
    (do
      let ts ← (Token.lex 0 "t.cpp" "struct S \x7b void f(int a = x < y, int b); \x7d;").toOption
      let d ← (read [] ts).toOption
      return d.classes.map fun c => c.methods.map fun m => m.params.map (·.name?)) =
      some [[[some "a"]]] := by
  decide +kernel

end Declaration

end SkeletonWeave
