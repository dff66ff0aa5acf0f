import SkeletonWeave.Proofs.Declaration.Declarators
import SkeletonWeave.Proofs.Declaration.Forms

/-!
# Single declarations as they are written

A field ends at its semicolon, a method at its semicolon or with the braces of
its body, and a class definition goes from its keyword to the brace of its body.
-/

set_option autoImplicit false

namespace SkeletonWeave.Declaration

open Grammar
open Declarator (Declared Declares Member methodAt)

/-- The texts that end a declaration or open a group in it, and the one that makes a brace
initialize something. -/
def stopTexts : List String :=
  [";", "\x7b", "\x7d", "(", "[", "="]

theorem foreign_stopTexts : stopTexts.all isForeign = true := by decide

def Quiet (ts : List Token) : Prop :=
  ∀ t ∈ ts, t.text ∉ stopTexts

theorem Quiet.isPunctuation {ts : List Token} (h : Quiet ts) {t : Token} (ht : t ∈ ts) :
    ∀ text ∈ stopTexts, t.isPunctuation text = false := by
  intro text hText
  apply Token.isPunctuation_of_ne
  rintro rfl
  exact h t ht hText

theorem Quiet.of_typelike {ts : List Token} (h : Typelike ts) : Quiet ts := by
  intro t ht
  exact (h t ht).text_notMem foreign_stopTexts

namespace Extent

theorem split_quiet {e : Extent} (hGroup : e.group? = none) (hParams : e.seenParams = false)
    {ts : List Token} (h : Quiet ts) (rest : List Token) :
    e.split (ts ++ rest) = { e with passed := ts.reverse ++ e.passed }.split rest := by
  induction ts generalizing e with
  | nil => rfl
  | cons t ts ih =>
    have hNone := h.isPunctuation List.mem_cons_self
    have hLater : Quiet ts := fun u hu => h u (List.mem_cons_of_mem _ hu)
    have hEnds : e.endsAt t = false := by
      simp (disch := decide) [endsAt, hNone]
    have hPass : e.passOutside t = e.pass t := by
      simp (disch := decide) [passOutside, hNone, hParams, pass]
    rw [List.cons_append, split]
    simp only [hGroup, hEnds, hPass, Bool.false_eq_true, if_false]
    rw [ih (e := e.pass t) hGroup hParams hLater]
    simp [pass, hGroup]

theorem split_inside {e : Extent} {opener : Token} (hOpen : opener.word = mark "(")
    (hGroup : e.group? = some ⟨opener, 0⟩) {inside : List Token} (h : Typelike inside) {close : Token}
    (hClose : close.word = mark ")") (rest : List Token) :
    e.split (inside ++ close :: rest) =
      { e with passed := close :: (inside.reverse ++ e.passed), group? := none }.split rest := by
  have hText : opener.text = "(" := congrArg Word.text hOpen
  induction inside generalizing e with
  | nil =>
    rw [List.nil_append, split]
    simp [hGroup, passInside, hText, Token.closer, Token.isPunctuation_of_word hClose, pass]
  | cons t ts ih =>
    have hOpening := h.isPunctuation List.mem_cons_self "(" (by decide)
    have hClosing := h.isPunctuation List.mem_cons_self ")" (by decide)
    have hLater : Typelike ts := fun u hu => h u (List.mem_cons_of_mem _ hu)
    have hPass : e.passInside ⟨opener, 0⟩ t = e.pass t := by
      simp [passInside, hText, Token.closer, hOpening, hClosing, pass, hGroup]
    rw [List.cons_append, split]
    simp only [hGroup, hPass]
    rw [ih (e := e.pass t) hGroup hLater]
    simp [pass]

theorem split_parens {e : Extent} (hGroup : e.group? = none) {opener close : Token}
    (hOpen : opener.word = mark "(") (hClose : close.word = mark ")") {inside : List Token}
    (h : Typelike inside) (rest : List Token) :
    e.split (opener :: (inside ++ close :: rest)) =
      { e with passed := close :: (inside.reverse ++ opener :: e.passed), seenParams := true }.split
        rest := by
  have hEnds : e.endsAt opener = false := by
    simp [endsAt, Token.isPunctuation_of_word hOpen]
  have hPass : e.passOutside opener = e.openGroup opener := by
    simp [passOutside, Token.isPunctuation_of_word hOpen]
  rw [split]
  simp only [hGroup, hEnds, hPass, Bool.false_eq_true, if_false]
  rw [split_inside hOpen (e := e.openGroup opener) rfl h hClose]
  simp [openGroup, pass, Token.isPunctuation_of_word hOpen, hGroup]

theorem split_stop {e : Extent} (hGroup : e.group? = none) {stop : Token}
    (hStop : stop.word = mark ";" ∨ stop.word = mark "\x7b" ∧ e.bracesInitialize = false)
    (rest : List Token) : e.split (stop :: rest) = .ok (e.passed.reverse, stop :: rest) := by
  have hEnds : e.endsAt stop = true := by
    rcases hStop with hSemicolon | ⟨hBrace, hBody⟩
    · simp [endsAt, Token.isPunctuation_of_word hSemicolon]
    · simp [endsAt, Token.isPunctuation_of_word hBrace, hBody]
  rw [split]
  simp only [hGroup, hEnds, if_true]

end Extent

theorem splitDeclaration_quiet {ts : List Token} (h : Quiet ts) {stop : Token}
    (hStop : stop.word = mark ";" ∨ stop.word = mark "\x7b") (rest : List Token) :
    splitDeclaration (ts ++ stop :: rest) = .ok (ts, stop :: rest) := by
  -- Nothing that was passed makes a brace start an initializer.
  have hBody : Extent.bracesInitialize { Extent.start with passed := ts.reverse ++ [] } = false := by
    rw [List.append_nil]
    cases hLast : ts.reverse with
    | nil => rfl
    | cons t before =>
      have ht : t ∈ ts := List.mem_reverse.mp (hLast ▸ List.mem_cons_self)
      simp (disch := decide) [Extent.bracesInitialize, Extent.start, h.isPunctuation ht]
  rw [splitDeclaration, Extent.split_quiet rfl rfl h, Extent.split_stop rfl]
  · simp [Extent.start]
  · exact hStop.imp_right fun hBrace => ⟨hBrace, hBody⟩

theorem splitDeclaration_parens {ts inside : List Token} (h : Quiet ts) {opener close stop : Token}
    (hOpen : opener.word = mark "(") (hInside : Typelike inside) (hClose : close.word = mark ")")
    (hStop : stop.word = mark ";" ∨ stop.word = mark "\x7b") (rest : List Token) :
    splitDeclaration (ts ++ opener :: (inside ++ close :: stop :: rest)) =
      .ok (ts ++ opener :: (inside ++ [close]), stop :: rest) := by
  rw [splitDeclaration, Extent.split_quiet rfl rfl h, Extent.split_parens rfl hOpen hClose hInside,
    Extent.split_stop rfl]
  · simp [Extent.start]
  · apply hStop.imp_right
    intro hBrace
    refine ⟨hBrace, ?_⟩
    simp [Extent.bracesInitialize, Extent.start, Token.isPunctuation_of_word hClose]

theorem readDeclaration_field {type : List Token} {name semicolon : Token} {t : TypeSyntax}
    {n : Name} (h : Declares type name t n) (hSemicolon : semicolon.word = mark ";") (member : Member)
    (rest : List Token) :
    readDeclaration (some member) (type ++ name :: semicolon :: rest) =
      .ok ⟨.fields [⟨n.text, t.denotes, member.access, false⟩], rest⟩ := by
  have hSplit := splitDeclaration_quiet (.of_typelike h.typelike) (.inl hSemicolon) rest
  rw [List.append_assoc, List.singleton_append] at hSplit
  rw [readDeclaration_eq_ok_iff.mpr (.semicolon hSplit (Token.isPunctuation_iff.mpr hSemicolon)),
    Declarator.classify_field h member]

theorem closeGroupFrom?_braces {ts : List Token} {depth : Nat}
    (h : bracesPair depth (ts.map Token.word) = true) {close : Token}
    (hClose : close.word = mark "\x7d") (passed rest : List Token) :
    Token.closeGroupFrom? "\x7b" depth passed (ts ++ close :: rest) =
      some (passed.reverse ++ ts, close, rest) := by
  induction ts generalizing depth passed with
  | nil =>
    obtain rfl : depth = 0 := beq_iff_eq.mp h
    simp [Token.closeGroupFrom?, Token.closer, Token.isPunctuation_of_word hClose]
  | cons t ts ih =>
    rw [List.map_cons, bracesPair] at h
    have hCloser : Token.closer "\x7b" = "\x7d" := by decide
    rw [List.cons_append]
    unfold Token.closeGroupFrom?
    rw [hCloser]
    by_cases hOpen : t.word = mark "\x7b"
    · rw [if_pos hOpen] at h
      rw [if_pos (Token.isPunctuation_iff.mpr hOpen), ih h]
      simp
    · rw [if_neg hOpen] at h
      rw [if_neg (mt Token.isPunctuation_iff.mp hOpen)]
      by_cases hShut : t.word = mark "\x7d"
      · rw [if_pos hShut, Bool.and_eq_true, bne_iff_ne] at h
        obtain ⟨depth, rfl⟩ := Nat.exists_eq_succ_of_ne_zero h.1
        have hRest : bracesPair depth (ts.map Token.word) = true := h.2
        rw [if_pos (Token.isPunctuation_iff.mpr hShut)]
        simp only [ih hRest]
        simp
      · rw [if_neg hShut] at h
        rw [if_neg (mt Token.isPunctuation_iff.mp hShut), ih h]
        simp

theorem closeGroup_body {body : BodySyntax} {inside : List Token} {opener close : Token}
    (hOpen : opener.word = mark "\x7b") (hInside : inside.map Token.word = body.words)
    (hClose : close.word = mark "\x7d") (rest : List Token) :
    closeGroup opener (inside ++ close :: rest) = .ok (inside, close, rest) := by
  have hPairs : bracesPair 0 (inside.map Token.word) = true := by
    rw [hInside]
    exact body.bracesPair
  have hGroup := closeGroupFrom?_braces hPairs hClose [] rest
  rw [closeGroup, show opener.text = "\x7b" from congrArg Word.text hOpen, Token.closeGroup?, hGroup]
  rfl

theorem dropSemicolon_eq_self {ts : List Token} (h : ts.head?.any (·.isPunctuation ";") = false) :
    dropSemicolon ts = ts := by
  cases ts with
  | nil => rfl
  | cons t ts =>
    rw [List.head?_cons, Option.any_some] at h
    rw [dropSemicolon, h]
    rfl

theorem readDeclaration_bodiless {m : MethodSyntax} {type params : List Token}
    {name opener close semicolon : Token} (h : Declares type name m.result m.name)
    (hOpen : opener.word = mark "(")
    (hParams : params.map Token.word = separated (m.params.map ParamSyntax.words))
    (hClose : close.word = mark ")") (hSemicolon : semicolon.word = mark ";") (member : Member)
    (rest : List Token) :
    readDeclaration (some member)
        (type ++ name :: opener :: (params ++ close :: semicolon :: rest)) =
      .ok ⟨.method (methodAt m member.access name), rest⟩ := by
  have hSplit := splitDeclaration_parens (.of_typelike h.typelike) hOpen
    (Declarator.typelike_params hParams) hClose (.inl hSemicolon) rest
  rw [List.append_assoc, List.singleton_append, List.append_assoc, List.singleton_append] at hSplit
  rw [readDeclaration_eq_ok_iff.mpr (.semicolon hSplit (Token.isPunctuation_iff.mpr hSemicolon)),
    Declarator.classify_method h hOpen hParams hClose member]

theorem readDeclaration_bodied {m : MethodSyntax} {type params inside : List Token}
    {name opener close brace last : Token} (h : Declares type name m.result m.name)
    (hOpen : opener.word = mark "(")
    (hParams : params.map Token.word = separated (m.params.map ParamSyntax.words))
    (hClose : close.word = mark ")") (hBrace : brace.word = mark "\x7b") {body : BodySyntax}
    (hInside : inside.map Token.word = body.words) (hLast : last.word = mark "\x7d")
    (member : Member) {rest : List Token} (hNext : rest.head?.any (·.isPunctuation ";") = false) :
    readDeclaration (some member)
        (type ++ name :: opener :: (params ++ close :: brace :: (inside ++ last :: rest))) =
      .ok ⟨withBody brace last (.method (methodAt m member.access name)), rest⟩ := by
  have hSplit := splitDeclaration_parens (.of_typelike h.typelike) hOpen
    (Declarator.typelike_params hParams) hClose (.inr hBrace) (inside ++ last :: rest)
  rw [List.append_assoc, List.singleton_append, List.append_assoc, List.singleton_append] at hSplit
  have hBody := closeGroup_body hBrace hInside hLast rest
  rw [readDeclaration_eq_ok_iff.mpr (.body hSplit (Token.isPunctuation_iff.mpr hBrace) hBody),
    Declarator.classify_method h hOpen hParams hClose member, dropSemicolon_eq_self hNext]

theorem readDeclaration_method {m : MethodSyntax} {ts : List Token}
    (hWords : ts.map Token.word = m.words) (member : Member) {rest : List Token}
    (hNext : rest.head?.any (·.isPunctuation ";") = false) :
    ∃ method, readDeclaration (some member) (ts ++ rest) = .ok ⟨.method method, rest⟩ ∧
      method.unplaced = m.denotes member.access := by
  obtain ⟨type, ts, rfl, hType, hWords⟩ := List.map_eq_append_iff.mp hWords
  obtain ⟨name, ts, rfl, hName, hWords⟩ := List.map_eq_cons_iff.mp hWords
  obtain ⟨opener, ts, rfl, hOpen, hWords⟩ := List.map_eq_cons_iff.mp hWords
  obtain ⟨params, ts, rfl, hParams, hWords⟩ := List.map_eq_append_iff.mp hWords
  obtain ⟨close, ts, rfl, hClose, hWords⟩ := List.map_eq_cons_iff.mp hWords
  have h : Declares type name m.result m.name := ⟨hType, hName⟩
  cases hBody : m.body? with
  | none =>
    rw [hBody] at hWords
    obtain ⟨semicolon, rfl, hSemicolon⟩ := List.map_eq_singleton_iff.mp hWords
    refine ⟨methodAt m member.access name, ?_, ?_⟩
    · simpa using readDeclaration_bodiless h hOpen hParams hClose hSemicolon member rest
    · simp [methodAt, Method.unplaced, MethodSyntax.denotes, hBody]
  | some body =>
    rw [hBody] at hWords
    obtain ⟨brace, ts, rfl, hBrace, hWords⟩ := List.map_eq_cons_iff.mp hWords
    obtain ⟨inside, ts, rfl, hInside, hWords⟩ := List.map_eq_append_iff.mp hWords
    obtain ⟨last, rfl, hLast⟩ := List.map_eq_singleton_iff.mp hWords
    refine ⟨{ methodAt m member.access name with body? := some ⟨brace.span, last.span⟩ }, ?_, ?_⟩
    · have hRead := readDeclaration_bodied h hOpen hParams hClose hBrace hInside hLast member hNext
      simp only [List.append_assoc, List.cons_append, List.nil_append]
      exact hRead
    · simp [methodAt, Method.unplaced, MethodSyntax.denotes, hBody]

theorem text_keyword (kind : ClassKind) :
    (keyword kind).text = "class" ∨ (keyword kind).text = "struct" ∨
      (keyword kind).text = "union" := by
  cases kind <;> decide

theorem classKind_keyword {t : Token} {kind : ClassKind} (h : t.word = keyword kind) :
    classKind t = kind := by
  have hText : t.text = (keyword kind).text := congrArg Word.text h
  rw [classKind, hText]
  cases kind <;> rfl

theorem quiet_classHead {head : ClassHead} {ts : List Token} (hWords : ts.map Token.word = head.words) :
    Quiet ts := by
  have hQuiet : ∀ w ∈ head.words, w.text ∉ stopTexts := by
    refine head.forall_mem_words (fun w hWord => hWord.text_notMem foreign_stopTexts) ?_ ?_
      (by decide)
    · cases head.kind <;> decide
    · intro access
      cases access <;> decide
  intro t ht
  exact hQuiet _ (Token.word_mem hWords ht)

theorem qualify_names (scope : List Name) (n : Name) :
    Scope.qualify (scope.map (·.text)) n.text = "::".intercalate ((scope ++ [n]).map (·.text)) := by
  have hAll : (scope.map (·.text) ++ [n.text]).filter (· ≠ "") = (scope ++ [n]).map (·.text) := by
    rw [List.map_append, List.map_singleton]
    apply List.filter_eq_self.mpr
    intro text hText
    have hName : ∃ m : Name, m.text = text := by
      rcases List.mem_append.mp hText with hOuter | hOwn
      · obtain ⟨m, -, hText⟩ := List.mem_map.mp hOuter
        exact ⟨m, hText⟩
      · exact ⟨n, (List.mem_singleton.mp hOwn).symm⟩
    obtain ⟨m, rfl⟩ := hName
    simpa using m.text_ne_empty
  rw [Scope.qualify, hAll]

structure Heads (keyword name : Token) (bases : List Token) (head : ClassHead) : Prop where
  keyword : keyword.word = Grammar.keyword head.kind
  name : name.word = head.name.word
  bases : bases.map Token.word = basesWords head.bases

namespace Heads

variable {keyword name : Token} {bases : List Token} {head : ClassHead}

theorem exists_of_words {ts : List Token} (hWords : ts.map Token.word = head.words) :
    ∃ keyword name bases, ts = keyword :: name :: bases ∧ Heads keyword name bases head := by
  obtain ⟨keyword, ts, rfl, hKeyword, hWords⟩ := List.map_eq_cons_iff.mp hWords
  obtain ⟨name, bases, rfl, hName, hBases⟩ := List.map_eq_cons_iff.mp hWords
  exact ⟨keyword, name, bases, rfl, hKeyword, hName, hBases⟩

theorem words (h : Heads keyword name bases head) :
    (keyword :: name :: bases).map Token.word = head.words := by
  rw [List.map_cons, List.map_cons, h.keyword, h.name, h.bases]
  rfl

theorem text_keyword (h : Heads keyword name bases head) :
    keyword.text = "class" ∨ keyword.text = "struct" ∨ keyword.text = "union" := by
  rw [show keyword.text = _ from congrArg Word.text h.keyword]
  exact Declaration.text_keyword head.kind

theorem readClassOrDeclaration (h : Heads keyword name bases head) {readBody : BodyReader}
    {scope : Scope} {d : Declarations} {opener semicolon : Token} (hOpen : opener.word = mark "\x7b")
    {after rest : List Token} {body : Body}
    (hBody : readBody scope head.name.text head.kind.defaultAccess opener d after = .ok body)
    (hRest : body.reached.rest = semicolon :: rest) (hSemicolon : semicolon.word = mark ";")
    (member? : Option Member) :
    Declaration.readClassOrDeclaration readBody scope member? d keyword
        (name :: (bases ++ opener :: after)) =
      .ok (.nothing,
        ⟨body.reached.declarations.addClass (classFrom scope keyword (name :: bases) body), rest⟩) := by
  have hQuiet : Quiet (keyword :: name :: bases) := quiet_classHead h.words
  have hSplit : splitDeclaration (keyword :: name :: (bases ++ opener :: after)) =
      .ok (keyword :: name :: bases, opener :: after) :=
    splitDeclaration_quiet hQuiet (.inr hOpen) after
  have hPlain : ((keyword :: name :: bases).any fun t =>
      t.isPunctuation "(" || t.isPunctuation "=") = false := by
    rw [List.any_eq_false]
    intro t ht
    simp (disch := decide) [hQuiet.isPunctuation ht]
  have hClass : readClass readBody scope d keyword (name :: bases) opener after =
      .ok ⟨body.reached.declarations.addClass (classFrom scope keyword (name :: bases) body),
        body.reached.rest⟩ := by
    apply readClass_eq_ok_iff.mpr
    refine ⟨body, ?_, rfl⟩
    rw [className_words h.name h.bases, classKind_keyword h.keyword]
    exact hBody
  have hDefines : definesClass (keyword :: name :: bases) (opener :: after) = true := by
    simp [definesClass, Token.isPunctuation_iff.mpr hOpen, hPlain]
  have hLeave : leaveClass body.reached.rest = .ok rest := by
    simp [leaveClass, hRest, Token.isPunctuation_iff.mpr hSemicolon]
  rw [readClassOrDeclaration_of_defines readBody scope member? d hSplit hDefines, List.tail_cons, hClass]
  simp only [bind, Except.bind, hLeave, pure, Except.pure]

theorem unplaced_classFrom (h : Heads keyword name bases head) (scope : List Name) {body : Body}
    {members : List MemberSyntax}
    (hMethods : body.members.methods.map Method.unplaced =
      declaredMethods head.kind.defaultAccess members)
    (hFields : body.members.fields = declaredFields head.kind.defaultAccess members) :
    (classFrom (scope.map (·.text)) keyword (name :: bases) body).unplaced =
      head.denotes scope members := by
  simp only [classFrom, Class.unplaced, ClassHead.denotes, className_words h.name h.bases,
    classKind_keyword h.keyword, baseClasses_words h.name h.bases, qualify_names, hMethods, hFields]

end Heads

end SkeletonWeave.Declaration
