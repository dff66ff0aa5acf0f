import SkeletonWeave.Proofs.Declaration.Printing
import SkeletonWeave.Proofs.Declaration.Written

/-!
# Declarations that are written are read

Members are read one after the other with the access in force, classes inside
classes and namespaces inside namespaces. What is read of a printed list of
declarations is what the list declares.
-/

set_option autoImplicit false

namespace SkeletonWeave

open Grammar
open Declarator (Declares Member)

/-- Whether a later state of reading has some classes more, apart from places, and nothing else. -/
structure Declarations.Gains (before after : Declarations) (classes : List Class) : Prop where
  classes : after.classes.map Class.unplaced = before.classes.map Class.unplaced ++ classes
  typedefs : after.typedefs = before.typedefs
  functions : after.functions = before.functions

namespace Declarations.Gains

theorem none (d : Declarations) : d.Gains d [] :=
  ⟨by simp, rfl, rfl⟩

theorem trans {first second third : Declarations} {cs cs' : List Class}
    (h : first.Gains second cs) (h' : second.Gains third cs') : first.Gains third (cs ++ cs') where
  classes := by rw [h'.classes, h.classes, List.append_assoc]
  typedefs := h'.typedefs.trans h.typedefs
  functions := h'.functions.trans h.functions

theorem addClass {before after : Declarations} {cs : List Class} (h : before.Gains after cs)
    (c : Class) : before.Gains (after.addClass c) (cs ++ [c.unplaced]) where
  classes := by
    rw [Declarations.addClass, List.map_append, h.classes, List.append_assoc]
    rfl
  typedefs := h.typedefs
  functions := h.functions

end Declarations.Gains

namespace Declaration

/-- Whether a body holds what members declare, after the members before them. -/
structure Body.Holds (body : Body) (before : Members) (d : Declarations) (scope : List Name)
    (access : Access) (ms : List MemberSyntax) : Prop where
  methods : body.members.methods.map Method.unplaced =
    before.methods.map Method.unplaced ++ declaredMethods access ms
  fields : body.members.fields = before.fields ++ declaredFields access ms
  gains : d.Gains body.reached.declarations (memberClasses scope ms)

theorem accessLabel?_eq_none {t : Token} (h : t.text ∉ Words.inheriting) (ts : List Token) :
    accessLabel? t ts = none := by
  have hText : ∀ text ∈ Words.inheriting, t.text ≠ text := by
    rintro text hMem rfl
    exact h hMem
  simp (disch := decide) [accessLabel?, hText]

theorem accessLabel?_words {t colon : Token} {access : Access} (h : t.word = accessWord access)
    (hColon : colon.word = mark ":") (ts : List Token) :
    accessLabel? t (colon :: ts) = some access := by
  have hText : t.text = (accessWord access).text := congrArg Word.text h
  rw [accessLabel?, hText]
  cases access <;> simp [Token.isPunctuation_of_word hColon, accessWord, word]

theorem readMembers_next {steps : Nat} {scope : Scope} {name : String} {opener t : Token}
    {access : Access} {members : Members} {d : Declarations} {rest : List Token}
    {declared : Declarator.Declared} {reached : Reached} (hClose : t.isPunctuation "\x7d" = false)
    (hSemicolon : t.isPunctuation ";" = false) (hLabel : accessLabel? t rest = none)
    (hMember : readMember (bodyReader steps) scope ⟨name, access⟩ d t rest = .ok (declared, reached)) :
    readMembers (steps + 1) scope name opener access members d (t :: rest) =
      readMembers steps scope name opener access (members.add t.line declared)
        reached.declarations reached.rest := by
  rw [readMembers]
  simp only [hClose, hSemicolon, hLabel, Bool.false_eq_true, if_false]
  exact congrArg (· >>= _) hMember

theorem readMembers_step {steps : Nat} {scope : Scope} {name : String} {opener t : Token}
    {access : Access} {members : Members} {d : Declarations} {rest : List Token}
    {declared : Declarator.Declared} {reached : Reached} (hKind : t.kind = .identifier)
    (hLabel : t.text ∉ Words.inheriting)
    (hMember : readMember (bodyReader steps) scope ⟨name, access⟩ d t rest = .ok (declared, reached)) :
    readMembers (steps + 1) scope name opener access members d (t :: rest) =
      readMembers steps scope name opener access (members.add t.line declared)
        reached.declarations reached.rest := by
  have hPunctuation (text : String) : t.isPunctuation text = false :=
    Token.isPunctuation_of_kind (by rw [hKind]; decide) text
  exact readMembers_next (hPunctuation _) (hPunctuation _) (accessLabel?_eq_none hLabel rest) hMember

theorem foreign_leadingWords : leadingWords.all isForeign = true := by decide

theorem readMember_plain {readBody : BodyReader} {scope : Scope} {member : Member}
    {d : Declarations} {t : Token} {ts : List Token} (h : t.text ∉ leadingWords) {item : Item}
    (hRead : readDeclaration (some member) (t :: ts) = .ok item) :
    readMember readBody scope member d t ts = .ok (item.declared, ⟨d, item.rest⟩) := by
  rw [readMember_eq (show Form.plain.Starts passedMembers t.text from h), Form.read, hRead]
  rfl

theorem readMember_typed {readBody : BodyReader} {scope : Scope} {member : Member}
    {d : Declarations} {t : Token} {ts : List Token} (h : IsTypeWord t.word) {item : Item}
    (hRead : readDeclaration (some member) (t :: ts) = .ok item) :
    readMember readBody scope member d t ts = .ok (item.declared, ⟨d, item.rest⟩) :=
  readMember_plain (h.text_notMem foreign_leadingWords) hRead

theorem readMember_class {readBody : BodyReader} {scope : Scope} {member : Member}
    {d : Declarations} {t : Token} {ts : List Token}
    (h : t.text = "class" ∨ t.text = "struct" ∨ t.text = "union") :
    readMember readBody scope member d t ts =
      readClassOrDeclaration readBody scope (some member) d t ts :=
  readMember_eq (show Form.classLike.Starts passedMembers t.text from h) ..

theorem readMembers_typed {steps : Nat} {scope : Scope} {name : String} {opener : Token}
    {access : Access} {members : Members} {d : Declarations} {type more : List Token}
    {t : TypeSyntax} (hWords : type.map Token.word = t.words) {item : Item}
    (hRead : readDeclaration (some ⟨name, access⟩) (type ++ more) = .ok item) :
    ∃ line, readMembers (steps + 1) scope name opener access members d (type ++ more) =
      readMembers steps scope name opener access (members.add line item.declared) d item.rest := by
  obtain ⟨w, ws, hCons, hKind⟩ := t.exists_words_eq_cons
  obtain ⟨first, type, rfl, rfl, -⟩ := List.map_eq_cons_iff.mp (hWords.trans hCons)
  have hFirst : IsTypeWord first.word := t.isTypeWord _ (by rw [hCons]; exact List.mem_cons_self)
  refine ⟨first.line, ?_⟩
  exact readMembers_step hKind (hFirst.text_notMem foreign_inheriting) (readMember_typed hFirst hRead)

section

variable {steps : Nat} {scope : Scope} {name : String} {opener : Token} {access : Access}
  {members : Members} {d : Declarations} {front : List Token}

theorem readMembers_label {later : Access}
    (hWords : front.map Token.word = (MemberSyntax.label later).words) (more : List Token) :
    readMembers (steps + 1) scope name opener access members d (front ++ more) =
      readMembers steps scope name opener later members d more := by
  obtain ⟨t, front, rfl, hLabel, hWords⟩ := List.map_eq_cons_iff.mp hWords
  obtain ⟨colon, rfl, hColon⟩ := List.map_eq_singleton_iff.mp hWords
  have hPunctuation (text : String) : t.isPunctuation text = false := by
    apply Token.isPunctuation_of_kind
    rw [show t.kind = _ from (congrArg Word.kind hLabel).trans (kind_accessWord later)]
    decide
  rw [List.cons_append, readMembers]
  simp only [hPunctuation, List.cons_append, List.nil_append, accessLabel?_words hLabel hColon,
    Bool.false_eq_true, if_false, List.tail_cons]

theorem readMembers_field {t : TypeSyntax} {n : Name}
    (hWords : front.map Token.word = (MemberSyntax.field t n).words) (more : List Token) :
    ∃ line, readMembers (steps + 1) scope name opener access members d (front ++ more) =
      readMembers steps scope name opener access
        (members.add line (.fields [⟨n.text, t.denotes, access, false⟩])) d more := by
  obtain ⟨type, last, rfl, hType, hLast⟩ := List.map_eq_append_iff.mp hWords
  obtain ⟨field, last, rfl, hName, hLast⟩ := List.map_eq_cons_iff.mp hLast
  obtain ⟨semicolon, rfl, hSemicolon⟩ := List.map_eq_singleton_iff.mp hLast
  rw [List.append_assoc]
  exact readMembers_typed hType (readDeclaration_field ⟨hType, hName⟩ hSemicolon _ more)

theorem readMembers_method {m : MethodSyntax} (hWords : front.map Token.word = m.words)
    {more : List Token} (hNext : more.head?.any (·.isPunctuation ";") = false) :
    ∃ line method, method.unplaced = m.denotes access ∧
      readMembers (steps + 1) scope name opener access members d (front ++ more) =
        readMembers steps scope name opener access (members.add line (.method method)) d more := by
  obtain ⟨method, hRead, hUnplaced⟩ := readDeclaration_method hWords ⟨name, access⟩ hNext
  obtain ⟨type, last, rfl, hType, -⟩ := List.map_eq_append_iff.mp hWords
  rw [List.append_assoc] at hRead ⊢
  obtain ⟨line, hStep⟩ := readMembers_typed hType hRead
  exact ⟨line, method, hUnplaced, hStep⟩

theorem readMembers_definition {keyword : Token} {more rest : List Token} {d' : Declarations}
    (hKind : keyword.kind = .identifier)
    (hKeyword : keyword.text = "class" ∨ keyword.text = "struct" ∨ keyword.text = "union")
    (hRead : readClassOrDeclaration (bodyReader steps) scope (some ⟨name, access⟩) d keyword more =
      .ok (.nothing, ⟨d', rest⟩)) :
    readMembers (steps + 1) scope name opener access members d (keyword :: more) =
      readMembers steps scope name opener access members d' rest := by
  have hLabel : keyword.text ∉ Words.inheriting := by
    rcases hKeyword with hText | hText | hText <;> rw [hText] <;> decide
  rw [← readMember_class hKeyword] at hRead
  exact readMembers_step hKind hLabel hRead

end

theorem exists_first_word (m : MemberSyntax) :
    ∃ w ws, m.words = w :: ws ∧ w.kind = .identifier := by
  cases m with
  | label access => exact ⟨_, _, rfl, kind_accessWord access⟩
  | field type name =>
    obtain ⟨w, ws, hWords, hKind⟩ := type.exists_words_eq_cons
    exact ⟨w, _, by rw [MemberSyntax.words, hWords]; rfl, hKind⟩
  | method m =>
    obtain ⟨w, ws, hWords, hKind⟩ := m.result.exists_words_eq_cons
    exact ⟨w, _, by rw [MemberSyntax.words, MethodSyntax.words, hWords]; rfl, hKind⟩
  | nested head inner => exact ⟨_, _, rfl, by cases head.kind <;> rfl⟩

theorem head?_members {ms : List MemberSyntax} {ts : List Token} {close : Token}
    (hWords : ts.map Token.word = memberWords ms) (hClose : close.word = mark "\x7d")
    (rest : List Token) : (ts ++ close :: rest).head?.any (·.isPunctuation ";") = false := by
  cases ms with
  | nil =>
    obtain rfl := List.map_eq_nil_iff.mp hWords
    exact Token.isPunctuation_of_word hClose ";"
  | cons m ms =>
    obtain ⟨w, ws, hFirst, hKind⟩ := exists_first_word m
    rw [memberWords, hFirst] at hWords
    obtain ⟨t, ts, rfl, rfl, -⟩ := List.map_eq_cons_iff.mp hWords
    apply Token.isPunctuation_of_kind
    rw [show t.kind = .identifier from hKind]
    decide

theorem exists_steps {front ts : List Token} {w : Word} {ws : List Word}
    (hFront : front.map Token.word = w :: ws) {steps : Nat} (hSteps : (front ++ ts).length < steps) :
    ∃ fewer, steps = fewer + 1 ∧ ts.length < fewer := by
  obtain ⟨t, front, rfl, -, -⟩ := List.map_eq_cons_iff.mp hFront
  simp only [List.length_append, List.length_cons] at hSteps
  exact ⟨steps - 1, by omega, by omega⟩

def ReadsBack (ms : List MemberSyntax) : Prop :=
  ∀ (scope : List Name) (name : String) (opener : Token) (access : Access) (members : Members)
    (d : Declarations) (rest : List Token) {steps : Nat} {ts : List Token} {close : Token},
    ts.map Token.word = memberWords ms → ts.length < steps → close.word = mark "\x7d" →
    ∃ body, readMembers steps (scope.map (·.text)) name opener access members d
        (ts ++ close :: rest) = .ok body ∧
      body.reached.rest = rest ∧ body.Holds members d scope access ms

def BodyReader.Reaches (r : BodyReader) (n : Nat) : Prop :=
  ∀ scope name access opener d ts, n ≤ ts.length →
    ∃ steps, n < steps ∧
      r scope name access opener d ts = bodyReader steps scope name access opener d ts

theorem reaches_bodyReader {steps n : Nat} (h : n < steps) : (bodyReader steps).Reaches n := by
  intro scope name access opener d ts _
  exact ⟨steps, h, rfl⟩

theorem reaches_readBody (n : Nat) : readBody.Reaches n := by
  intro scope name access opener d ts hLength
  exact ⟨ts.length + 1, Nat.lt_succ_of_le hLength, rfl⟩

theorem exists_definition {members : List MemberSyntax} (hMembers : ReadsBack members)
    {head : ClassHead} {front : List Token}
    (hWords : front.map Token.word = (ItemSyntax.definition head members).words)
    {readBody : BodyReader} (hReach : ∀ n < front.length, readBody.Reaches n) (scope : List Name)
    (member? : Option Member) (d : Declarations) (rest : List Token) :
    ∃ keyword more d', front = keyword :: more ∧ keyword.kind = .identifier ∧
      (keyword.text = "class" ∨ keyword.text = "struct" ∨ keyword.text = "union") ∧
      readClassOrDeclaration readBody (scope.map (·.text)) member? d keyword (more ++ rest) =
        .ok (.nothing, ⟨d', rest⟩) ∧
      d.Gains d' ((ItemSyntax.definition head members).classes scope) := by
  obtain ⟨front, last, rfl, hHead, hLast⟩ := List.map_eq_append_iff.mp hWords
  obtain ⟨keyword, name, bases, rfl, hHeads⟩ := Heads.exists_of_words hHead
  obtain ⟨brace, last, rfl, hBrace, hLast⟩ := List.map_eq_cons_iff.mp hLast
  obtain ⟨inside, last, rfl, hInside, hLast⟩ := List.map_eq_append_iff.mp hLast
  obtain ⟨shut, last, rfl, hShut, hLast⟩ := List.map_eq_cons_iff.mp hLast
  obtain ⟨semicolon, rfl, hSemicolon⟩ := List.map_eq_singleton_iff.mp hLast
  have hFits : inside.length < (keyword :: name :: bases ++
      brace :: (inside ++ [shut, semicolon])).length := by
    simp only [List.length_append, List.length_cons]
    omega
  -- The reader of the body gets all that follows, not only the tokens of the members.
  have hLength : inside.length ≤ (inside ++ shut :: semicolon :: rest).length := by
    rw [List.length_append]
    omega
  obtain ⟨steps, hSteps, hReader⟩ := hReach _ hFits (scope.map (·.text)) head.name.text
    head.kind.defaultAccess brace d _ hLength
  obtain ⟨body, hBody, hAfter, hHolds⟩ := hMembers (scope ++ [head.name]) head.name.text brace
    head.kind.defaultAccess Members.empty d (semicolon :: rest) hInside hSteps hShut
  rw [List.map_append, List.map_singleton] at hBody
  have hClass := hHeads.readClassOrDeclaration hBrace (hReader.trans hBody) hAfter hSemicolon member?
  have hKind : keyword.kind = .identifier := by
    rw [show keyword.kind = _ from congrArg Word.kind hHeads.keyword]
    cases head.kind <;> rfl
  have hGains := hHolds.gains.addClass
    (classFrom (scope.map (·.text)) keyword (name :: bases) body)
  rw [hHeads.unplaced_classFrom scope hHolds.methods hHolds.fields] at hGains
  refine ⟨keyword, _, _, rfl, hKind, hHeads.text_keyword, ?_, hGains⟩
  simpa using hClass

theorem readsBack (ms : List MemberSyntax) : ReadsBack ms := by
  intro scope name opener access members d rest steps ts close hWords hSteps hClose
  -- Each member takes one step and at least one token, so the steps are enough to the end; what
  -- was read before is arbitrary, since members of a nested class start with none.
  induction ms using memberInduction generalizing scope name opener access members d rest
    steps ts close with
  | nil =>
    obtain rfl := List.map_eq_nil_iff.mp hWords
    obtain ⟨steps, rfl⟩ := Nat.exists_eq_succ_of_ne_zero (Nat.ne_of_gt hSteps)
    refine ⟨⟨members, close, ⟨d, rest⟩⟩, ?_, rfl, ?_⟩
    · rw [List.nil_append, readMembers]
      simp [Token.isPunctuation_of_word hClose]
    · exact ⟨by simp [declaredMethods], by simp [declaredFields], .none d⟩
  | label later ms ih =>
    obtain ⟨front, ts, rfl, hFront, hLater⟩ := List.map_eq_append_iff.mp hWords
    obtain ⟨steps, rfl, hLess⟩ := exists_steps hFront hSteps
    obtain ⟨body, hRead, hRest, hHolds⟩ := ih scope name opener later members d rest hLater hLess hClose
    refine ⟨body, ?_, hRest, hHolds.methods, hHolds.fields, hHolds.gains⟩
    rw [List.append_assoc, readMembers_label hFront, hRead]
  | field t n ms ih =>
    obtain ⟨front, ts, rfl, hFront, hLater⟩ := List.map_eq_append_iff.mp hWords
    obtain ⟨w, ws, hCons, -⟩ := exists_first_word (.field t n)
    obtain ⟨steps, rfl, hLess⟩ := exists_steps (hFront.trans hCons) hSteps
    obtain ⟨line, hStep⟩ := readMembers_field hFront (ts ++ close :: rest)
    let added := members.add line (.fields [⟨n.text, t.denotes, access, false⟩])
    obtain ⟨body, hRead, hRest, hHolds⟩ := ih scope name opener access added d rest hLater hLess hClose
    refine ⟨body, ?_, hRest, hHolds.methods, ?_, hHolds.gains⟩
    · rw [List.append_assoc, hStep, hRead]
    · rw [hHolds.fields]
      simp [added, Members.add, declaredFields]
  | method m ms ih =>
    obtain ⟨front, ts, rfl, hFront, hLater⟩ := List.map_eq_append_iff.mp hWords
    obtain ⟨w, ws, hCons, -⟩ := exists_first_word (.method m)
    obtain ⟨steps, rfl, hLess⟩ := exists_steps (hFront.trans hCons) hSteps
    obtain ⟨line, method, hUnplaced, hStep⟩ :=
      readMembers_method hFront (head?_members hLater hClose rest)
    obtain ⟨body, hRead, hRest, hHolds⟩ :=
      ih scope name opener access (members.add line (.method method)) d rest hLater hLess hClose
    refine ⟨body, ?_, hRest, ?_, hHolds.fields, hHolds.gains⟩
    · rw [List.append_assoc, hStep, hRead]
    · rw [hHolds.methods]
      simp [Members.add, declaredMethods, hUnplaced]
  | nested head inner ms ihInner ih =>
    obtain ⟨front, ts, rfl, hFront, hLater⟩ := List.map_eq_append_iff.mp hWords
    obtain ⟨steps, rfl, hLess⟩ := exists_steps hFront hSteps
    have hReach : ∀ n < front.length, (bodyReader steps).Reaches n := by
      intro n hn
      rw [List.length_append] at hSteps
      exact reaches_bodyReader (by omega)
    obtain ⟨keyword, more, d', rfl, hKind, hKeyword, hClass, hGains⟩ :=
      exists_definition ihInner hFront hReach scope (some ⟨name, access⟩) d (ts ++ close :: rest)
    obtain ⟨body, hRead, hRest, hHolds⟩ :=
      ih scope name opener access members d' rest hLater hLess hClose
    refine ⟨body, ?_, hRest, hHolds.methods, hHolds.fields, hGains.trans hHolds.gains⟩
    rw [List.append_assoc, List.cons_append, readMembers_definition hKind hKeyword hClass, hRead]

theorem readItem_space {readInner : Scope → Token → Declarations → List Token → Outcome Reached}
    {scope : Scope} {d : Declarations} {t name opener : Token} {n : Name}
    (hKeyword : t.word = word "namespace") (hName : name.word = n.word)
    (hOpen : opener.word = mark "\x7b") (after : List Token) :
    readItem readInner scope d t (name :: opener :: after) =
      readInner (scope ++ [n.text]) opener d after := by
  have hText : t.text = "namespace" := congrArg Word.text hKeyword
  have hKind : name.kind = .identifier := congrArg Word.kind hName
  have hIn : inNamespaceName name = true := by
    simp [inNamespaceName, hKind]
  have hOut : inNamespaceName opener = false := by
    have hOther : opener.kind = .punctuation := congrArg Word.kind hOpen
    simp [inNamespaceName, hOther, Token.isPunctuation_of_word hOpen]
  have hTake : (name :: opener :: after).takeWhile inNamespaceName = [name] := by
    rw [List.takeWhile_cons_of_pos hIn, List.takeWhile_cons_of_neg (by simp [hOut])]
  have hDrop : (name :: opener :: after).dropWhile inNamespaceName = opener :: after := by
    rw [List.dropWhile_cons_of_pos hIn, List.dropWhile_cons_of_neg (by simp [hOut])]
  have hNames : spaceNames (name :: opener :: after) = [n.text] := by
    rw [spaceNames, hTake]
    simp [hKind, show name.text = n.text from congrArg Word.text hName]
  rw [readItem_eq (.space hText hDrop (Token.isPunctuation_of_word hOpen _)), hNames]
  rfl

theorem readItem_class {readInner : Scope → Token → Declarations → List Token → Outcome Reached}
    {scope : Scope} {d : Declarations} {t : Token} {ts : List Token}
    (h : t.text = "class" ∨ t.text = "struct" ∨ t.text = "union") {declared : Declarator.Declared}
    {reached : Reached}
    (hRead : readClassOrDeclaration readBody scope none d t ts = .ok (declared, reached)) :
    readItem readInner scope d t ts = .ok reached := by
  have hNot : t.text ∉ ["namespace", "inline", "extern"] := by
    rcases h with h | h | h
    all_goals
      rw [h]
      decide
  have hForm : Form.classLike.Starts passedItems t.text := h
  rw [readItem_eq (.of_starts hForm hNot), ItemForm.read, Form.read, hRead]
  rfl

theorem readScope_step {steps : Nat} {scope : Scope} (opener? : Option Token) {d : Declarations}
    {t : Token} {rest : List Token} {reached : Reached} (hKind : t.kind = .identifier)
    (hItem : readItem (fun scope opener d ts => readScope steps scope (some opener) d ts) scope d t
      rest = .ok reached) :
    readScope (steps + 1) scope opener? d (t :: rest) =
      readScope steps scope opener? reached.declarations reached.rest := by
  have hPunctuation (text : String) : t.isPunctuation text = false :=
    Token.isPunctuation_of_kind (by rw [hKind]; decide) text
  rw [readScope]
  simp only [hPunctuation, Bool.false_eq_true, if_false]
  exact congrArg (· >>= _) hItem

/-- Where a scope ends: at the brace that closes it, or with the tokens if no brace opened it. -/
inductive Ends : Option Token → List Token → List Token → Prop
  | all : Ends none [] []
  | brace {opener close : Token} (hClose : close.word = mark "\x7d") (rest : List Token) :
    Ends (some opener) (close :: rest) rest

theorem readScope_ends {steps : Nat} {scope : Scope} {opener? : Option Token} {d : Declarations}
    {ts rest : List Token} (h : Ends opener? ts rest) :
    readScope (steps + 1) scope opener? d ts = .ok ⟨d, rest⟩ := by
  cases h with
  | all => rfl
  | brace hClose =>
    rw [readScope]
    simp [Token.isPunctuation_of_word hClose]

theorem readScope_words (items : List ItemSyntax) (scope : List Name) (opener? : Option Token)
    (d : Declarations) {steps : Nat} {ts rest after : List Token}
    (hWords : ts.map Token.word = itemWords items) (hSteps : ts.length < steps)
    (hEnds : Ends opener? rest after) :
    ∃ d', readScope steps (scope.map (·.text)) opener? d (ts ++ rest) = .ok ⟨d', after⟩ ∧
      d.Gains d' (itemClasses scope items) := by
  induction items using itemInduction generalizing scope opener? d steps ts rest after with
  | nil =>
    obtain rfl := List.map_eq_nil_iff.mp hWords
    obtain ⟨steps, rfl⟩ := Nat.exists_eq_succ_of_ne_zero (Nat.ne_of_gt hSteps)
    exact ⟨d, readScope_ends hEnds, .none d⟩
  | space n inner items ihInner ih =>
    obtain ⟨front, ts, rfl, hFront, hLater⟩ := List.map_eq_append_iff.mp hWords
    obtain ⟨steps, rfl, hLess⟩ := exists_steps hFront hSteps
    obtain ⟨t, front, rfl, hKeyword, hRest⟩ := List.map_eq_cons_iff.mp hFront
    obtain ⟨name, front, rfl, hName, hRest⟩ := List.map_eq_cons_iff.mp hRest
    obtain ⟨brace, front, rfl, hBrace, hRest⟩ := List.map_eq_cons_iff.mp hRest
    obtain ⟨inside, last, rfl, hInside, hLast⟩ := List.map_eq_append_iff.mp hRest
    obtain ⟨shut, rfl, hShut⟩ := List.map_eq_singleton_iff.mp hLast
    have hFits : inside.length < steps := by
      simp only [List.length_append, List.length_cons] at hSteps
      omega
    obtain ⟨d', hInner, hGains⟩ :=
      ihInner (scope ++ [n]) (some brace) d hInside hFits (.brace hShut (ts ++ rest))
    obtain ⟨d'', hRead, hGains'⟩ := ih scope opener? d' hLater hLess hEnds
    refine ⟨d'', ?_, hGains.trans hGains'⟩
    have hItem : readItem (fun scope opener d ts => readScope steps scope (some opener) d ts)
        (scope.map (·.text)) d t (name :: brace :: (inside ++ shut :: (ts ++ rest))) =
        .ok ⟨d', ts ++ rest⟩ := by
      rw [List.map_append, List.map_singleton] at hInner
      rw [readItem_space hKeyword hName hBrace, hInner]
    have hStep := readScope_step opener? (congrArg Word.kind hKeyword) hItem
    simp only [List.append_assoc, List.cons_append, List.nil_append]
    rw [hStep, hRead]
  | definition head members items ih =>
    obtain ⟨front, ts, rfl, hFront, hLater⟩ := List.map_eq_append_iff.mp hWords
    obtain ⟨steps, rfl, hLess⟩ := exists_steps hFront hSteps
    obtain ⟨keyword, more, d', rfl, hKind, hKeyword, hClass, hGains⟩ := exists_definition
      (readsBack members) hFront (fun n _ => reaches_readBody n) scope none d (ts ++ rest)
    obtain ⟨d'', hRead, hGains'⟩ := ih scope opener? d' hLater hLess hEnds
    refine ⟨d'', ?_, hGains.trans hGains'⟩
    rw [List.append_assoc, List.cons_append, readScope_step opener? hKind (readItem_class hKeyword hClass), hRead]

/-- What is read of printed declarations is what they declare: their classes, each after the
classes inside it, and nothing else. -/
theorem exists_read_print (items : List ItemSyntax) (file : Nat) (name : String)
    (files : List Source.File) :
    ∃ ts d, Token.lex file name (print items) = .ok ts ∧ read files ts = .ok d ∧
      d.classes.map Class.unplaced = itemClasses [] items ∧ d.typedefs = [] ∧ d.functions = [] := by
  obtain ⟨ts, hLex, hWords⟩ := exists_lex_print items file name
  obtain ⟨d, hScope, hGains⟩ := readScope_words items [] none .empty hWords
    (Nat.lt_succ_self ts.length) .all
  rw [List.append_nil] at hScope
  refine ⟨ts, d, hLex, ?_, hGains.classes, hGains.typedefs, hGains.functions⟩
  rw [read, show ([] : Scope) = ([] : List Name).map (·.text) from rfl, hScope]

end Declaration

end SkeletonWeave
