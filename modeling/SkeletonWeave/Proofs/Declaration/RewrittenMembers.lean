import SkeletonWeave.Proofs.Declaration.Acceptance
import SkeletonWeave.Proofs.Declaration.Inserting
import SkeletonWeave.Proofs.Declaration.Progress

/-!
# Members among rewritten tokens

The members of a class are read as they were, with a step of its own for each
function that is inserted between them. By induction on the steps, the methods
of a class without insertions stay the same.
-/

set_option autoImplicit false

namespace SkeletonWeave

open Declarator (Declared Member)
open Token (Alike Nested IsStub unplaced isPunctuation_of_alike text_of_alike)

namespace Declaration

variable {w : Rewrite} {Added : List Token → Prop} {d d' : Declarations}

/-- A token of a stream that stays where it is, with what follows it. A brace may open a body with
another content. -/
structure Kept (w : Rewrite) (Added : List Token → Prop) (t t' : Token) (ts us : List Token) :
    Prop where
  token : t.unplaced = t'.unplaced
  whole : Rewritten w Nested Added (t :: ts) (t' :: us)
  rest : t.isPunctuation "\x7b" = false →
    (∀ b ∈ w.bodies, t.span ≠ b.opening) ∧ Rewritten w Nested Added ts us

theorem inserted_or_kept {t : Token} {ts us : List Token} (h : Rewritten w Nested Added (t :: ts) us) :
    (t = w.keyword ∧ ∃ added vs, Added added ∧ us = added ++ vs ∧ Rewritten w Nested Added (t :: ts) vs) ∨
      ∃ t' us', us = t' :: us' ∧ Kept w Added t t' ts us' := by
  have hWhole := h
  cases h with
  | keep hAlike hNot hRest => exact .inr ⟨_, _, rfl, hAlike, hWhole, fun _ => ⟨hNot, hRest⟩⟩
  | body _ _ _ hOpen _ hAlike =>
    refine .inr ⟨_, _, rfl, hAlike, hWhole, fun hNot => ?_⟩
    rw [hOpen] at hNot
    cases hNot
  | insert hStub hRest => exact .inl ⟨rfl, _, _, hStub, rfl, hRest⟩

theorem not_opens_of_text {t : Token} {text : String} (hText : t.text = text)
    (hWord : text ≠ "\x7b") : t.isPunctuation "\x7b" = false :=
  isPunctuation_of_text hText hWord

theorem taken_of_tail {t : Token} {ts taken own rest : List Token} (hTaken : t :: ts = taken ++ rest)
    (hOwn : ts = own ++ rest) : taken = t :: own := by
  apply List.append_cancel_right
  rw [← hTaken, hOwn]
  rfl

theorem Form.read_rewritten {n : Nat} {readBody readBody' : BodyReader}
    (hBody : BodyReader.Follows w Added n readBody readBody') (hSound : readBody.Sound) {form : Form}
    {passedWords : List String} {t t' : Token} (hForm : form.Starts passedWords t.text) {scope : Scope}
    {member? : Option Member} {ts us taken : List Token} {cs : List Class} {result : Declared × Reached}
    (h : form.read readBody scope member? d t ts = .ok result) (hTaken : t :: ts = taken ++ result.2.rest)
    (hClasses : result.2.declarations.classes = d.classes ++ cs)
    (hCovered : w.Covered taken cs (result.1.methods ++ cs.flatMap (·.methods)))
    (hAdmits : w.Admits Added (t :: ts)) (hKept : Kept w Added t t' ts us) (hLength : us.length ≤ n)
    (hMatches : d.Matches w d') :
    ∃ result', form.read readBody' scope member? d' t' us = .ok result' ∧
      result.1.unplaced = result'.1.unplaced ∧ Rewritten w Nested Added result.2.rest result'.2.rest ∧
      result.2.declarations.Matches w result'.2.declarations := by
  -- what is passed over declares nothing, and is no place of the rewriting
  have hSpares (hNone : result.1 = .nothing) (hSame : result.2.declarations.classes = d.classes) :
      w.Spares taken := by
    obtain rfl := cs_eq_nil hSame hClasses
    rw [hNone] at hCovered
    exact hCovered.spares_of_nil
  cases form with
  | passed =>
    rw [Form.read, bind_eq_ok] at h
    obtain ⟨rest, hSkip, h⟩ := h
    cases h
    obtain ⟨rest', hSkip', hRest⟩ :=
      skip_rewritten hAdmits.stubs hSkip hTaken (hSpares rfl rfl) hKept.whole
    rw [Form.read, hSkip']
    exact ⟨_, rfl, rfl, hRest, hMatches⟩
  | typeAlias =>
    rw [Form.read, bind_eq_ok] at h
    obtain ⟨r, hRead, h⟩ := h
    cases h
    obtain ⟨hNot, hRest⟩ := hKept.rest (not_opens_of_text hForm (by decide))
    obtain ⟨r', hRead', hLater, hMatches'⟩ := readUsing_rewritten hAdmits.stubs hForm hRead hTaken
      hKept.token hNot (hSpares rfl (readUsing_classes hRead)) hRest hMatches
    rw [Form.read, hRead']
    exact ⟨_, rfl, rfl, hLater, hMatches'⟩
  | template =>
    rw [Form.read, bind_eq_ok] at h
    obtain ⟨rest, hSkip, h⟩ := h
    cases h
    obtain ⟨hNot, hRest⟩ := hKept.rest (not_opens_of_text hForm (by decide))
    obtain ⟨own, hOwn⟩ := skipTemplate_suffix hSkip
    obtain rfl : taken = t :: own := taken_of_tail hTaken hOwn.symm
    obtain ⟨rest', hSkip', hLater⟩ := skipTemplate_rewritten hAdmits.stubs hSkip hOwn.symm
      ((hSpares rfl rfl).part (List.subset_cons_self t own)) hRest
    rw [Form.read, hSkip']
    exact ⟨_, rfl, rfl, hLater, hMatches⟩
  | typedef =>
    rw [Form.read, bind_eq_ok] at h
    obtain ⟨r, hRead, h⟩ := h
    cases h
    obtain ⟨hNot, hRest⟩ := hKept.rest (not_opens_of_text hForm (by decide))
    obtain ⟨own, _, hOwn, -⟩ := readTypedef_advances hSound hRead
    obtain rfl : taken = t :: own := taken_of_tail hTaken hOwn
    obtain ⟨r', hRead', hLater, hMatches'⟩ := readTypedef_rewritten hBody hSound hForm hRead hOwn
      hClasses (hCovered.subset (List.subset_cons_self t own)) hAdmits hRest hLength hMatches
    rw [Form.read, hRead']
    exact ⟨_, rfl, rfl, hLater, hMatches'⟩
  | classLike =>
    obtain ⟨hNot, hRest⟩ := hKept.rest (by
      rcases hForm with hWord | hWord | hWord
      all_goals exact not_opens_of_text hWord (by decide))
    exact readClassOrDeclaration_rewritten hBody hSound hForm h hTaken hClasses hCovered hAdmits
      hKept.token hNot hRest hLength hMatches
  | plain =>
    rw [Form.read, bind_eq_ok] at h
    obtain ⟨item, hItem, h⟩ := h
    cases h
    obtain rfl : cs = [] := cs_eq_nil rfl hClasses
    rw [List.flatMap_nil, List.append_nil] at hCovered
    obtain ⟨item', hItem', hLater, hDeclared⟩ :=
      readDeclaration_rewritten hAdmits.stubs hItem hTaken hCovered hAdmits.distinct hKept.whole
    rw [Form.read, hItem']
    exact ⟨_, rfl, hDeclared, hLater, hMatches⟩

theorem readMember_rewritten {n : Nat} {readBody readBody' : BodyReader}
    (hBody : BodyReader.Follows w Added n readBody readBody') (hSound : readBody.Sound)
    {scope : Scope} {member : Member} {t t' : Token} {ts us taken : List Token} {cs : List Class}
    {result : Declared × Reached} (h : readMember readBody scope member d t ts = .ok result)
    (hTaken : t :: ts = taken ++ result.2.rest)
    (hClasses : result.2.declarations.classes = d.classes ++ cs)
    (hCovered : w.Covered taken cs (result.1.methods ++ cs.flatMap (·.methods)))
    (hAdmits : w.Admits Added (t :: ts)) (hKept : Kept w Added t t' ts us) (hLength : us.length ≤ n)
    (hMatches : d.Matches w d') :
    ∃ result', readMember readBody' scope member d' t' us = .ok result' ∧
      result.1.unplaced = result'.1.unplaced ∧ Rewritten w Nested Added result.2.rest result'.2.rest ∧
      result.2.declarations.Matches w result'.2.declarations := by
  obtain ⟨form, hForm⟩ := Form.exists_starts passedMembers t.text
  have hForm' : form.Starts passedMembers t'.text := by
    rw [text_of_alike hKept.token]
    exact hForm
  rw [readMember_eq hForm] at h
  rw [readMember_eq hForm']
  exact Form.read_rewritten hBody hSound hForm h hTaken hClasses hCovered hAdmits hKept hLength hMatches

theorem accessLabel?_rewritten (hAdded : ∀ added, Added added → IsStub added) {t t' : Token}
    {ts us : List Token} (hToken : t.unplaced = t'.unplaced) (hTokens : Rewritten w Nested Added ts us) :
    accessLabel? t' us = accessLabel? t ts := by
  unfold accessLabel?
  rw [text_of_alike hToken]
  cases ts with
  | nil => rw [hTokens.eq_nil]
  | cons u ts =>
    obtain ⟨u', us', rfl, hMark⟩ := hTokens.isPunctuation_head hAdded ":" (by simp)
    rw [List.head?_cons, List.head?_cons, Option.any_some, Option.any_some, hMark]

theorem accessLabel?_stub {first : Token} (hFirst : first.text ∉ Words.unlikeFunction)
    (ts : List Token) : accessLabel? first ts = none := by
  have hNot {word : String} (hWord : word ∈ Words.unlikeFunction) := ne_of_unlike hFirst hWord
  unfold accessLabel?
  rw [if_neg (hNot (by decide)), if_neg (hNot (by decide)), if_neg (hNot (by decide)), ite_self]

theorem startsFresh_of_rewritten (hAdded : ∀ added, Added added → IsStub added) {ts us : List Token}
    (h : Rewritten w Nested Added (w.keyword :: ts) us) : StartsFresh us := by
  intro t vs hCut
  obtain ⟨t', vs', hCut', hMark⟩ := h.isPunctuation_head hAdded ";" (by simp)
  rw [hCut'] at hCut
  obtain ⟨rfl, -⟩ := List.cons.inj hCut
  rw [hMark, w.isPunctuation_keyword]

theorem close_of_readMembers {steps : Nat} {scope : Scope} {name : String} {opener : Token}
    {access : Access} {members : Members} {ts : List Token} {body : Body}
    (h : readMembers steps scope name opener access members d ts = .ok body) :
    body.close.isPunctuation "\x7d" = true := by
  induction steps generalizing access members d ts with
  | zero =>
    unfold readMembers at h
    cases h
  | succ steps ih =>
    cases ts with
    | nil =>
      unfold readMembers at h
      cases h
    | cons t rest =>
      obtain ⟨part, hPart⟩ := BodyPart.exists_starts t rest
      rw [readMembers_eq hPart] at h
      cases part with
      | close =>
        cases h
        exact hPart
      | semicolon => exact ih h
      | label access => exact ih h
      | member =>
        rw [BodyPart.read, bind_eq_ok] at h
        obtain ⟨_, -, h⟩ := h
        exact ih h

theorem methods_add (members : Members) (line : Nat) (declared : Declared) :
    (members.add line declared).methods = members.methods ++ declared.methods := by
  cases declared with
  | nothing => exact (List.append_nil _).symm
  | method m => rfl
  | fields fs => exact (List.append_nil _).symm

theorem braces_methods (declared : Declared) :
    declared.methods.flatMap (·.braces) = declared.braces := by
  cases declared with
  | nothing => rfl
  | method m => exact List.flatMap_singleton ..
  | fields fs => rfl

theorem methods_unplaced (declared : Declared) :
    declared.methods.map Method.signature = declared.unplaced.methods := by
  cases declared <;> rfl

theorem methods_add_alike {members members' : Members} {declared declared' : Declared} (line line' : Nat)
    (hDeclared : declared.unplaced = declared'.unplaced)
    (h : members.methods.map Method.signature = members'.methods.map Method.signature) :
    (members.add line declared).methods.map Method.signature =
      (members'.add line' declared').methods.map Method.signature := by
  rw [methods_add, methods_add, List.map_append, List.map_append, h, methods_unplaced, methods_unplaced,
    hDeclared]

theorem BodyPart.starts_rewritten (hAdded : ∀ added, Added added → IsStub added) {t t' : Token}
    {ts us : List Token} (hKept : Kept w Added t t' ts us) {part : BodyPart} (h : part.Starts t ts) :
    part.Starts t' us := by
  have hLabel : accessLabel? t' us = accessLabel? t ts := by
    by_cases hOpen : t.isPunctuation "\x7b" = true
    · have hText := Token.text_of_isPunctuation hOpen
      have hText' : t'.text = "\x7b" := (text_of_alike hKept.token).trans hText
      simp [accessLabel?, hText, hText']
    · rw [Bool.not_eq_true] at hOpen
      exact accessLabel?_rewritten hAdded hKept.token (hKept.rest hOpen).2
  cases part <;> simpa only [BodyPart.Starts, isPunctuation_of_alike hKept.token, hLabel] using h

/-- A body that was read after some members, among tokens that are rewritten. -/
structure BodyBefore (w : Rewrite) (Added : List Token → Prop) (members : Members)
    (d d' : Declarations) (ts us inside : List Token) (cs : List Class) (body : Body) : Prop where
  cut : ts = inside ++ body.close :: body.reached.rest
  classes : body.reached.declarations.classes = d.classes ++ cs
  covered : ∃ more, body.members.methods = members.methods ++ more ∧
    w.Covered inside cs (more ++ cs.flatMap (·.methods))
  admits : w.Admits Added ts
  tokens : Rewritten w Nested Added ts us
  declarations : d.Matches w d'

/-- What is passed over before the rest of a body is inside the body, and the rest is a body of its
own. -/
theorem BodyBefore.pass {members : Members} (passed : List Token)
    {ts us us' inside inside' : List Token} {cs : List Class} {body : Body}
    (h : BodyBefore w Added members d d' (passed ++ ts) us inside cs body)
    (hInside : ts = inside' ++ body.close :: body.reached.rest)
    (hTokens : Rewritten w Nested Added ts us') :
    inside = passed ++ inside' ∧ BodyBefore w Added members d d' ts us' inside' cs body := by
  obtain rfl : inside = passed ++ inside' := by
    apply List.append_cancel_right
    rw [← h.cut, hInside, List.append_assoc]
  obtain ⟨more, hMore, hCovered⟩ := h.covered
  exact ⟨rfl, hInside, h.classes, ⟨more, hMore, hCovered.subset (List.subset_append_right _ _)⟩,
    h.admits.suffix (List.suffix_append passed ts), hTokens, h.declarations⟩

structure Body.MatchesAfter (w : Rewrite) (Added : List Token → Prop) (inside : List Token)
    (members members' : Members) (body body' : Body) : Prop where
  rest : Rewritten w Nested Added body.reached.rest body'.reached.rest
  declarations : body.reached.declarations.Matches w body'.reached.declarations
  methods : w.keyword ∉ inside →
    members.methods.map Method.signature = members'.methods.map Method.signature →
    body.members.methods.map Method.signature = body'.members.methods.map Method.signature

theorem Body.MatchesAfter.mono {inside inside' : List Token} {members members' : Members}
    {body body' : Body} (h : body.MatchesAfter w Added inside members members' body')
    (hInside : inside ⊆ inside') : body.MatchesAfter w Added inside' members members' body' :=
  ⟨h.rest, h.declarations, fun hNot => h.methods fun hMem => hNot (hInside hMem)⟩

/-- Whether members are read as they were among less than `n` rewritten tokens, in `n` steps. -/
def MembersFollow (w : Rewrite) (Added : List Token → Prop) (n : Nat) : Prop :=
  ∀ (steps : Nat) (scope : Scope) (name : String) (opener opener' : Token) (access : Access)
    (members members' : Members) (d d' : Declarations) (ts us inside : List Token) (cs : List Class)
    (body : Body), readMembers steps scope name opener access members d ts = .ok body →
    BodyBefore w Added members d d' ts us inside cs body → us.length < n →
    ∃ body', readMembers n scope name opener' access members' d' us = .ok body' ∧
      body.MatchesAfter w Added inside members members' body'

theorem MembersFollow.follows {steps n : Nat} (h : MembersFollow w Added n) :
    BodyReader.Follows w Added n (bodyReader steps) (bodyReader n) := by
  intro scope name access opener opener' d d' ts us inside cs body hRead hInside hClasses hCovered
    hAdmits hTokens hLength hMatches
  obtain ⟨body', hRead', hLater⟩ := h steps (scope ++ [name]) name opener opener' access Members.empty
    Members.empty d d' ts us inside cs body hRead
    ⟨hInside, hClasses, ⟨_, rfl, hCovered⟩, hAdmits, hTokens, hMatches⟩ hLength
  exact ⟨body', hRead', hLater.rest, hLater.declarations, fun hNot => hLater.methods hNot rfl⟩

section

variable {steps n : Nat} {scope : Scope} {name : String} {opener : Token} (opener' : Token)
  {access : Access} {members : Members} (members' : Members) {t t' : Token}
  {ts us inside : List Token} {cs : List Class} {body : Body}

/-- A function that is inserted is one more member, of the class that the keyword is in. -/
theorem MembersFollow.inserted (hFollow : MembersFollow w Added n)
    (h : readMembers steps scope name opener access members d (w.keyword :: ts) = .ok body)
    {added : List Token} (hAdd : Added added)
    (hBefore : BodyBefore w Added members d d' (w.keyword :: ts) us inside cs body)
    (hLength : (added ++ us).length ≤ n) :
    ∃ body', readMembers (n + 1) scope name opener' access members' d' (added ++ us) = .ok body' ∧
      body.MatchesAfter w Added inside members members' body' := by
  have hStub := hBefore.admits.stubs added hAdd
  obtain ⟨first, later, rfl, hFirst, hSemicolon, -, hClose⟩ := hStub.exists_first
  have hKeyword : w.keyword ∈ inside := by
    cases inside with
    | nil =>
      obtain ⟨hSame, -⟩ := List.cons.inj hBefore.cut
      have hMark := close_of_readMembers h
      rw [← hSame, w.isPunctuation_keyword] at hMark
      cases hMark
    | cons u inside =>
      obtain ⟨rfl, -⟩ := List.cons.inj hBefore.cut
      exact List.mem_cons_self
  have hPart : BodyPart.member.Starts first (later ++ us) :=
    ⟨hClose, hSemicolon, accessLabel?_stub hFirst _⟩
  obtain ⟨declared, hDeclared⟩ := readMember_stub (bodyReader n) scope ⟨name, access⟩ d' hStub hFirst
    (startsFresh_of_rewritten hBefore.admits.stubs hBefore.tokens)
  have hShorter : us.length < n := by
    simp only [List.length_append, List.length_cons] at hLength
    omega
  obtain ⟨body', hRead', hLater⟩ := hFollow steps scope name opener opener' access members
    (members'.add first.line declared) d d' _ us inside cs body h hBefore hShorter
  rw [List.cons_append, readMembers_eq hPart, BodyPart.read, hDeclared]
  exact ⟨body', hRead', hLater.rest, hLater.declarations, fun hNot => absurd hKeyword hNot⟩

theorem MembersFollow.label {label : Access} (hFollow : MembersFollow w Added n)
    (h : readMembers steps scope name opener label members d ts.tail = .ok body)
    (hLabel : accessLabel? t ts = some label) (hKept : Kept w Added t t' ts us)
    (hBefore : BodyBefore w Added members d d' (t :: ts) (t' :: us) inside cs body)
    (hLength : us.length < n) :
    ∃ body', readMembers n scope name opener' label members' d' us.tail = .ok body' ∧
      body.MatchesAfter w Added inside members members' body' := by
  obtain ⟨hColon, hText⟩ := of_accessLabel? hLabel
  obtain ⟨-, hTokens⟩ := hKept.rest (by
    rw [Bool.eq_false_iff]
    intro hOpen
    rw [Token.text_of_isPunctuation hOpen] at hText
    exact hText (by decide))
  cases ts with
  | nil => cases hColon
  | cons colon ts =>
    rw [List.head?_cons, Option.any_some] at hColon
    obtain ⟨colon', us', rfl, -, hTokens'⟩ := hTokens.exists_keep
      (by
        rintro rfl
        rw [w.isPunctuation_keyword] at hColon
        cases hColon)
      (by simp [Token.isPunctuation_eq_decide hColon])
    obtain ⟨_, -, inside', _, hInside', -⟩ := readMembers_follows h
    obtain ⟨rfl, hRest⟩ := hBefore.pass [t, colon] hInside' hTokens'
    rw [List.length_cons] at hLength
    obtain ⟨body', hRead', hLater⟩ := hFollow steps scope name opener opener' label members members' d d'
      ts us' inside' cs body h hRest (by omega)
    exact ⟨body', hRead', hLater.mono (List.subset_append_right _ _)⟩

theorem MembersFollow.member (hFollow : MembersFollow w Added n) {declared : Declared}
    {reached : Reached}
    (hMember : readMember (bodyReader steps) scope ⟨name, access⟩ d t ts = .ok (declared, reached))
    (h : readMembers steps scope name opener access (members.add t.line declared) reached.declarations
      reached.rest = .ok body)
    (hNot : t.isPunctuation "\x7d" = false) (hKept : Kept w Added t t' ts us)
    (hBefore : BodyBefore w Added members d d' (t :: ts) (t' :: us) inside cs body)
    (hLength : us.length < n) :
    ∃ body', BodyPart.member.read n scope name opener' access members' d' t' us = .ok body' ∧
      body.MatchesAfter w Added inside members members' body' := by
  obtain ⟨more, hMore, hCovered⟩ := hBefore.covered
  obtain ⟨later, hLater, hRest⟩ := readMembers_follows h
  have hFirst := readMember_advances (bodyReader_sound steps) hMember
  rw [← braces_methods] at hFirst
  obtain rfl : more = declared.methods ++ later := by
    apply List.append_cancel_left
    rw [← hMore, hLater, methods_add, List.append_assoc]
  obtain ⟨own, inside', cs₁, cs₂, rfl, hOwn, hInside', hFound, hFound', hCovers, hCovers'⟩ :=
    Advances.covered declared.methods later hFirst hRest hBefore.cut hBefore.classes hCovered
      hBefore.admits.distinct
  obtain ⟨⟨declared', reached'⟩, hMember', hDeclared, hReached, hMatches⟩ :=
    readMember_rewritten hFollow.follows (bodyReader_sound steps) hMember hOwn hFound hCovers
      hBefore.admits hKept (Nat.le_of_lt hLength) hBefore.declarations
  have hNot' : t'.isPunctuation "\x7d" = false := (isPunctuation_of_alike hKept.token _).trans hNot
  have hShorter : reached'.rest.length ≤ us.length :=
    (readMember_suffix_tail (bodyReader_sound n) hMember' hNot').length_le
  obtain ⟨body', hRead', hAll⟩ := hFollow steps scope name opener opener' access _
    (members'.add t'.line declared') _ reached'.declarations _ reached'.rest inside' cs₂ body h
    ⟨hInside', hFound', ⟨later, hLater, hCovers'⟩, hBefore.admits.suffix ⟨own, hOwn.symm⟩, hReached,
      hMatches⟩ (by omega)
  refine ⟨body', ?_, hAll.rest, hAll.declarations, fun hNone hSame => ?_⟩
  · rw [BodyPart.read, bind_eq_ok]
    exact ⟨_, hMember', hRead'⟩
  · refine hAll.methods (fun hMem => hNone (List.mem_append_right _ hMem)) ?_
    exact methods_add_alike t.line t'.line hDeclared hSame

end

theorem readMembers_rewritten (n : Nat) : MembersFollow w Added n := by
  induction n with
  | zero =>
    intro _ _ _ _ _ _ _ _ _ _ _ us _ _ _ _ _ hLength
    exact absurd hLength (Nat.not_lt_zero us.length)
  | succ n ih =>
    intro steps scope name opener opener' access members members' d d' ts us inside cs body h hBefore
      hLength
    have hRead := h
    obtain _ | steps := steps
    · unfold readMembers at h
      cases h
    cases ts with
    | nil =>
      unfold readMembers at h
      cases h
    | cons t ts =>
      rcases inserted_or_kept hBefore.tokens with
        ⟨rfl, added, us, hAdd, rfl, hTokens⟩ | ⟨t', us, rfl, hKept⟩
      · exact ih.inserted opener' members' hRead hAdd { hBefore with tokens := hTokens }
          (Nat.le_of_lt_succ hLength)
      · have hShorter : us.length < n := Nat.lt_of_succ_lt_succ hLength
        obtain ⟨part, hPart⟩ := BodyPart.exists_starts t ts
        rw [readMembers_eq hPart] at h
        rw [readMembers_eq (BodyPart.starts_rewritten hBefore.admits.stubs hKept hPart)]
        cases part with
        | close =>
          cases h
          have hClose : t.isPunctuation "\x7d" = true := hPart
          obtain ⟨-, hRest⟩ := hKept.rest (by simp [Token.isPunctuation_eq_decide hClose])
          exact ⟨_, rfl, hRest, hBefore.declarations, fun _ hSame => hSame⟩
        | semicolon =>
          obtain ⟨-, hRest⟩ := hKept.rest (by simp [Token.isPunctuation_eq_decide hPart.2])
          obtain ⟨_, -, inside', _, hInside', -⟩ := readMembers_follows h
          obtain ⟨rfl, hLater⟩ := hBefore.pass [t] hInside' hRest
          obtain ⟨body', hRead', hMatches⟩ := ih steps scope name opener opener' access members members'
            d d' ts us inside' cs body h hLater hShorter
          exact ⟨body', hRead', hMatches.mono (List.subset_append_right _ _)⟩
        | label label => exact ih.label opener' members' h hPart.2.2 hKept hBefore hShorter
        | member =>
          rw [BodyPart.read, bind_eq_ok] at h
          obtain ⟨⟨declared, reached⟩, hMember, h⟩ := h
          exact ih.member opener' members' hMember h hPart.1 hKept hBefore hShorter

end Declaration

end SkeletonWeave
