import SkeletonWeave.Proofs.Declaration.Acceptance
import SkeletonWeave.Proofs.Declaration.Grouped
import SkeletonWeave.Proofs.Declaration.Progress

/-!
# Groups are taken whole

Every reader takes tokens from the front in groups, or fails at an opening
bracket that is not closed or at a closing brace that nothing opened. Only the
list of a template is passed by its angle brackets, whatever else stands in it.
-/

set_option autoImplicit false

namespace SkeletonWeave

open Declarator (Declared Member)
open Token (Nested Grouped Counts brackets closer)

def Token.TemplateListsNested (ts : List Token) : Prop :=
  ∀ keyword opener close inside rest, keyword :: opener :: (inside ++ close :: rest) <:+ ts →
    keyword.text = "template" → opener.isPunctuation "<" = true →
    closeGroup? "<" (inside ++ close :: rest) = some (inside, close, rest) → Nested inside

open Token (TemplateListsNested)

theorem Token.TemplateListsNested.of_suffix {ts us : List Token} (h : TemplateListsNested ts)
    (hSuffix : us <:+ ts) : TemplateListsNested us :=
  fun keyword opener close inside rest hPart =>
    h keyword opener close inside rest (hPart.trans hSuffix)

namespace Declaration

/-- Whether a fault is that of a bracket among the tokens: one that opens a group, an angle bracket
that opens a list, or a closing brace. -/
def Fault.IsAt (f : Fault) (ts : List Token) : Prop :=
  ∃ t ∈ ts, (t.opens = true ∨ t.isPunctuation "<" = true) ∧ f = unbalanced t ∨
    t.isPunctuation "\x7d" = true ∧ f = ⟨.unexpected t.text, t.span⟩

theorem Fault.IsAt.mono {f : Fault} {ts us : List Token} (h : f.IsAt ts) (hSubset : ts ⊆ us) :
    f.IsAt us := by
  obtain ⟨t, ht, hFault⟩ := h
  exact ⟨t, hSubset ht, hFault⟩

def Takes (ts rest : List Token) : Prop :=
  ∃ taken, ts = taken ++ rest ∧ (TemplateListsNested ts → Grouped taken)

namespace Takes

variable {ts us rest : List Token} {t : Token}

theorem refl (ts : List Token) : Takes ts ts := ⟨[], rfl, fun _ => .nil⟩

theorem suffix (h : Takes ts rest) : rest <:+ ts := by
  obtain ⟨taken, rfl, -⟩ := h
  exact List.suffix_append _ _

theorem trans (h : Takes ts us) (h' : Takes us rest) : Takes ts rest := by
  obtain ⟨taken, rfl, hTaken⟩ := h
  obtain ⟨more, rfl, hMore⟩ := h'
  refine ⟨taken ++ more, by rw [List.append_assoc], fun hLists => ?_⟩
  exact (hTaken hLists).append (hMore (hLists.of_suffix (List.suffix_append _ _)))

theorem of_grouped {taken : List Token} (h : Grouped taken) (rest : List Token) :
    Takes (taken ++ rest) rest :=
  ⟨taken, rfl, fun _ => h⟩

theorem plain (hOpens : t.opens = false) (hBrace : t.isPunctuation "\x7d" = false)
    (ts : List Token) : Takes (t :: ts) ts := by
  have hTaken : Grouped [t] := .plain hOpens hBrace .nil
  exact of_grouped hTaken ts

theorem word (h : t.text ∉ "\x7d" :: brackets) (ts : List Token) : Takes (t :: ts) ts := by
  have hTaken : Grouped [t] := .word h .nil
  exact of_grouped hTaken ts

theorem mark {text : String} (h : t.isPunctuation text = true)
    (hOther : text ∉ "\x7d" :: brackets) (ts : List Token) : Takes (t :: ts) ts := by
  rw [← Token.text_of_isPunctuation h] at hOther
  exact word hOther ts

theorem kind (h : t.kind ≠ .punctuation) (ts : List Token) : Takes (t :: ts) ts :=
  plain (Token.opens_of_kind h) (by simp [Token.isPunctuation, h]) ts

theorem dropSemicolon (ts : List Token) : Takes ts (dropSemicolon ts) := by
  unfold Declaration.dropSemicolon
  split
  · exact refl _
  · split
    · next hSemicolon => exact mark hSemicolon (by decide) _
    · exact refl _

end Takes

/-- Whether reading takes groups up to what it leaves, or fails at one of the tokens or of those
around them. -/
structure Reads {α : Type} (around ts : List Token) (rest : α → List Token) (r : Outcome α) :
    Prop where
  takes : ∀ a, r = .ok a → Takes ts (rest a)
  fails : ∀ f, r = .error f → f.IsAt (around ++ ts)

namespace Reads

variable {α β : Type} {around ts us : List Token} {rest : α → List Token} {rest' : β → List Token}

theorem ok {a : α} (h : Takes ts (rest a)) : Reads around ts rest (.ok a) where
  takes := by
    rintro _ ⟨⟩
    exact h
  fails := nofun

theorem error {f : Fault} (h : f.IsAt (around ++ ts)) : Reads around ts rest (.error f) where
  takes := nofun
  fails := by
    rintro _ ⟨⟩
    exact h

theorem within {r : Outcome α} (h : Reads [] ts rest r) (around : List Token) :
    Reads around ts rest r where
  takes := h.takes
  fails f hFault := (h.fails f hFault).mono (List.subset_append_right around ts)

theorem after {r : Outcome α} (hTakes : Takes ts us) (h : Reads around us rest r) :
    Reads around ts rest r where
  takes a hOk := hTakes.trans (h.takes a hOk)
  fails f hFault := (h.fails f hFault).mono
    (List.append_subset.mpr ⟨List.subset_append_left _ _,
      List.Subset.trans hTakes.suffix.subset (List.subset_append_right _ _)⟩)

theorem bind {first : Outcome α} {next : α → Outcome β} (h : Reads around ts rest first)
    (hNext : ∀ a, first = .ok a → Reads around (rest a) rest' (next a)) :
    Reads around ts rest' (first >>= next) := by
  cases hFirst : first with
  | error f => exact .error (h.fails f hFirst)
  | ok a => exact (hNext a hFirst).after (h.takes a hFirst)

theorem map {first : Outcome α} {f : α → β} (h : Reads around ts rest first)
    (hRest : ∀ a, first = .ok a → Takes (rest a) (rest' (f a))) :
    Reads around ts rest' (first.map f) := by
  cases hFirst : first with
  | error f => exact .error (h.fails f hFirst)
  | ok a => exact .ok ((h.takes a hFirst).trans (hRest a hFirst))

end Reads

theorem isAt_unbalanced {opener : Token} {ts : List Token} (h : opener ∈ ts)
    (hOpens : opener.opens = true) : (unbalanced opener).IsAt ts :=
  ⟨opener, h, .inl ⟨.inl hOpens, rfl⟩⟩

theorem closeGroup_reads {opener : Token} (hOpens : opener.opens = true) (ts : List Token) :
    Reads [] (opener :: ts) (fun (_, _, rest) => rest) (closeGroup opener ts) := by
  unfold closeGroup
  split
  · next group hFound =>
    obtain ⟨inside, close, rest⟩ := group
    obtain ⟨_, rfl, rfl, hCounts⟩ := Token.closeGroupFrom?_counts hFound
    refine .ok ?_
    have hTaken := Takes.of_grouped (.counted hOpens hCounts .nil) rest
    simpa using hTaken
  · exact .error (isAt_unbalanced List.mem_cons_self hOpens)

namespace Extent

theorem split_unclosed {opener : Token} {depth : Nat} {ts : List Token} {e : Extent}
    (hGroup : e.group? = some ⟨opener, depth⟩)
    (hOpen : Token.closeGroupFrom? opener.text depth e.passed ts = none) :
    e.split ts = .error (unbalanced opener) := by
  induction ts generalizing e depth with
  | nil => rw [split, hGroup]
  | cons t ts ih =>
    rw [split, hGroup]
    simp only
    by_cases hOpens : t.isPunctuation opener.text = true
    · rw [Token.closeGroupFrom?_opens hOpens] at hOpen
      exact @ih (depth + 1) _ (by simp [passInside, hOpens]) hOpen
    · rw [Bool.not_eq_true] at hOpens
      by_cases hCloses : t.isPunctuation (closer opener.text) = true
      · cases depth with
        | zero =>
          rw [Token.closeGroupFrom?_ends hOpens hCloses] at hOpen
          cases hOpen
        | succ depth =>
          rw [Token.closeGroupFrom?_closes hOpens hCloses] at hOpen
          exact @ih depth _ (by simp [passInside, hOpens, hCloses]) hOpen
      · rw [Bool.not_eq_true] at hCloses
        rw [Token.closeGroupFrom?_passes hOpens hCloses] at hOpen
        exact @ih depth _ (by simp [passInside, hOpens, hCloses]) hOpen

theorem split_reads {n : Nat} {ts : List Token} (hLength : ts.length ≤ n) {e : Extent}
    (hGroup : e.group? = none) : Reads [] ts (fun (_, rest) => rest) (e.split ts) := by
  induction n generalizing ts e with
  | zero =>
    obtain rfl := List.length_eq_zero_iff.mp (Nat.le_zero.mp hLength)
    rw [split, hGroup]
    exact .ok (.refl [])
  | succ n ih =>
    cases ts with
    | nil =>
      rw [split, hGroup]
      exact .ok (.refl [])
    | cons t ts =>
      have hTail : ts.length ≤ n := Nat.le_of_succ_le_succ hLength
      rw [split, hGroup]
      simp only
      split
      · exact .ok (.refl _)
      · next hEnds =>
        by_cases hOpens : t.opens = true
        · obtain ⟨hText, hMark⟩ := Token.bracket_of_opens hOpens
          have hStep : e.passOutside t = e.openGroup t := by
            have hMarks := Token.isPunctuation_eq_decide hMark
            rcases Token.brackets_cases hText with h | h | h <;> simp [passOutside, hMarks, h]
          rw [hStep]
          cases hFound : Token.closeGroupFrom? t.text 0 (e.openGroup t).passed ts with
          | none =>
            rw [split_unclosed rfl hFound]
            exact .error (isAt_unbalanced List.mem_cons_self hOpens)
          | some found =>
            obtain ⟨group, close, rest⟩ := found
            rw [split_group rfl hFound]
            obtain ⟨inside, -, rfl, hCounts⟩ := Token.closeGroupFrom?_counts hFound
            have hShorter : rest.length ≤ n := by
              simp only [List.length_append, List.length_cons] at hTail
              omega
            have hTaken := Takes.of_grouped (.counted hOpens hCounts .nil) rest
            rw [List.cons_append, List.append_assoc] at hTaken
            exact (ih hShorter rfl).after hTaken
        · rw [Bool.not_eq_true] at hOpens
          have hNot (bracket : String) (hBracket : bracket ∈ brackets) :
              t.isPunctuation bracket = false :=
            Token.isPunctuation_of_opens hOpens hBracket
          have hStep : (e.passOutside t).group? = none := by
            simp [passOutside, hNot "(" (by decide), hNot "[" (by decide), hNot "\x7b" (by decide),
              pass, hGroup]
          have hBrace : t.isPunctuation "\x7d" = false := by
            simp only [endsAt, Bool.or_eq_true, not_or, Bool.not_eq_true] at hEnds
            exact hEnds.1.2
          exact (ih hTail hStep).after (.plain hOpens hBrace ts)

end Extent

theorem splitDeclaration_reads (ts : List Token) :
    Reads [] ts (fun (_, rest) => rest) (splitDeclaration ts) :=
  Extent.split_reads (Nat.le_refl _) rfl

theorem opens_of_brace {t : Token} (h : t.isPunctuation "\x7b" = true) : t.opens = true :=
  List.any_eq_true.mpr ⟨_, by simp [brackets], h⟩

theorem splitDeclaration_opens {ts head after : List Token} {t : Token}
    (h : splitDeclaration ts = .ok (head, t :: after)) (hSemicolon : ¬t.isPunctuation ";" = true)
    (hBrace : ¬t.isPunctuation "\x7d" = true) : t.opens = true := by
  rcases Extent.split_ends h with hEnd | hEnd | hEnd
  · exact absurd hEnd hSemicolon
  · exact absurd hEnd hBrace
  · exact opens_of_brace hEnd

theorem skipFrom_reads (steps : Nat) (passed ts : List Token) :
    Reads [] ts id (skipFrom steps passed ts) := by
  induction steps generalizing passed ts with
  | zero => exact .ok (.refl ts)
  | succ steps ih =>
    unfold skipFrom
    refine (splitDeclaration_reads ts).bind fun declaration hSplit => ?_
    obtain ⟨head, rest⟩ := declaration
    simp only
    split
    · exact .ok (.refl [])
    · next t after =>
      split
      · next hSemicolon => exact .ok (.mark hSemicolon (by decide) after)
      · next hSemicolon =>
        split
        · exact .ok (.refl _)
        · next hBrace =>
          have hOpens := splitDeclaration_opens hSplit hSemicolon hBrace
          refine (closeGroup_reads hOpens after).bind fun group _ => ?_
          obtain ⟨body, close, later⟩ := group
          simp only
          split
          · exact ih _ later
          · exact .ok (.dropSemicolon later)

theorem skip_reads (ts : List Token) : Reads [] ts id (skip ts) :=
  skipFrom_reads _ [] ts

theorem takes_templateList {keyword opener close : Token} {inside rest : List Token}
    (hKeyword : keyword.text = "template") (hOpen : opener.isPunctuation "<" = true)
    (hFound : Token.closeGroup? "<" (inside ++ close :: rest) = some (inside, close, rest)) :
    Takes (keyword :: opener :: (inside ++ close :: rest)) rest := by
  refine ⟨keyword :: opener :: (inside ++ [close]), by simp, fun hLists => ?_⟩
  have hNested := hLists keyword opener close inside rest (List.suffix_refl _) hKeyword hOpen hFound
  have hClose : close.isPunctuation ">" = true := Token.closer_of_closeGroupFrom? hFound
  have hInside := Grouped.of_nested hNested
  refine .word (by rw [hKeyword]; decide) (.word ?_ (hInside.append (.word ?_ .nil)))
  · rw [Token.text_of_isPunctuation hOpen]
    decide
  · rw [Token.text_of_isPunctuation hClose]
    decide

theorem skipTemplate_reads {keyword : Token} (hKeyword : keyword.text = "template")
    (ts : List Token) : Reads [] (keyword :: ts) id (skipTemplate ts) := by
  have hWord : Takes (keyword :: ts) ts := .word (by rw [hKeyword]; decide) ts
  unfold skipTemplate
  split
  · next t rest =>
    split
    · next hOpen =>
      unfold closeGroup
      rw [Token.text_of_isPunctuation hOpen]
      cases hFound : Token.closeGroup? "<" rest with
      | none => exact .error ⟨t, by simp, .inl ⟨.inr hOpen, rfl⟩⟩
      | some group =>
        obtain ⟨inside, close, after⟩ := group
        obtain ⟨_, rfl, rfl⟩ := Token.closeGroupFrom?_eq_some hFound
        exact (skip_reads after).after (takes_templateList hKeyword hOpen hFound)
    · exact (skip_reads _).after hWord
  · exact (skip_reads []).after hWord

theorem readUsing_reads (scope : Scope) (d : Declarations) {keyword : Token}
    (hKeyword : keyword.text = "using") (ts : List Token) :
    Reads [] (keyword :: ts) Reached.rest (readUsing scope d keyword ts) := by
  have hPass : Reads [] (keyword :: ts) Reached.rest
      ((skip (keyword :: ts)).map fun rest => ⟨d, rest⟩) :=
    (skip_reads _).map fun _ _ => .refl _
  unfold readUsing
  split
  · next named equals after =>
    split
    · next hAlias =>
      obtain ⟨hNamed, hEquals⟩ := hAlias
      have hBefore : Takes (keyword :: named :: equals :: after) after :=
        (Takes.word (by rw [hKeyword]; decide) _).trans
          ((Takes.kind (by rw [hNamed]; decide) _).trans (.mark hEquals (by decide) after))
      refine ((splitDeclaration_reads after).bind fun ⟨target, rest⟩ _ => ?_).after hBefore
      exact .ok (.dropSemicolon rest)
    · exact hPass
  · exact hPass

theorem readAliases_reads (scope : Scope) (isEnum : Bool) (a : Aliasing) (ts : List Token) :
    Reads [] ts Reached.rest (readAliases scope isEnum a ts) :=
  (splitDeclaration_reads ts).bind fun (_, rest) _ => .ok (.dropSemicolon rest)

theorem readDeclaration_reads (member? : Option Member) (ts : List Token) :
    Reads [] ts Item.rest (readDeclaration member? ts) := by
  unfold readDeclaration
  refine (splitDeclaration_reads ts).bind fun declaration hSplit => ?_
  obtain ⟨head, rest⟩ := declaration
  simp only
  split
  · exact .ok (.refl [])
  · next t after =>
    split
    · exact .ok (.refl _)
    · next hBrace =>
      split
      · next hSemicolon => exact .ok (.mark hSemicolon (by decide) after)
      · next hSemicolon =>
        have hOpens := splitDeclaration_opens hSplit hSemicolon hBrace
        exact (closeGroup_reads hOpens after).bind fun group _ => .ok (.dropSemicolon group.2.2)

structure BodyReader.TakesGroups (readBody : BodyReader) : Prop where
  reads : ∀ scope name access opener d ts, opener.isPunctuation "\x7b" = true →
    Reads [opener] ts (fun b => b.close :: b.reached.rest) (readBody scope name access opener d ts)
  closes : ∀ scope name access opener d ts, opener.isPunctuation "\x7b" = true →
    ∀ body, readBody scope name access opener d ts = .ok body →
      body.close.isPunctuation "\x7d" = true

theorem Takes.scope {opener close : Token} {ts rest : List Token}
    (hOpen : opener.isPunctuation "\x7b" = true) (hClose : close.isPunctuation "\x7d" = true)
    (h : Takes ts (close :: rest)) : Takes (opener :: ts) rest := by
  obtain ⟨taken, rfl, hTaken⟩ := h
  refine ⟨opener :: (taken ++ [close]), by simp, fun hLists => ?_⟩
  exact .scope hOpen hClose (hTaken (hLists.of_suffix (List.suffix_cons _ _))) .nil

section

variable {readBody : BodyReader}

theorem readClass_reads (hBody : readBody.TakesGroups) (scope : Scope) (d : Declarations)
    (keyword : Token) (head : List Token) {opener : Token}
    (hOpen : opener.isPunctuation "\x7b" = true) (ts : List Token) :
    Reads [] (opener :: ts) Reached.rest (readClass readBody scope d keyword head opener ts) := by
  have hReads :=
    hBody.reads scope (className head) (classKind keyword).defaultAccess opener d ts hOpen
  unfold readClass
  extract_lets name kind
  cases hRead : readBody scope name kind.defaultAccess opener d ts with
  | error f => exact .error (hReads.fails f hRead)
  | ok body =>
    have hClose := hBody.closes _ _ _ _ _ _ hOpen _ hRead
    exact .ok (.scope hOpen hClose (hReads.takes body hRead))

theorem readTypedef_reads (hBody : readBody.TakesGroups) (scope : Scope) (d : Declarations)
    (ts : List Token) : Reads [] ts Reached.rest (readTypedef readBody scope d ts) := by
  unfold readTypedef
  refine (splitDeclaration_reads ts).bind fun ⟨head, rest⟩ hSplit => ?_
  have hPlain {d : Declarations} :
      Reads [] rest Reached.rest (.ok ⟨d, dropSemicolon rest⟩) := .ok (.dropSemicolon rest)
  simp only
  split
  · next keyword inner brace after =>
    split
    · next hDefines =>
      have hOpen := (Bool.and_eq_true_iff.mp hDefines).2
      split
      · exact (closeGroup_reads (opens_of_brace hOpen) after).bind fun (_, _, later) _ =>
          readAliases_reads scope true _ later
      · exact (readClass_reads hBody scope d keyword inner hOpen after).bind fun reached _ =>
          readAliases_reads scope false _ reached.rest
    · exact hPlain
  · exact hPlain

theorem leaveClass_reads (ts : List Token) : Reads [] ts id (leaveClass ts) := by
  unfold leaveClass
  split
  · next hSemicolon =>
    cases ts with
    | nil => cases hSemicolon
    | cons t ts =>
      have hMark : t.isPunctuation ";" = true := hSemicolon
      exact .ok (.mark hMark (by decide) ts)
  · exact skip_reads ts

theorem readClassOrDeclaration_reads (hBody : readBody.TakesGroups) (scope : Scope)
    (member? : Option Member) (d : Declarations) (keyword : Token) (ts : List Token) :
    Reads [] (keyword :: ts) (fun r => r.2.rest)
      (readClassOrDeclaration readBody scope member? d keyword ts) := by
  cases hSplit : splitDeclaration (keyword :: ts) with
  | error f =>
    rw [readClassOrDeclaration_eq, hSplit]
    exact .error ((splitDeclaration_reads _).fails f hSplit)
  | ok found =>
    obtain ⟨head, rest⟩ := found
    cases hDefines : definesClass head rest with
    | true =>
      obtain ⟨opener, after, rfl, hOpen⟩ := exists_opener_of_defines hDefines
      rw [readClassOrDeclaration_of_defines readBody scope member? d hSplit hDefines]
      refine Reads.after ((splitDeclaration_reads _).takes _ hSplit) ?_
      exact (readClass_reads hBody scope d keyword head.tail hOpen after).bind fun reached _ =>
        (leaveClass_reads reached.rest).bind fun later _ => .ok (.refl later)
    | false =>
      rw [readClassOrDeclaration_of_not readBody scope member? d hSplit hDefines]
      exact (readDeclaration_reads member? _).map fun item _ => .refl item.rest

theorem Form.read_reads (hBody : readBody.TakesGroups) {form : Form} {passedWords : List String}
    {t : Token} (hForm : form.Starts passedWords t.text) (scope : Scope) (member? : Option Member)
    (d : Declarations) (ts : List Token) :
    Reads [] (t :: ts) (fun r => r.2.rest) (form.read readBody scope member? d t ts) := by
  cases form with
  | passed => exact (skip_reads _).bind fun rest _ => .ok (.refl rest)
  | typeAlias => exact (readUsing_reads scope d hForm ts).bind fun r _ => .ok (.refl r.rest)
  | template => exact (skipTemplate_reads hForm ts).bind fun rest _ => .ok (.refl rest)
  | typedef =>
    have hWord : Takes (t :: ts) ts := .word (by rw [show t.text = "typedef" from hForm]; decide) ts
    refine Reads.after hWord ?_
    exact (readTypedef_reads hBody scope d ts).bind fun r _ => .ok (.refl r.rest)
  | classLike => exact readClassOrDeclaration_reads hBody scope member? d t ts
  | plain => exact (readDeclaration_reads member? _).bind fun item _ => .ok (.refl item.rest)

theorem readMember_reads (hBody : readBody.TakesGroups) (scope : Scope) (member : Member)
    (d : Declarations) (t : Token) (ts : List Token) :
    Reads [] (t :: ts) (fun r => r.2.rest) (readMember readBody scope member d t ts) := by
  obtain ⟨form, hForm⟩ := Form.exists_starts passedMembers t.text
  rw [readMember_eq hForm]
  exact Form.read_reads hBody hForm scope (some member) d ts

end

theorem takes_accessLabel {t : Token} {ts : List Token} {access : Access}
    (h : accessLabel? t ts = some access) : Takes (t :: ts) ts.tail := by
  unfold accessLabel? at h
  split at h
  · next hColon =>
    have hWord : t.text ∉ "\x7d" :: brackets := by
      split at h
      · next hText => rw [hText]; decide
      · split at h
        · next hText => rw [hText]; decide
        · split at h
          · next hText => rw [hText]; decide
          · cases h
    cases ts with
    | nil => cases hColon
    | cons colon ts =>
      have hMark : colon.isPunctuation ":" = true := hColon
      exact (Takes.word hWord _).trans (.mark hMark (by decide) ts)
  · cases h

theorem readMembers_reads (steps : Nat) (scope : Scope) (name : String) {opener : Token}
    (hOpen : opener.isPunctuation "\x7b" = true) (access : Access) (members : Members)
    (d : Declarations) (ts : List Token) :
    Reads [opener] ts (fun b => b.close :: b.reached.rest)
        (readMembers steps scope name opener access members d ts) ∧
      ∀ body, readMembers steps scope name opener access members d ts = .ok body →
        body.close.isPunctuation "\x7d" = true := by
  induction steps generalizing scope name opener access members d ts with
  | zero =>
    unfold readMembers
    exact ⟨.error (isAt_unbalanced List.mem_cons_self (opens_of_brace hOpen)), by rintro _ ⟨⟩⟩
  | succ steps ih =>
    cases ts with
    | nil =>
      unfold readMembers
      exact ⟨.error (isAt_unbalanced List.mem_cons_self (opens_of_brace hOpen)), by rintro _ ⟨⟩⟩
    | cons t rest =>
      obtain ⟨part, hPart⟩ := BodyPart.exists_starts t rest
      rw [readMembers_eq hPart]
      cases part with
      | close =>
        refine ⟨.ok (.refl _), ?_⟩
        rintro body ⟨⟩
        exact hPart
      | semicolon =>
        obtain ⟨hReads, hCloses⟩ := ih scope name hOpen access members d rest
        exact ⟨hReads.after (.mark hPart.2 (by decide) rest), hCloses⟩
      | label label =>
        obtain ⟨hReads, hCloses⟩ := ih scope name hOpen label members d rest.tail
        exact ⟨hReads.after (takes_accessLabel hPart.2.2), hCloses⟩
      | member =>
        have hBody : (bodyReader steps).TakesGroups :=
          ⟨fun _ name access _ d ts hOpen => (ih _ name hOpen access _ d ts).1,
            fun _ name access _ d ts hOpen => (ih _ name hOpen access _ d ts).2⟩
        refine ⟨?_, fun body hRead => ?_⟩
        · have hMember := readMember_reads hBody scope ⟨name, access⟩ d t rest
          refine (hMember.within [opener]).bind fun result _ => ?_
          exact (ih scope name hOpen access _ _ _).1
        · rw [BodyPart.read, bind_eq_ok] at hRead
          obtain ⟨result, -, hRest⟩ := hRead
          exact (ih scope name hOpen access _ _ _).2 body hRest

theorem readBody_takesGroups : readBody.TakesGroups where
  reads scope name access _ d ts hOpen :=
    (readMembers_reads (ts.length + 1) (scope ++ [name]) name hOpen access Members.empty d ts).1
  closes scope name access _ d ts hOpen :=
    (readMembers_reads (ts.length + 1) (scope ++ [name]) name hOpen access Members.empty d ts).2

theorem takes_namespaceName (ts : List Token) : Takes ts (ts.dropWhile inNamespaceName) := by
  induction ts with
  | nil => exact .refl []
  | cons t ts ih =>
    by_cases hName : inNamespaceName t = true
    · rw [List.dropWhile_cons_of_pos hName]
      refine Takes.trans ?_ ih
      simp only [inNamespaceName, Bool.or_eq_true, beq_iff_eq] at hName
      rcases hName with hKind | hMark
      · exact .kind (by rw [hKind]; decide) ts
      · exact .mark hMark (by decide) ts
    · rw [List.dropWhile_cons_of_neg hName]
      exact .refl _

theorem IsItem.takes_inner {t opener : Token} {ts after : List Token} {names : List String}
    (h : IsItem t ts (.inner names opener after)) : Takes (t :: ts) (opener :: after) := by
  cases h with
  | space hWord hName _ =>
    have hKeyword : Takes (t :: ts) ts := .word (by rw [hWord]; decide) ts
    rw [← hName]
    exact hKeyword.trans (takes_namespaceName ts)
  | linkage hWord hCut hString _ =>
    have hKeyword : Takes (t :: ts) ts := .word (by rw [hWord]; decide) ts
    refine hKeyword.trans ?_
    rw [hCut]
    exact .kind (by rw [hString]; decide) _

theorem readItem_reads {readInner : ScopeReader} {t : Token} {ts : List Token}
    (hInner : ∀ scope opener d us, opener.isPunctuation "\x7b" = true → us.length < ts.length →
      Reads [] (opener :: us) Reached.rest (readInner scope opener d us))
    (scope : Scope) (d : Declarations) :
    Reads [] (t :: ts) Reached.rest (readItem readInner scope d t ts) := by
  obtain ⟨form, hForm⟩ := exists_isItem t ts
  rw [readItem_eq hForm]
  cases form with
  | inner names opener after =>
    have hShorter := hForm.inner_suffix.length_le
    rw [List.length_cons] at hShorter
    exact (hInner _ opener d after hForm.isPunctuation_opener (by omega)).after hForm.takes_inner
  | bodiless passed =>
    cases hForm with
    | bodiless hWord _ =>
      have hKeyword : Takes (t :: ts) ts := .word (by rw [hWord]; decide) ts
      refine Reads.after (hKeyword.trans (takes_namespaceName ts)) ?_
      exact (skip_reads _).bind fun rest _ => .ok (.refl rest)
  | inlineSpace =>
    cases hForm with
    | inlineSpace hWord _ => exact .ok (.word (by rw [hWord]; decide) ts)
  | shared form =>
    refine (Form.read_reads readBody_takesGroups hForm.starts scope none d ts).bind fun result _ => ?_
    refine .ok ?_
    rw [form.record_rest]
    exact .refl result.2.rest

/-- Whether reading takes groups up to the end of a scope, or fails at one of the tokens or at the
brace that opened the scope. -/
structure Leaves (opener? : Option Token) (ts : List Token) (r : Outcome Reached) : Prop where
  takes : ∀ reached, r = .ok reached →
    ∃ final, EndOfScope opener? final reached.rest ∧ Takes ts final
  fails : ∀ f, r = .error f → f.IsAt (opener?.toList ++ ts)

namespace Leaves

variable {opener? : Option Token} {ts us : List Token}

theorem ok {reached : Reached} {final : List Token}
    (hEnd : EndOfScope opener? final reached.rest) (hTakes : Takes ts final) :
    Leaves opener? ts (.ok reached) where
  takes := by
    rintro _ ⟨⟩
    exact ⟨final, hEnd, hTakes⟩
  fails := by rintro _ ⟨⟩

theorem error {f : Fault} (h : f.IsAt (opener?.toList ++ ts)) : Leaves opener? ts (.error f) where
  takes := by rintro _ ⟨⟩
  fails := by
    rintro _ ⟨⟩
    exact h

theorem after {r : Outcome Reached} (hTakes : Takes ts us) (h : Leaves opener? us r) :
    Leaves opener? ts r where
  takes reached hOk := by
    obtain ⟨final, hEnd, hFinal⟩ := h.takes reached hOk
    exact ⟨final, hEnd, hTakes.trans hFinal⟩
  fails f hFault := (h.fails f hFault).mono
    (List.append_subset.mpr ⟨List.subset_append_left _ _,
      List.Subset.trans hTakes.suffix.subset (List.subset_append_right _ _)⟩)

theorem bind {α : Type} {rest : α → List Token} {first : Outcome α} {next : α → Outcome Reached}
    (h : Reads [] ts rest first)
    (hNext : ∀ a, first = .ok a → Leaves opener? (rest a) (next a)) :
    Leaves opener? ts (first >>= next) := by
  cases hFirst : first with
  | error f => exact .error ((h.within opener?.toList).fails f hFirst)
  | ok a => exact (hNext a hFirst).after (h.takes a hFirst)

theorem reads {opener : Token} {r : Outcome Reached} (hOpen : opener.isPunctuation "\x7b" = true)
    (h : Leaves (some opener) ts r) : Reads [] (opener :: ts) Reached.rest r where
  takes reached hOk := by
    obtain ⟨declarations, rest⟩ := reached
    obtain ⟨final, hEnd, hFinal⟩ := h.takes _ hOk
    cases hEnd with
    | brace after hClose => exact .scope hOpen hClose hFinal
  fails := h.fails

end Leaves

/-- A scope is taken in groups up to its end, in more steps than there are tokens. -/
theorem readScope_leaves {steps : Nat} (scope : Scope) {opener? : Option Token}
    (hOpens : ∀ opener ∈ opener?, opener.isPunctuation "\x7b" = true) (d : Declarations)
    {ts : List Token} (hSteps : ts.length < steps) :
    Leaves opener? ts (readScope steps scope opener? d ts) := by
  induction steps generalizing scope opener? d ts with
  | zero => exact absurd hSteps (Nat.not_lt_zero _)
  | succ steps ih =>
    cases ts with
    | nil =>
      unfold readScope
      cases opener? with
      | none => exact .ok .file (.refl [])
      | some opener =>
        exact .error (isAt_unbalanced List.mem_cons_self (opens_of_brace (hOpens opener rfl)))
    | cons t rest =>
      have hRest : rest.length < steps := Nat.lt_of_succ_lt_succ hSteps
      obtain ⟨part, hPart⟩ := ScopePart.exists_starts t
      rw [readScope_eq hPart]
      cases part with
      | close =>
        cases opener? with
        | none => exact .error ⟨t, List.mem_cons_self, .inr ⟨hPart, rfl⟩⟩
        | some opener => exact .ok (.brace rest hPart) (.refl _)
      | semicolon => exact (ih scope hOpens d hRest).after (.mark hPart.2 (by decide) rest)
      | group =>
        refine .bind (closeGroup_reads (opens_of_brace hPart.2.2) rest) ?_
        rintro ⟨inside, close, after⟩ hGroup
        obtain rfl := closeGroup_eq_ok hGroup
        have hShorter : after.length < steps := by
          simp only [List.length_append, List.length_cons] at hRest
          omega
        exact ih scope hOpens d hShorter
      | item =>
        have hInner : ∀ scope opener d us, opener.isPunctuation "\x7b" = true →
            us.length < rest.length →
            Reads [] (opener :: us) Reached.rest (readScope steps scope (some opener) d us) :=
          fun scope opener d us hOpen hShorter =>
            (ih scope (by simpa using hOpen) d (hShorter.trans hRest)).reads hOpen
        refine .bind (readItem_reads hInner scope d) fun reached hItem => ?_
        have hSuffix : reached.rest <:+ rest :=
          readItem_suffix_tail (fun _ _ _ _ _ hRead => readScope_suffix hRead) hItem hPart.1
        exact ih scope hOpens reached.declarations (hSuffix.length_le.trans_lt hRest)

/-- Tokens that are read are taken in groups to their end, and a failure is that of a bracket among
them. -/
theorem read_groups (files : List Source.File) (ts : List Token) :
    (∀ d, read files ts = .ok d → TemplateListsNested ts → Grouped ts) ∧
      ∀ e, read files ts = .error e → ∃ f : Fault, f.IsAt ts ∧ e = f.toError files := by
  have hOutside : ∀ opener ∈ (none : Option Token), opener.isPunctuation "\x7b" = true := by simp
  have hLeaves := readScope_leaves [] hOutside Declarations.empty (Nat.lt_succ_self ts.length)
  rw [read]
  cases hRead : readScope (ts.length + 1) [] none Declarations.empty ts with
  | ok reached =>
    refine ⟨fun _ _ hLists => ?_, by rintro _ ⟨⟩⟩
    obtain ⟨declarations, rest⟩ := reached
    obtain ⟨_, ⟨⟩, taken, hTaken, hGrouped⟩ := hLeaves.takes _ hRead
    rw [List.append_nil] at hTaken
    exact hTaken ▸ hGrouped hLists
  | error f =>
    refine ⟨by rintro _ ⟨⟩, ?_⟩
    rintro _ ⟨⟩
    exact ⟨f, hLeaves.fails f hRead, rfl⟩

/-- Where the lists of templates nest, tokens that are read nest just if their closing brackets fit.
So a bracket that stays open among fitting ones is always a failure, as is a closing brace where
nothing is open, and every failure is that of a bracket. -/
theorem read_nests_where_closers_fit (files : List Source.File) {ts : List Token}
    (hLists : TemplateListsNested ts) :
    match read files ts with
    | .ok _ => Nested ts ↔ Token.ClosersFit ts
    | .error e => ∃ f : Fault, f.IsAt ts ∧ e = f.toError files := by
  obtain ⟨hGroups, hFaults⟩ := read_groups files ts
  split
  · next d hRead => exact (hGroups d hRead hLists).nested_iff
  · next e hRead => exact hFaults e hRead

theorem template_with_array_nests :
    let template : List Token := [
      ⟨.identifier, "template", ⟨0, 0, 8⟩, 1⟩, ⟨.punctuation, "<", ⟨0, 9, 10⟩, 1⟩,
      ⟨.identifier, "int", ⟨0, 10, 13⟩, 1⟩, ⟨.punctuation, ">", ⟨0, 13, 14⟩, 1⟩,
      ⟨.identifier, "int", ⟨0, 15, 18⟩, 1⟩, ⟨.identifier, "a", ⟨0, 19, 20⟩, 1⟩,
      ⟨.punctuation, "[", ⟨0, 20, 21⟩, 1⟩]
    let closed := template ++
      [⟨.punctuation, "]", ⟨0, 21, 22⟩, 1⟩, ⟨.punctuation, ";", ⟨0, 22, 23⟩, 1⟩]
    let unclosed := template ++ [⟨.punctuation, ";", ⟨0, 21, 22⟩, 1⟩]
    Token.lex 0 "t.cpp" "template <int> int a[];" = .ok closed ∧
      Token.lex 0 "t.cpp" "template <int> int a[;" = .ok unclosed ∧
      TemplateListsNested closed ∧ TemplateListsNested unclosed ∧
      (∃ d, read [] closed = .ok d) ∧ (Nested closed ↔ Token.ClosersFit closed) ∧
      ∃ f : Fault, f.IsAt unclosed ∧ read [] unclosed = .error (f.toError []) := by
  intro template closed unclosed
  have hLists {rest : List Token} (hRest : ∀ t ∈ rest, t.text ≠ "template") :
      TemplateListsNested (template ++ rest) := by
    intro keyword opener close inside after hSuffix hKeyword _ hFound
    obtain ⟨before, hCut⟩ := hSuffix
    cases before with
    | nil =>
      obtain ⟨-, hCut⟩ := List.cons.inj hCut
      obtain ⟨-, hAfter⟩ := List.cons.inj hCut
      rw [hAfter] at hFound
      cases hFound
      exact .plain rfl .nil
    | cons t before =>
      have hTail : before ++ keyword :: opener :: (inside ++ close :: after) =
          template.tail ++ rest := (List.cons.inj hCut).2
      have hMem : keyword ∈ template.tail ++ rest := by
        rw [← hTail]
        simp
      have hOther : ∀ u ∈ template.tail, u.text ≠ "template" := by decide
      rcases List.mem_append.mp hMem with hMem | hMem
      · exact absurd hKeyword (hOther keyword hMem)
      · exact absurd hKeyword (hRest keyword hMem)
  have hClosed : TemplateListsNested closed := hLists (by decide)
  have hUnclosed : TemplateListsNested unclosed := hLists (by decide)
  have hNests := read_nests_where_closers_fit [] hClosed
  have hFails := read_nests_where_closers_fit [] hUnclosed
  refine ⟨eq_ok_of_toOption (by decide +kernel), eq_ok_of_toOption (by decide +kernel), hClosed,
    hUnclosed, ?_, ?_, ?_⟩
  · have hRead : (read [] closed).toOption.isSome = true := by decide +kernel
    obtain ⟨d, hSome⟩ := Option.isSome_iff_exists.mp hRead
    exact ⟨d, eq_ok_of_toOption hSome⟩
  · split at hNests
    · exact hNests
    · next e hRead =>
      have hSome : (read [] closed).toOption.isSome = true := by decide +kernel
      rw [hRead] at hSome
      cases hSome
  · split at hFails
    · next d hRead =>
      have hNone : (read [] unclosed).toOption = none := by decide +kernel
      rw [hRead] at hNone
      cases hNone
    · next e hRead =>
      obtain ⟨f, hAt, rfl⟩ := hFails
      exact ⟨f, hAt, hRead⟩

theorem stray_parenthesis_is_read :
    let ts : List Token := [
      ⟨.identifier, "int", ⟨0, 0, 3⟩, 1⟩, ⟨.identifier, "a", ⟨0, 4, 5⟩, 1⟩,
      ⟨.punctuation, ")", ⟨0, 5, 6⟩, 1⟩, ⟨.punctuation, ";", ⟨0, 6, 7⟩, 1⟩]
    Token.lex 0 "t.cpp" "int a);" = .ok ts ∧ ¬Nested ts ∧ ∃ d, read [] ts = .ok d := by
  intro ts
  refine ⟨eq_ok_of_toOption (by decide +kernel), ?_, ?_⟩
  · rw [Token.nested_iff_openAfter]
    intro hNone
    have hMisfit : (Token.openAfter [] ts).toOption = none := by decide +kernel
    rw [hNone] at hMisfit
    cases hMisfit
  · have hRead : (read [] ts).toOption.isSome = true := by decide +kernel
    obtain ⟨d, hSome⟩ := Option.isSome_iff_exists.mp hRead
    exact ⟨d, eq_ok_of_toOption hSome⟩

end Declaration

end SkeletonWeave
