import SkeletonWeave.Proofs.Declaration.Nesting
import SkeletonWeave.Proofs.Declaration.Reading
import SkeletonWeave.Token.Lexer

/-!
# Nested tokens are always read

Where all brackets nest and no template starts, reading declarations never
fails. Each reader leaves nested tokens before the brace that closes the scope
around, fewer than it was given, so a loop ends at that brace and not before.
-/

set_option autoImplicit false

namespace SkeletonWeave.Declaration

open Token (Nested Closes Terminated brackets closer)
open Declarator (Declared Member)

/-- Nested tokens none of which would start a template, whatever kind of token it is. -/
structure Harmless (ts : List Token) : Prop where
  nested : Nested ts
  untemplated : ∀ t ∈ ts, t.text ≠ "template"

namespace Harmless

theorem part {ts us : List Token} (h : Harmless ts) (hNested : Nested us) (hPart : us ⊆ ts) :
    Harmless us :=
  ⟨hNested, fun t ht => h.untemplated t (hPart ht)⟩

theorem tail {t : Token} {ts : List Token} (h : Harmless (t :: ts)) (hNot : t.opens = false) :
    Harmless ts :=
  h.part (h.nested.tail hNot) (List.subset_cons_self t ts)

theorem tail_of_mark {t : Token} {ts : List Token} (h : Harmless (t :: ts)) {text : String}
    (hMark : t.isPunctuation text = true) (hOther : text ∉ brackets) : Harmless ts := by
  apply h.tail
  apply Token.opens_of_text
  rwa [Token.text_of_isPunctuation hMark]

theorem exists_close {opener : Token} {ts : List Token} (h : Harmless (opener :: ts))
    (hOpen : opener.isPunctuation "\x7b" = true) :
    ∃ inside close rest, ts = inside ++ close :: rest ∧ close.isPunctuation "\x7d" = true ∧
      Harmless inside ∧ Harmless rest := by
  obtain ⟨inside, close, rest, rfl, hClose, hInside, hRest⟩ := h.nested.exists_close hOpen
  refine ⟨inside, close, rest, rfl, hClose, h.part hInside ?_, h.part hRest ?_⟩
  · intro t ht
    simp [ht]
  · intro t ht
    simp [ht]

end Harmless

def Remains (rest : List Token) (n : Nat) (ts : List Token) : Prop :=
  ∃ inside, ts = inside ++ rest ∧ Harmless inside ∧ inside.length ≤ n

theorem Remains.mono {rest ts : List Token} {n m : Nat} (h : Remains rest n ts) (hLe : n ≤ m) :
    Remains rest m ts := by
  obtain ⟨inside, hCut, hInside, hLength⟩ := h
  exact ⟨inside, hCut, hInside, Nat.le_trans hLength hLe⟩

theorem Harmless.remains {ts : List Token} (h : Harmless ts) {n : Nat} (hLength : ts.length ≤ n)
    (rest : List Token) : Remains rest n (ts ++ rest) :=
  ⟨ts, rfl, h, hLength⟩

variable {rest : List Token}

/-- Where a declaration with the given head ends among harmless tokens: with the scope, at a
semicolon, or at the brace of a body. Told for the tokens before `rest` and for what is left. -/
inductive EndsAt (rest head : List Token) : List Token → List Token → Prop
  | scope : EndsAt rest head head rest
  | semicolon {t : Token} {after : List Token} :
    t.isPunctuation ";" = true → Harmless after →
    EndsAt rest head (head ++ t :: after) (t :: (after ++ rest))
  | body {opener close : Token} {inside after : List Token} :
    opener.isPunctuation "\x7b" = true → close.isPunctuation "\x7d" = true →
    Harmless inside → Harmless after →
    EndsAt rest head (head ++ opener :: (inside ++ close :: after))
      (opener :: (inside ++ close :: (after ++ rest)))

theorem Closes.head {t : Token} {ts : List Token} (h : Closes (t :: ts)) :
    t.isPunctuation "\x7d" = true := by
  rcases h with h | ⟨_, _, h, hClose⟩
  · cases h
  · cases h
    exact hClose

theorem EndsAt.exists_body {head ts after : List Token} {opener : Token}
    (h : EndsAt rest head ts (opener :: after)) (hRest : Closes rest)
    (hOpen : opener.isPunctuation "\x7b" = true) :
    ∃ inside close more, ts = head ++ opener :: (inside ++ close :: more) ∧
      after = inside ++ close :: (more ++ rest) ∧ close.isPunctuation "\x7d" = true ∧
      Harmless inside ∧ Harmless more := by
  generalize hTail : opener :: after = tail at h
  cases h with
  | scope =>
    rw [← hTail] at hRest
    rw [Token.isPunctuation_eq_decide (Closes.head hRest)] at hOpen
    simp at hOpen
  | semicolon hEnd _ =>
    obtain ⟨rfl, -⟩ := List.cons.inj hTail
    rw [Token.isPunctuation_eq_decide hEnd] at hOpen
    simp at hOpen
  | body _ hClose hInside hMore =>
    obtain ⟨rfl, rfl⟩ := List.cons.inj hTail
    exact ⟨_, _, _, rfl, rfl, hClose, hInside, hMore⟩

theorem dropSemicolon_harmless {ts : List Token} (h : Harmless ts) (hRest : Closes rest) :
    Remains rest ts.length (dropSemicolon (ts ++ rest)) := by
  cases ts with
  | nil =>
    refine ⟨[], ?_, h, Nat.le_refl _⟩
    rcases hRest with rfl | ⟨t, us, rfl, hClose⟩
    · rfl
    · simp [dropSemicolon, Token.isPunctuation_eq_decide hClose]
  | cons t ts =>
    by_cases hEnd : t.isPunctuation ";" = true
    · refine ⟨ts, ?_, h.tail_of_mark hEnd (by simp [brackets]), Nat.le_succ _⟩
      simp [dropSemicolon, hEnd]
    · refine ⟨t :: ts, ?_, h, Nat.le_refl _⟩
      simp [dropSemicolon, hEnd]

theorem exists_endsAt {ts : List Token} (h : Harmless ts) (hRest : Closes rest) :
    ∃ head tail, splitDeclaration (ts ++ rest) = .ok (head, tail) ∧ EndsAt rest head ts tail ∧
      Remains rest ts.length (dropSemicolon tail) := by
  obtain ⟨head, after, rfl, hAfter, hTerminated, hSplit⟩ := splitDeclaration_nested h.nested hRest
  have hHarmless := h.part hAfter (List.subset_append_right head after)
  refine ⟨head, after ++ rest, hSplit, ?_, (dropSemicolon_harmless hHarmless hRest).mono ?_⟩
  · rcases hTerminated with rfl | ⟨t, after, rfl, hEnd | hOpen⟩
    · rw [List.append_nil]
      exact .scope
    · exact .semicolon hEnd (hHarmless.tail_of_mark hEnd (by simp [brackets]))
    · obtain ⟨inside, close, after, rfl, hClose, hInside, hMore⟩ := hHarmless.exists_close hOpen
      have hEnds : EndsAt rest head _ _ := .body hOpen hClose hInside hMore
      simpa using hEnds
  · simp

theorem skipFrom_harmless {n : Nat} {passed ts : List Token} (h : Harmless ts)
    (hRest : Closes rest) (hLength : ts.length < n) :
    ∃ us, (∀ steps, n ≤ steps → skipFrom steps passed (ts ++ rest) = .ok us) ∧
      Remains rest (ts.length - 1) us := by
  induction n generalizing passed ts with
  | zero => exact absurd hLength (Nat.not_lt_zero _)
  | succ n ih =>
    obtain ⟨head, tail, hSplit, hEnds, -⟩ := exists_endsAt h hRest
    have hSteps {us : List Token} (hFrom : ∀ steps, n ≤ steps → FromSkip steps passed (ts ++ rest) us)
        (steps : Nat) (hLe : n + 1 ≤ steps) : skipFrom steps passed (ts ++ rest) = .ok us := by
      cases steps with
      | zero => exact absurd hLe (Nat.not_succ_le_zero n)
      | succ steps => exact skipFrom_eq_ok_iff.mpr (hFrom steps (Nat.le_of_succ_le_succ hLe))
    cases hEnds with
    | scope =>
      have hNone : Remains rest (ts.length - 1) rest := ⟨[], rfl, ⟨.nil, by simp⟩, Nat.zero_le _⟩
      rcases hRest with rfl | ⟨t, us, rfl, hClose⟩
      · exact ⟨[], hSteps fun _ _ => .file hSplit, hNone⟩
      · exact ⟨t :: us, hSteps fun _ _ => .scope hSplit hClose, hNone⟩
    | @semicolon t after hEnd hAfter =>
      refine ⟨after ++ rest, hSteps fun _ _ => .semicolon hSplit hEnd, hAfter.remains ?_ rest⟩
      simp only [List.length_append, List.length_cons]
      omega
    | @body opener close inside after hOpen hClose hInside hAfter =>
      have hGroup := closeGroup_nested hInside.nested hOpen hClose (after ++ rest)
      simp only [List.length_append, List.length_cons] at hLength ⊢
      cases hContinues : continuesAfterBody (passed ++ head) with
      | true =>
        obtain ⟨us, hSkip, hRemains⟩ :=
          @ih (passed ++ head ++ opener :: inside ++ [close]) after hAfter (by omega)
        refine ⟨us, hSteps fun steps hLe => ?_, hRemains.mono (by omega)⟩
        exact .goesOn hSplit hOpen hGroup hContinues (hSkip steps hLe)
      | false =>
        exact ⟨_, hSteps fun _ _ => .body hSplit hOpen hGroup hContinues,
          (dropSemicolon_harmless hAfter hRest).mono (by omega)⟩

theorem skip_harmless {ts : List Token} (h : Harmless ts) (hRest : Closes rest) :
    ∃ us, skip (ts ++ rest) = .ok us ∧ Remains rest (ts.length - 1) us := by
  obtain ⟨us, hSkip, hRemains⟩ := @skipFrom_harmless rest (ts.length + 1) [] ts h hRest
    (Nat.lt_succ_self _)
  refine ⟨us, hSkip _ ?_, hRemains⟩
  rw [List.length_append]
  omega

theorem readDeclaration_harmless (member? : Option Member) {ts : List Token} (h : Harmless ts)
    (hRest : Closes rest) :
    ∃ item, readDeclaration member? (ts ++ rest) = .ok item ∧
      Remains rest (ts.length - 1) item.rest := by
  obtain ⟨head, tail, hSplit, hEnds, -⟩ := exists_endsAt h hRest
  cases hEnds with
  | scope =>
    have hNone : Remains rest (ts.length - 1) rest := ⟨[], rfl, ⟨.nil, by simp⟩, Nat.zero_le _⟩
    rcases hRest with rfl | ⟨t, us, rfl, hClose⟩
    · exact ⟨_, readDeclaration_eq_ok_iff.mpr (.file hSplit), hNone⟩
    · exact ⟨_, readDeclaration_eq_ok_iff.mpr (.scope hSplit hClose), hNone⟩
  | @semicolon t after hEnd hAfter =>
    refine ⟨_, readDeclaration_eq_ok_iff.mpr (.semicolon hSplit hEnd), hAfter.remains ?_ rest⟩
    simp only [List.length_append, List.length_cons]
    omega
  | @body opener close inside after hOpen hClose hInside hAfter =>
    have hGroup := closeGroup_nested hInside.nested hOpen hClose (after ++ rest)
    refine ⟨_, readDeclaration_eq_ok_iff.mpr (.body hSplit hOpen hGroup),
      (dropSemicolon_harmless hAfter hRest).mono ?_⟩
    simp only [List.length_append, List.length_cons]
    omega

theorem readUsing_harmless (scope : Scope) (d : Declarations) {keyword : Token} {ts : List Token}
    (h : Harmless (keyword :: ts)) (hOpens : keyword.opens = false) (hRest : Closes rest) :
    ∃ r, readUsing scope d keyword (ts ++ rest) = .ok r ∧ Remains rest ts.length r.rest := by
  have hPass : ∃ r, (skip (keyword :: (ts ++ rest))).map (fun us => (⟨d, us⟩ : Reached)) = .ok r ∧
      Remains rest ts.length r.rest := by
    obtain ⟨us, hSkip, hRemains⟩ := skip_harmless h hRest
    exact ⟨⟨d, us⟩, by rw [← List.cons_append, hSkip]; rfl, hRemains⟩
  have hTs := h.tail hOpens
  unfold readUsing
  simp only
  split
  · next named equals after hCut =>
    split
    · next hAlias =>
      obtain ⟨hNamed, hEquals⟩ := hAlias
      match ts, hTs, hCut with
      | [], _, hCut =>
        rw [List.nil_append] at hCut
        rw [hCut] at hRest
        have hKind := Closes.head hRest
        simp [Token.isPunctuation, hNamed] at hKind
      | [_], _, hCut =>
        rw [List.singleton_append, List.cons.injEq] at hCut
        rw [hCut.2] at hRest
        rw [Token.isPunctuation_eq_decide (Closes.head hRest)] at hEquals
        simp at hEquals
      | _ :: _ :: us, hTs, hCut =>
        simp only [List.cons_append, List.cons.injEq] at hCut
        obtain ⟨rfl, rfl, rfl⟩ := hCut
        have hUs := (hTs.tail (Token.opens_of_kind (by simp [hNamed]))).tail_of_mark hEquals
          (by simp [brackets])
        obtain ⟨target, tail, hSplit, -, hRemains⟩ := exists_endsAt hUs hRest
        refine ⟨_, by rw [hSplit]; rfl, hRemains.mono ?_⟩
        simp only [List.length_cons]
        omega
    · exact hPass
  · exact hPass

theorem readAliases_harmless (scope : Scope) (isEnum : Bool) (a : Aliasing) {ts : List Token}
    (h : Harmless ts) (hRest : Closes rest) :
    ∃ r, readAliases scope isEnum a (ts ++ rest) = .ok r ∧ Remains rest ts.length r.rest := by
  obtain ⟨head, tail, hSplit, -, hRemains⟩ := exists_endsAt h hRest
  exact ⟨_, by rw [readAliases, hSplit]; rfl, hRemains⟩

/-- Whether two body readers read fewer than `n` harmless tokens alike, through the brace that
closes the body. -/
def Agree (readBody readBody' : BodyReader) (n : Nat) : Prop :=
  ∀ (scope : Scope) (name : String) (access : Access) (opener : Token) (d : Declarations)
    {inside : List Token} {close : Token} (after : List Token), Harmless inside →
    close.isPunctuation "\x7d" = true → inside.length < n →
    ∃ body, readBody scope name access opener d (inside ++ close :: after) = .ok body ∧
      readBody' scope name access opener d (inside ++ close :: after) = .ok body ∧
      body.reached.rest = after

section

variable {readBody readBody' : BodyReader} {n : Nat}

theorem readClass_agree (hBody : Agree readBody readBody' n) (scope : Scope) (d : Declarations)
    (keyword : Token) (head : List Token) (opener : Token) {inside : List Token} {close : Token}
    (after : List Token) (hInside : Harmless inside) (hClose : close.isPunctuation "\x7d" = true)
    (hLength : inside.length < n) :
    ∃ r, readClass readBody scope d keyword head opener (inside ++ close :: after) = .ok r ∧
      readClass readBody' scope d keyword head opener (inside ++ close :: after) = .ok r ∧
      r.rest = after := by
  obtain ⟨body, hRead, hRead', hAfter⟩ := hBody scope (className head) (classKind keyword).defaultAccess
    opener d after hInside hClose hLength
  exact ⟨_, readClass_eq_ok_iff.mpr ⟨body, hRead, rfl⟩, readClass_eq_ok_iff.mpr ⟨body, hRead', rfl⟩,
    hAfter⟩

theorem readTypedef_harmless (hBody : Agree readBody readBody' n) (scope : Scope) (d : Declarations)
    {ts : List Token} (h : Harmless ts) (hRest : Closes rest) (hLength : ts.length ≤ n) :
    ∃ r, readTypedef readBody scope d (ts ++ rest) = .ok r ∧
      readTypedef readBody' scope d (ts ++ rest) = .ok r ∧ Remains rest ts.length r.rest := by
  obtain ⟨head, tail, hSplit, hEnds, hPlain⟩ := exists_endsAt h hRest
  by_cases hDefines : DefinesType head tail
  · obtain ⟨keyword, inner, brace, after, rfl, rfl, hWord, hBrace⟩ := hDefines
    obtain ⟨inside, close, more, rfl, rfl, hClose, hInside, hMore⟩ := hEnds.exists_body hRest hBrace
    simp only [List.length_append, List.length_cons] at hLength ⊢
    cases hEnum : keyword.isIdentifier "enum" with
    | true =>
      obtain ⟨r, hAliases, hRemains⟩ := readAliases_harmless scope true
        ⟨d, (inner.reverse.find? fun t => t.kind == .identifier).map (·.text)⟩ hMore hRest
      have hRead (readBody : BodyReader) := readTypedef_enum readBody scope d hSplit hWord hBrace hEnum
      simp only [closeGroup_nested hInside.nested hBrace hClose, bind, Except.bind, hAliases] at hRead
      exact ⟨r, hRead _, hRead _, hRemains.mono (by omega)⟩
    | false =>
      obtain ⟨reached, hClass, hClass', hAfter⟩ := readClass_agree hBody scope d keyword inner brace
        (more ++ rest) hInside hClose (by omega)
      obtain ⟨r, hAliases, hRemains⟩ := readAliases_harmless scope false
        ⟨reached.declarations, if className inner = "" then none else some (className inner)⟩
        hMore hRest
      refine ⟨r, ?_, ?_, hRemains.mono (by omega)⟩
      · rw [readTypedef_class readBody scope d hSplit hWord hBrace hEnum, hClass]
        simpa [bind, Except.bind, hAfter] using hAliases
      · rw [readTypedef_class readBody' scope d hSplit hWord hBrace hEnum, hClass']
        simpa [bind, Except.bind, hAfter] using hAliases
  · rw [readTypedef_plain readBody scope d hSplit hDefines,
      readTypedef_plain readBody' scope d hSplit hDefines]
    exact ⟨_, rfl, rfl, hPlain⟩

theorem tail_remains {ts : List Token} (h : Harmless ts) (hRest : Closes rest) {mark : String}
    (hMark : (ts ++ rest).head?.any (·.isPunctuation mark) = true) (hOther : mark ∉ brackets)
    (hClosing : mark ≠ "\x7d") {m : Nat} (hLength : ts.length ≤ m) :
    Remains rest m (ts ++ rest).tail := by
  cases ts with
  | nil =>
    rcases hRest with rfl | ⟨t, us, rfl, hClose⟩
    · simp at hMark
    · simp [Token.isPunctuation_eq_decide hClose, hClosing.symm] at hMark
  | cons t ts =>
    rw [List.length_cons] at hLength
    refine (h.tail_of_mark hMark hOther).remains ?_ rest
    omega

theorem leaveClass_harmless {ts : List Token} (h : Harmless ts) (hRest : Closes rest) :
    ∃ us, leaveClass (ts ++ rest) = .ok us ∧ Remains rest ts.length us := by
  unfold leaveClass
  split
  · next hEnd =>
    exact ⟨_, rfl, tail_remains h hRest hEnd (by simp [brackets]) (by decide) (Nat.le_refl _)⟩
  · obtain ⟨us, hSkip, hRemains⟩ := skip_harmless h hRest
    exact ⟨us, hSkip, hRemains.mono (Nat.sub_le _ _)⟩

theorem readClassOrDeclaration_harmless (hBody : Agree readBody readBody' n) (scope : Scope)
    (member? : Option Member) (d : Declarations) {keyword : Token} {ts : List Token}
    (h : Harmless (keyword :: ts)) (hRest : Closes rest) (hLength : ts.length ≤ n) :
    ∃ declared r,
      readClassOrDeclaration readBody scope member? d keyword (ts ++ rest) = .ok (declared, r) ∧
        readClassOrDeclaration readBody' scope member? d keyword (ts ++ rest) = .ok (declared, r) ∧
        Remains rest ts.length r.rest := by
  obtain ⟨head, tail, hSplit, hEnds, -⟩ := exists_endsAt h hRest
  rw [List.cons_append] at hSplit
  cases hDefines : definesClass head tail with
  | true =>
    obtain ⟨opener, after, rfl, hOpen⟩ := exists_opener_of_defines hDefines
    obtain ⟨inside, close, more, hCut, rfl, hClose, hInside, hMore⟩ := hEnds.exists_body hRest hOpen
    have hShorter : inside.length < n ∧ more.length ≤ ts.length := by
      have hWhole := congrArg List.length hCut
      simp only [List.length_append, List.length_cons] at hWhole
      omega
    obtain ⟨r, hClass, hClass', hAfter⟩ := readClass_agree hBody scope d keyword head.tail opener
      (more ++ rest) hInside hClose hShorter.1
    obtain ⟨us, hLeave, hRemains⟩ := leaveClass_harmless hMore hRest
    rw [← hAfter] at hLeave
    refine ⟨.nothing, ⟨r.declarations, us⟩, ?_, ?_, hRemains.mono hShorter.2⟩
    · rw [readClassOrDeclaration_of_defines readBody scope member? d hSplit hDefines, hClass]
      simp only [bind, Except.bind, hLeave, pure, Except.pure]
    · rw [readClassOrDeclaration_of_defines readBody' scope member? d hSplit hDefines, hClass']
      simp only [bind, Except.bind, hLeave, pure, Except.pure]
  | false =>
    obtain ⟨item, hItem, hRemains⟩ := readDeclaration_harmless member? h hRest
    rw [List.cons_append] at hItem
    rw [readClassOrDeclaration_of_not readBody scope member? d hSplit hDefines,
      readClassOrDeclaration_of_not readBody' scope member? d hSplit hDefines, hItem]
    exact ⟨item.declared, ⟨d, item.rest⟩, rfl, rfl, hRemains⟩

theorem Form.read_harmless (hBody : Agree readBody readBody' n) {form : Form}
    {passedWords : List String} {t : Token} (hForm : form.Starts passedWords t.text) (scope : Scope)
    (member? : Option Member) (d : Declarations) {ts : List Token} (h : Harmless (t :: ts))
    (hRest : Closes rest) (hLength : ts.length ≤ n) :
    ∃ declared r, form.read readBody scope member? d t (ts ++ rest) = .ok (declared, r) ∧
      form.read readBody' scope member? d t (ts ++ rest) = .ok (declared, r) ∧
      Remains rest ts.length r.rest := by
  cases form with
  | passed =>
    obtain ⟨us, hSkip, hRemains⟩ := skip_harmless h hRest
    rw [List.cons_append] at hSkip
    simp only [Form.read, hSkip]
    exact ⟨.nothing, ⟨d, us⟩, rfl, rfl, hRemains⟩
  | typeAlias =>
    have hUsing : t.text = "using" := hForm
    obtain ⟨r, hRead, hRemains⟩ := readUsing_harmless scope d h
      (Token.opens_of_text (by simp [hUsing, brackets])) hRest
    simp only [Form.read, hRead]
    exact ⟨.nothing, r, rfl, rfl, hRemains⟩
  | template => exact absurd hForm (h.untemplated t List.mem_cons_self)
  | typedef =>
    have hTypedef : t.text = "typedef" := hForm
    obtain ⟨r, hRead, hRead', hRemains⟩ := readTypedef_harmless hBody scope d
      (h.tail (Token.opens_of_text (by simp [hTypedef, brackets]))) hRest hLength
    simp only [Form.read, hRead, hRead']
    exact ⟨.nothing, r, rfl, rfl, hRemains⟩
  | classLike => exact readClassOrDeclaration_harmless hBody scope member? d h hRest hLength
  | plain =>
    obtain ⟨item, hItem, hRemains⟩ := readDeclaration_harmless member? h hRest
    rw [List.cons_append] at hItem
    simp only [Form.read, hItem]
    exact ⟨item.declared, ⟨d, item.rest⟩, rfl, rfl, hRemains⟩

theorem readMember_harmless (hBody : Agree readBody readBody' n) (scope : Scope) (member : Member)
    (d : Declarations) {t : Token} {ts : List Token} (h : Harmless (t :: ts))
    (hRest : Closes rest) (hLength : ts.length ≤ n) :
    ∃ declared r, readMember readBody scope member d t (ts ++ rest) = .ok (declared, r) ∧
      readMember readBody' scope member d t (ts ++ rest) = .ok (declared, r) ∧
      Remains rest ts.length r.rest := by
  obtain ⟨form, hForm⟩ := Form.exists_starts passedMembers t.text
  rw [readMember_eq hForm, readMember_eq hForm]
  exact Form.read_harmless hBody hForm scope (some member) d h hRest hLength

end

theorem of_accessLabel? {t : Token} {ts : List Token} {access : Access}
    (h : accessLabel? t ts = some access) :
    ts.head?.any (·.isPunctuation ":") = true ∧ t.text ∉ brackets := by
  unfold accessLabel? at h
  split at h
  · next hColon =>
    refine ⟨hColon, ?_⟩
    split at h
    · next hText => simp [hText, brackets]
    · split at h
      · next hText => simp [hText, brackets]
      · split at h
        · next hText => simp [hText, brackets]
        · cases h
  · cases h

theorem closes_cons {close : Token} (hClose : close.isPunctuation "\x7d" = true)
    (after : List Token) : Closes (close :: after) :=
  .inr ⟨close, after, rfl, hClose⟩

/-- Each step takes at least one of the tokens inside, and the last one the brace: more steps than
tokens never run out. -/
theorem readMembers_agree {steps steps' : Nat} (scope : Scope) (name : String) (opener : Token)
    (access : Access) (members : Members) (d : Declarations) {inside : List Token} {close : Token}
    (after : List Token) (h : Harmless inside) (hClose : close.isPunctuation "\x7d" = true)
    (hSteps : inside.length < steps) (hSteps' : inside.length < steps') :
    ∃ body, readMembers steps scope name opener access members d (inside ++ close :: after) =
        .ok body ∧
      readMembers steps' scope name opener access members d (inside ++ close :: after) = .ok body ∧
      body.reached.rest = after := by
  induction steps generalizing steps' scope name opener access members d inside close after with
  | zero => exact absurd hSteps (Nat.not_lt_zero _)
  | succ steps ih =>
    obtain ⟨steps', rfl⟩ := Nat.exists_eq_succ_of_ne_zero (Nat.ne_zero_of_lt hSteps')
    have hRest := closes_cons hClose after
    cases inside with
    | nil =>
      refine ⟨⟨members, close, ⟨d, after⟩⟩, ?_, ?_, rfl⟩
      · simp [readMembers, hClose]
      · simp [readMembers, hClose]
    | cons t ts =>
      rw [List.length_cons] at hSteps hSteps'
      have hLength : ts.length < steps := Nat.lt_of_succ_lt_succ hSteps
      have hLength' : ts.length < steps' := Nat.lt_of_succ_lt_succ hSteps'
      have hNext (name : String) (access : Access) (members : Members) (d : Declarations)
          {us : List Token} (hRemains : Remains (close :: after) ts.length us) :
          ∃ body, readMembers steps scope name opener access members d us = .ok body ∧
            readMembers steps' scope name opener access members d us = .ok body ∧
            body.reached.rest = after := by
        obtain ⟨more, rfl, hMore, hShorter⟩ := hRemains
        exact ih scope name opener access members d after hMore hClose (by omega) (by omega)
      obtain ⟨part, hPart⟩ := BodyPart.exists_starts t (ts ++ close :: after)
      rw [List.cons_append, readMembers_eq hPart, readMembers_eq hPart]
      cases part with
      | close =>
        have hCloses := hPart.symm.trans h.nested.not_closes
        cases hCloses
      | semicolon =>
        exact hNext name access members d
          ((h.tail_of_mark hPart.2 (by simp [brackets])).remains (Nat.le_refl _) _)
      | label label =>
        obtain ⟨hColon, hOther⟩ := of_accessLabel? hPart.2.2
        exact hNext name label members d (tail_remains (h.tail (Token.opens_of_text hOther)) hRest
          hColon (by simp [brackets]) (by decide) (Nat.le_refl _))
      | member =>
        have hBody : Agree (bodyReader steps) (bodyReader steps') (min steps steps') := by
          intro scope name access opener d inside close after hInside hClose hShorter
          exact ih (scope ++ [name]) name opener access Members.empty d after hInside hClose
            (by omega) (by omega)
        obtain ⟨declared, r, hRead, hRead', hRemains⟩ := readMember_harmless hBody scope
          ⟨name, access⟩ d h hRest (by omega)
        simp only [BodyPart.read, hRead, hRead']
        exact hNext name access (members.add t.line declared) r.declarations hRemains

theorem readBody_agree (n : Nat) : Agree readBody readBody n := by
  intro scope name access opener d inside close after hInside hClose hLength
  have hSteps : inside.length < (inside ++ close :: after).length + 1 := by
    rw [List.length_append]
    omega
  exact readMembers_agree (scope ++ [name]) name opener access Members.empty d after hInside hClose
    hSteps hSteps

theorem dropWhile_harmless {ts : List Token} (h : Harmless ts) (hRest : Closes rest) :
    Remains rest ts.length ((ts ++ rest).dropWhile inNamespaceName) := by
  induction ts with
  | nil =>
    refine ⟨[], ?_, h, Nat.le_refl _⟩
    rcases hRest with rfl | ⟨t, us, rfl, hClose⟩
    · rfl
    · have hKind : t.kind = .punctuation := by
        simp only [Token.isPunctuation, Bool.and_eq_true, beq_iff_eq] at hClose
        exact hClose.1
      simp [inNamespaceName, hKind, Token.isPunctuation_eq_decide hClose]
  | cons t ts ih =>
    rw [List.cons_append, List.dropWhile_cons]
    split
    · next hName =>
      have hOther : t.opens = false := by
        rw [inNamespaceName, Bool.or_eq_true, beq_iff_eq] at hName
        rcases hName with hName | hName
        · exact Token.opens_of_kind (by simp [hName])
        · exact Token.opens_of_text (by simp [Token.text_of_isPunctuation hName, brackets])
      exact (ih (h.tail hOther)).mono (Nat.le_succ _)
    · exact h.remains (Nat.le_refl _) rest

def ScopesAgree (readInner readInner' : Scope → Token → Declarations → List Token → Outcome Reached)
    (n : Nat) : Prop :=
  ∀ (scope : Scope) (opener : Token) (d : Declarations) {inside : List Token} {close : Token}
    (after : List Token), Harmless inside → close.isPunctuation "\x7d" = true →
    inside.length < n →
    ∃ r, readInner scope opener d (inside ++ close :: after) = .ok r ∧
      readInner' scope opener d (inside ++ close :: after) = .ok r ∧ r.rest = after

section

variable {readInner readInner' : Scope → Token → Declarations → List Token → Outcome Reached}
  {n : Nat}

theorem readInner_harmless (hInner : ScopesAgree readInner readInner' n) (scope : Scope)
    (d : Declarations) {opener : Token} {ts : List Token} (h : Harmless (opener :: ts))
    (hOpen : opener.isPunctuation "\x7b" = true) (hLength : ts.length ≤ n) :
    ∃ r, readInner scope opener d (ts ++ rest) = .ok r ∧
      readInner' scope opener d (ts ++ rest) = .ok r ∧ Remains rest ts.length r.rest := by
  obtain ⟨inside, close, after, rfl, hClose, hInside, hAfter⟩ := h.exists_close hOpen
  simp only [List.length_append, List.length_cons] at hLength
  obtain ⟨r, hRead, hRead', hRest⟩ := hInner scope opener d (after ++ rest) hInside hClose (by omega)
  refine ⟨r, by simpa using hRead, by simpa using hRead', ?_⟩
  rw [hRest]
  refine hAfter.remains ?_ rest
  simp only [List.length_append, List.length_cons]
  omega

theorem exists_linkage {language opener : Token} {ts after : List Token} (hRest : Closes rest)
    (hCut : ts ++ rest = language :: opener :: after) (hString : language.kind = .string)
    (hOpen : opener.isPunctuation "\x7b" = true) :
    ∃ more, ts = language :: opener :: more ∧ after = more ++ rest := by
  match ts, hCut with
  | [], hCut =>
    rw [List.nil_append] at hCut
    rw [hCut] at hRest
    have hKind := Closes.head hRest
    simp [Token.isPunctuation, hString] at hKind
  | [_], hCut =>
    rw [List.singleton_append, List.cons.injEq] at hCut
    rw [hCut.2] at hRest
    rw [Token.isPunctuation_eq_decide (Closes.head hRest)] at hOpen
    simp at hOpen
  | _ :: _ :: more, hCut =>
    simp only [List.cons_append, List.cons.injEq] at hCut
    obtain ⟨rfl, rfl, rfl⟩ := hCut
    exact ⟨more, rfl, rfl⟩

theorem IsItem.inner_harmless {t opener : Token} {ts after : List Token} {names : List String}
    (hItem : IsItem t (ts ++ rest) (.inner names opener after)) (h : Harmless (t :: ts))
    (hRest : Closes rest) :
    ∃ more, after = more ++ rest ∧ Harmless (opener :: more) ∧ more.length < ts.length := by
  cases hItem with
  | space hWord hName hOpen =>
    have hTs := h.tail (Token.opens_of_text (by simp [hWord, brackets]))
    obtain ⟨more, hDrop, hMore, hShorter⟩ := dropWhile_harmless hTs hRest
    rw [hDrop] at hName
    cases more with
    | nil =>
      rw [List.nil_append] at hName
      rw [hName] at hRest
      rw [Token.isPunctuation_eq_decide (Closes.head hRest)] at hOpen
      simp at hOpen
    | cons _ more =>
      obtain ⟨rfl, rfl⟩ := List.cons.inj hName
      exact ⟨more, rfl, hMore, hShorter⟩
  | linkage hWord hCut hString hOpen =>
    have hTs := h.tail (Token.opens_of_text (by simp [hWord, brackets]))
    obtain ⟨more, rfl, rfl⟩ := exists_linkage hRest hCut hString hOpen
    refine ⟨more, rfl, hTs.tail (Token.opens_of_kind (by simp [hString])), ?_⟩
    simp only [List.length_cons]
    omega

theorem readItem_harmless (hInner : ScopesAgree readInner readInner' n) (scope : Scope)
    (d : Declarations) {t : Token} {ts : List Token} (h : Harmless (t :: ts)) (hRest : Closes rest)
    (hLength : ts.length ≤ n) :
    ∃ r, readItem readInner scope d t (ts ++ rest) = .ok r ∧
      readItem readInner' scope d t (ts ++ rest) = .ok r ∧ Remains rest ts.length r.rest := by
  obtain ⟨form, hForm⟩ := exists_isItem t (ts ++ rest)
  rw [readItem_eq hForm, readItem_eq hForm]
  cases form with
  | inner names opener after =>
    obtain ⟨more, rfl, hMore, hShorter⟩ := hForm.inner_harmless h hRest
    obtain ⟨r, hRead, hRead', hRemains⟩ := readInner_harmless hInner (scope ++ names) d hMore
      hForm.isPunctuation_opener (by omega)
    exact ⟨r, hRead, hRead', hRemains.mono (by omega)⟩
  | bodiless passed =>
    cases hForm with
    | bodiless hWord _ =>
      have hTs := h.tail (Token.opens_of_text (by simp [hWord, brackets]))
      obtain ⟨more, hDrop, hMore, hShorter⟩ := dropWhile_harmless hTs hRest
      obtain ⟨us, hSkip, hRemains⟩ := skip_harmless hMore hRest
      simp only [ItemForm.read, hDrop, hSkip]
      exact ⟨⟨d, us⟩, rfl, rfl, hRemains.mono (by omega)⟩
  | inlineSpace =>
    cases hForm with
    | inlineSpace hWord _ =>
      have hTs := h.tail (Token.opens_of_text (by simp [hWord, brackets]))
      exact ⟨⟨d, ts ++ rest⟩, rfl, rfl, hTs.remains (Nat.le_refl _) rest⟩
  | shared form =>
    obtain ⟨declared, r, hRead, -, hRemains⟩ :=
      Form.read_harmless (readBody_agree n) hForm.starts scope none d h hRest hLength
    simp only [ItemForm.read, hRead]
    refine ⟨form.record scope declared r, rfl, rfl, ?_⟩
    rw [form.record_rest]
    exact hRemains

end

/-- Where the scope that an opening brace may have started ends, and what follows it. -/
inductive EndOfScope : Option Token → List Token → List Token → Prop
  | file : EndOfScope none [] []
  | brace {opener close : Token} (after : List Token) : close.isPunctuation "\x7d" = true →
    EndOfScope (some opener) (close :: after) after

theorem EndOfScope.closes {opener? : Option Token} {after : List Token}
    (h : EndOfScope opener? rest after) : Closes rest := by
  cases h with
  | file => exact .inl rfl
  | brace after hClose => exact closes_cons hClose after

/-- Each step takes at least one of the tokens inside, and the last one the end of the scope: more
steps than tokens never run out. -/
theorem readScope_agree {steps steps' : Nat} (scope : Scope) {opener? : Option Token}
    (d : Declarations) {inside after : List Token} (h : Harmless inside)
    (hEnd : EndOfScope opener? rest after) (hSteps : inside.length < steps)
    (hSteps' : inside.length < steps') :
    ∃ r, readScope steps scope opener? d (inside ++ rest) = .ok r ∧
      readScope steps' scope opener? d (inside ++ rest) = .ok r ∧ r.rest = after := by
  induction steps generalizing steps' scope opener? d inside rest after with
  | zero => exact absurd hSteps (Nat.not_lt_zero _)
  | succ steps ih =>
    obtain ⟨steps', rfl⟩ := Nat.exists_eq_succ_of_ne_zero (Nat.ne_zero_of_lt hSteps')
    cases inside with
    | nil =>
      cases hEnd with
      | file => exact ⟨⟨d, []⟩, rfl, rfl, rfl⟩
      | brace after hClose =>
        refine ⟨⟨d, after⟩, ?_, ?_, rfl⟩
        · simp [readScope, hClose]
        · simp [readScope, hClose]
    | cons t ts =>
      rw [List.length_cons] at hSteps hSteps'
      have hLength : ts.length < steps := Nat.lt_of_succ_lt_succ hSteps
      have hLength' : ts.length < steps' := Nat.lt_of_succ_lt_succ hSteps'
      have hNext (d : Declarations) {us : List Token} (hRemains : Remains rest ts.length us) :
          ∃ r, readScope steps scope opener? d us = .ok r ∧
            readScope steps' scope opener? d us = .ok r ∧ r.rest = after := by
        obtain ⟨more, rfl, hMore, hShorter⟩ := hRemains
        exact ih scope d hMore hEnd (by omega) (by omega)
      obtain ⟨part, hPart⟩ := ScopePart.exists_starts t
      rw [List.cons_append, readScope_eq hPart, readScope_eq hPart]
      cases part with
      | close =>
        have hCloses := hPart.symm.trans h.nested.not_closes
        cases hCloses
      | semicolon =>
        exact hNext d ((h.tail_of_mark hPart.2 (by simp [brackets])).remains (Nat.le_refl _) _)
      | group =>
        have hOpen := hPart.2.2
        obtain ⟨inside, close, more, rfl, hClose, hInside, hMore⟩ := h.exists_close hOpen
        simp only [ScopePart.read, List.append_assoc, List.cons_append,
          closeGroup_nested hInside.nested hOpen hClose (more ++ rest)]
        refine hNext d (hMore.remains ?_ rest)
        simp only [List.length_append, List.length_cons]
        omega
      | item =>
        have hInner : ScopesAgree
            (fun scope opener d ts => readScope steps scope (some opener) d ts)
            (fun scope opener d ts => readScope steps' scope (some opener) d ts)
            (min steps steps') := by
          intro scope opener d inside close after hInside hClose hShorter
          exact ih scope d hInside (.brace after hClose) (by omega) (by omega)
        obtain ⟨r, hRead, hRead', hRemains⟩ := readItem_harmless hInner scope d h hEnd.closes
          (by omega)
        simp only [ScopePart.read, hRead, hRead']
        exact hNext r.declarations hRemains

def stars (ts : List Token) : Nat :=
  (ts.filter (·.isPunctuation "*")).length

theorem separate_pointerDepth (depth : Nat) (marks : TypeExpr.Marks) (base ts : List Token) :
    (TypeExpr.separate depth marks base ts).1.pointerDepth ≤ marks.pointerDepth + stars ts := by
  induction ts generalizing depth marks base with
  | nil => exact Nat.le_add_right _ _
  | cons t ts ih =>
    have hStars : stars ts ≤ stars (t :: ts) :=
      ((List.sublist_cons_self t ts).filter _).length_le
    have hPass (depth : Nat) (marks' : TypeExpr.Marks) (base : List Token)
        (hSame : marks'.pointerDepth = marks.pointerDepth) :
        (TypeExpr.separate depth marks' base ts).1.pointerDepth ≤
          marks.pointerDepth + stars (t :: ts) := by
      have hInner := ih depth marks' base
      omega
    unfold TypeExpr.separate
    split
    · exact hPass _ _ _ rfl
    · split
      · exact hPass _ _ _ rfl
      · split
        · exact hPass _ _ _ rfl
        · split
          · exact hPass _ _ _ rfl
          · split
            · exact hPass _ _ _ rfl
            · split
              · next hStar =>
                refine Nat.le_trans (ih _ _ _) ?_
                have hCount : stars (t :: ts) = stars ts + 1 := by simp [stars, hStar]
                simp only [hCount]
                omega
              · split
                · exact hPass _ _ _ rfl
                · split
                  · exact hPass _ _ _ rfl
                  · exact hPass _ _ _ rfl

theorem ofTokens_pointerDepth (ts : List Token) :
    (TypeExpr.ofTokens ts).pointerDepth ≤ stars ts := by
  have hDepth := separate_pointerDepth 0 ⟨false, 0, false⟩ [] ts
  rw [Nat.zero_add] at hDepth
  unfold TypeExpr.ofTokens TypeExpr.ofTokensWithin
  exact hDepth

/-- Nested tokens are read whole whatever they are, in as many steps as there are tokens and one
more, and no depth of pointers on the way leaves its byte. -/
theorem read_of_nested (files : List Source.File) {ts : List Token} (hNested : Nested ts)
    (hUntemplated : ∀ t ∈ ts, t.text ≠ "template")
    (hStars : (ts.filter (·.isPunctuation "*")).length < 255) :
    ∃ d, read files ts = .ok d ∧
      (∀ steps, ts.length < steps →
        readScope steps [] none Declarations.empty ts = .ok ⟨d, []⟩) ∧
      ∀ part, part.Sublist ts →
        TypeExpr.addDepths (TypeExpr.ofTokens part).pointerDepth 1 =
          (TypeExpr.ofTokens part).pointerDepth + 1 := by
  have hHarmless : Harmless ts := ⟨hNested, hUntemplated⟩
  have hAgree {steps : Nat} (hSteps : ts.length < steps) :=
    readScope_agree [] Declarations.empty hHarmless .file (Nat.lt_succ_self _) hSteps
  simp only [List.append_nil] at hAgree
  obtain ⟨r, hRead, -, -⟩ := hAgree (Nat.lt_succ_self _)
  refine ⟨r.declarations, ?_, ?_, ?_⟩
  · rw [read, hRead]
  · intro steps hSteps
    obtain ⟨r', hRead', hSame, hRest⟩ := hAgree hSteps
    rw [hRead] at hRead'
    cases hRead'
    rw [hSame, ← hRest]
  · intro part hPart
    have hFewer : stars part ≤ stars ts := (hPart.filter _).length_le
    have hDepth := ofTokens_pointerDepth part
    have hAll : stars ts < 255 := hStars
    rw [TypeExpr.addDepths, TypeExpr.maxPointerDepth]
    omega

theorem read_unfinished :
    let ts : List Token := [
      ⟨.identifier, "using", ⟨0, 0, 5⟩, 1⟩, ⟨.punctuation, "*", ⟨0, 6, 7⟩, 1⟩,
      ⟨.punctuation, "\x7b", ⟨0, 8, 9⟩, 1⟩, ⟨.identifier, "struct", ⟨0, 9, 15⟩, 1⟩,
      ⟨.punctuation, ">", ⟨0, 16, 17⟩, 1⟩, ⟨.punctuation, "\x7d", ⟨0, 17, 18⟩, 1⟩,
      ⟨.identifier, "typedef", ⟨0, 19, 26⟩, 1⟩]
    Token.lex 0 "t.cpp" "using * \x7bstruct >\x7d typedef" = .ok ts ∧ Nested ts ∧
      (∀ t ∈ ts, t.text ≠ "template") ∧ (ts.filter (·.isPunctuation "*")).length < 255 ∧
      ∃ d, read [] ts = .ok d := by
  intro ts
  have hNested : Nested ts :=
    .plain rfl (.plain rfl (.group (by decide) (by decide) (by decide)
      (.plain rfl (.plain rfl .nil)) (.plain rfl .nil)))
  have hUntemplated : ∀ t ∈ ts, t.text ≠ "template" := by decide
  have hStars : (ts.filter (·.isPunctuation "*")).length < 255 := by decide
  obtain ⟨d, hRead, -⟩ := read_of_nested [] hNested hUntemplated hStars
  exact ⟨eq_ok_of_toOption (by decide +kernel), hNested, hUntemplated, hStars, d, hRead⟩

/-- A directive whose word is that of a template is taken for one. -/
theorem template_directive_not_read :
    let ts : List Token :=
      [⟨.directive, "template", ⟨0, 0, 9⟩, 1⟩, ⟨.punctuation, "<", ⟨0, 10, 11⟩, 2⟩]
    Token.lex 0 "t.cpp" "#template\n<" = .ok ts ∧ Nested ts ∧
      (∀ t ∈ ts, ¬t.isIdentifier "template") ∧ (ts.filter (·.isPunctuation "*")).length < 255 ∧
      ¬∃ d, read [] ts = .ok d := by
  intro ts
  refine ⟨?_, ?_, ?_, ?_, ?_⟩
  · exact eq_ok_of_toOption (by decide +kernel)
  · exact .plain rfl (.plain rfl .nil)
  · decide
  · decide
  · rintro ⟨d, hRead⟩
    have hFails : (read [] ts).toOption = none := by decide +kernel
    rw [hRead] at hFails
    cases hFails

end SkeletonWeave.Declaration
