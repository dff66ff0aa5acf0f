import SkeletonWeave.Declaration.Reader
import SkeletonWeave.Proofs.Results

/-!
# What declarations take

A declaration takes tokens from the front of a stream and leaves the rest as it
is. Of a function it keeps the name and the two braces around its body, which stand
among the tokens that it takes.
-/

set_option autoImplicit false

namespace SkeletonWeave

theorem Token.closeGroupFrom?_eq_some {opener : String} {depth : Nat}
    {passed ts group rest : List Token} {close : Token}
    (h : closeGroupFrom? opener depth passed ts = some (group, close, rest)) :
    ∃ inside, group = passed.reverse ++ inside ∧ ts = inside ++ close :: rest := by
  have hStep {passed ts : List Token} {t : Token} (hRest : ∃ inside,
      group = (t :: passed).reverse ++ inside ∧ ts = inside ++ close :: rest) :
      ∃ inside, group = passed.reverse ++ inside ∧ t :: ts = inside ++ close :: rest := by
    obtain ⟨inside, hGroup, rfl⟩ := hRest
    refine ⟨t :: inside, ?_, rfl⟩
    rw [hGroup, List.reverse_cons, List.append_assoc]
    rfl
  fun_induction closeGroupFrom? opener depth passed ts with
  | case1 => cases h
  | case2 depth passed t ts _ ih => exact hStep (ih h)
  | case3 passed t ts _ _ =>
    cases h
    exact ⟨[], by simp, rfl⟩
  | case4 passed t ts _ _ depth ih => exact hStep (ih h)
  | case5 depth passed t ts _ _ ih => exact hStep (ih h)

theorem Token.text_of_isPunctuation {t : Token} {text : String} (h : t.isPunctuation text = true) :
    t.text = text := by
  simp only [isPunctuation, Bool.and_eq_true, beq_iff_eq] at h
  exact h.2

theorem Token.isPunctuation_eq_decide {t : Token} {text : String} (h : t.isPunctuation text = true)
    (other : String) : t.isPunctuation other = decide (text = other) := by
  simp only [isPunctuation, Bool.and_eq_true, beq_iff_eq] at h
  obtain ⟨hKind, rfl⟩ := h
  rw [isPunctuation, hKind]
  rfl

def Method.braces (m : Method) : List Source.Span :=
  match m.body? with
  | some body => [body.opening, body.closing]
  | none => []

namespace Declarator

def Declared.braces : Declared → List Source.Span
  | .method m => m.braces
  | _ => []

theorem readFields_braces (head : List Token) (access : Access) :
    (readFields head access).braces = [] := by
  unfold readFields
  simp only
  split <;> rfl

theorem readMethod_braces (before : List Token) (name : Token) (rest : List Token)
    (member? : Option Member) : (readMethod before name rest member?).braces = [] := by
  unfold readMethod
  simp only
  repeat' split
  all_goals rfl

theorem readPointerField_braces (head : List Token) (member? : Option Member) :
    (readPointerField head member?).braces = [] := by
  unfold readPointerField
  split <;> rfl

theorem classify_braces (head : List Token) (member? : Option Member) :
    (classify head member?).braces = [] := by
  unfold classify
  repeat' split
  all_goals
    first
    | rfl
    | exact readFields_braces _ _
    | exact readMethod_braces _ _ _ _
    | exact readPointerField_braces _ _

theorem dropGroup_suffix (opener : String) (ts : List Token) : dropGroup opener ts <:+ ts := by
  unfold dropGroup
  split
  · next inside close rest hFound =>
    obtain ⟨_, -, rfl⟩ := Token.closeGroupFrom?_eq_some hFound
    exact (List.suffix_cons close rest).trans (List.suffix_append _ _)
  · exact List.nil_suffix

theorem clean_sublist (ts : List Token) : (clean ts).Sublist ts := by
  fun_induction clean ts with
  | case1 => exact .slnil
  | case2 t => exact .refl _
  | case3 t u rest _ ih => exact ((ih.trans (dropGroup_suffix "(" rest).sublist).cons u).cons t
  | case4 t u rest _ _ ih => exact (ih.trans (dropGroup_suffix "[" (u :: rest)).sublist).cons t
  | case5 t u rest _ _ ih => exact ih.cons_cons t

theorem splitAtParams_eq_some {angles : Nat} {passed ts before rest : List Token}
    (h : splitAtParams angles passed ts = some (before, rest)) :
    ∃ taken opener, before = passed.reverse ++ taken ∧ ts = taken ++ opener :: rest := by
  have hStep {passed ts : List Token} {t : Token} (hRest : ∃ taken opener,
      before = (t :: passed).reverse ++ taken ∧ ts = taken ++ opener :: rest) :
      ∃ taken opener, before = passed.reverse ++ taken ∧ t :: ts = taken ++ opener :: rest := by
    obtain ⟨taken, opener, rfl, rfl⟩ := hRest
    exact ⟨t :: taken, opener, by simp, rfl⟩
  fun_induction splitAtParams angles passed ts with
  | case1 => cases h
  | case2 angles passed t ts _ ih => exact hStep (ih h)
  | case3 angles passed t ts _ _ ih => exact hStep (ih h)
  | case4 angles passed t ts =>
    cases h
    exact ⟨[], t, by simp, rfl⟩
  | case5 angles passed t ts _ _ _ ih => exact hStep (ih h)

theorem nameSpan_of_readMethod {before rest : List Token} {name : Token} {member? : Option Member}
    {m : Method} (h : readMethod before name rest member? = .method m) : m.nameSpan = name.span := by
  unfold readMethod at h
  extract_lets isDestructor start result kind at h
  split at h
  · cases h
  · split at h
    · cases h
    · extract_lets qualifiers method at h
      split at h
      · split at h
        · cases h
          rfl
        · cases h
      · cases h
        rfl

theorem exists_name_of_classify {head : List Token} {member? : Option Member} {m : Method}
    (h : classify head member? = .method m) : ∃ name ∈ head, m.nameSpan = name.span := by
  unfold classify at h
  split at h
  · cases h
  · split at h
    · split at h
      · unfold readFields at h
        simp only at h
        split at h
        · cases h
        · cases h
      · cases h
    · next before rest hParams =>
      obtain ⟨taken, opener, rfl, rfl⟩ := splitAtParams_eq_some hParams
      split at h
      · unfold readPointerField at h
        split at h
        · cases h
        · cases h
      · split at h
        · next name hName =>
          split at h
          · refine ⟨name, ?_, nameSpan_of_readMethod h⟩
            exact List.mem_append_left _ (by simpa using List.mem_of_getLast? hName)
          · cases h
        · cases h

end Declarator

namespace Declaration

open Declarator (Declared Member)

theorem closeGroup_eq_ok {opener close : Token} {ts inside rest : List Token}
    (h : closeGroup opener ts = .ok (inside, close, rest)) : ts = inside ++ close :: rest := by
  unfold closeGroup at h
  split at h
  · next hFound =>
    cases h
    obtain ⟨_, rfl, hCut⟩ := Token.closeGroupFrom?_eq_some hFound
    exact hCut
  · cases h

theorem Extent.passOutside_passed (e : Extent) (t : Token) :
    (e.passOutside t).passed = t :: e.passed := by
  unfold passOutside
  split <;> rfl

/-- The extent after a token, unless the declaration ends before it. -/
def Extent.next? (e : Extent) (t : Token) : Option Extent :=
  match e.group? with
  | some g => some (e.passInside g t)
  | none => if e.endsAt t then none else some (e.passOutside t)

theorem Extent.split_cons (e : Extent) (t : Token) (ts : List Token) :
    e.split (t :: ts) =
      match e.next? t with
      | some next => next.split ts
      | none => .ok (e.passed.reverse, t :: ts) := by
  rw [split, next?]
  cases e.group? with
  | some g => rfl
  | none =>
    simp only
    split <;> rfl

theorem Extent.next?_passed {e next : Extent} {t : Token} (h : e.next? t = some next) :
    next.passed = t :: e.passed := by
  unfold next? at h
  split at h
  · cases h
    rfl
  · split at h
    · cases h
    · cases h
      exact e.passOutside_passed t

theorem Extent.endsAt_of_next? {e : Extent} {t : Token} (h : e.next? t = none) :
    e.endsAt t = true := by
  unfold next? at h
  split at h
  · cases h
  · split at h
    · next hEnds => exact hEnds
    · cases h

theorem Extent.split_eq_ok {e : Extent} {ts head rest : List Token}
    (h : e.split ts = .ok (head, rest)) :
    ∃ taken, head = e.passed.reverse ++ taken ∧ ts = taken ++ rest := by
  induction ts generalizing e with
  | nil =>
    unfold split at h
    split at h
    · cases h
    · cases h
      exact ⟨[], by simp, rfl⟩
  | cons t ts ih =>
    rw [split_cons] at h
    cases hNext : e.next? t with
    | none =>
      rw [hNext] at h
      cases h
      exact ⟨[], by simp, rfl⟩
    | some next =>
      rw [hNext] at h
      obtain ⟨taken, hHead, rfl⟩ := ih h
      refine ⟨t :: taken, ?_, rfl⟩
      rw [hHead, next?_passed hNext, List.reverse_cons, List.append_assoc]
      rfl

theorem splitDeclaration_eq_ok {ts head rest : List Token}
    (h : splitDeclaration ts = .ok (head, rest)) : ts = head ++ rest := by
  obtain ⟨taken, rfl, hCut⟩ := Extent.split_eq_ok h
  exact hCut

theorem Extent.split_ends {e : Extent} {ts head after : List Token} {t : Token}
    (h : e.split ts = .ok (head, t :: after)) :
    t.isPunctuation ";" = true ∨ t.isPunctuation "\x7d" = true ∨ t.isPunctuation "\x7b" = true := by
  induction ts generalizing e with
  | nil =>
    unfold split at h
    split at h
    · cases h
    · cases h
  | cons u ts ih =>
    rw [split_cons] at h
    cases hNext : e.next? u with
    | some next =>
      rw [hNext] at h
      exact ih h
    | none =>
      rw [hNext] at h
      cases h
      have hEnds := endsAt_of_next? hNext
      simp only [endsAt, Bool.or_eq_true, Bool.and_eq_true] at hEnds
      rcases hEnds with (hSemicolon | hClose) | hOpen
      · exact .inl hSemicolon
      · exact .inr (.inl hClose)
      · exact .inr (.inr hOpen.1)

theorem dropSemicolon_suffix (ts : List Token) : dropSemicolon ts <:+ ts := by
  unfold dropSemicolon
  split
  · exact List.suffix_refl _
  · split
    · exact List.suffix_cons _ _
    · exact List.suffix_refl _

/-- Whether tokens are what a reader leaves of those from the end of a declaration on: fewer of them,
or all from the brace on that closes the scope. -/
def LeftOver (after rest : List Token) : Prop :=
  rest <:+ after.tail ∨ rest = after ∧ after.head?.any (·.isPunctuation "\x7d") = true

theorem LeftOver.suffix {after rest : List Token} (h : LeftOver after rest) : rest <:+ after := by
  rcases h with h | ⟨rfl, -⟩
  · exact h.trans (List.tail_suffix after)
  · exact List.suffix_refl _

theorem LeftOver.of_group {opener close : Token} {after inside later rest : List Token}
    (hGroup : closeGroup opener after = .ok (inside, close, later)) (hRest : rest <:+ later) :
    LeftOver (opener :: after) rest := by
  obtain rfl := closeGroup_eq_ok hGroup
  exact .inl (hRest.trans ⟨inside ++ [close], by simp⟩)

theorem LeftOver.head_prefix {ts taken head after rest : List Token} (h : LeftOver after rest)
    (hSplit : splitDeclaration ts = .ok (head, after)) (hTaken : ts = taken ++ rest) :
    head <+: taken := by
  obtain ⟨own, rfl⟩ := h.suffix
  rw [splitDeclaration_eq_ok hSplit, ← List.append_assoc] at hTaken
  exact ⟨own, List.append_cancel_right hTaken⟩

theorem LeftOver.suffix_tail {t : Token} {ts head after rest : List Token} (h : LeftOver after rest)
    (hSplit : splitDeclaration (t :: ts) = .ok (head, after))
    (hNot : t.isPunctuation "\x7d" = false) : rest <:+ ts := by
  have hCut := splitDeclaration_eq_ok hSplit
  cases head with
  | nil =>
    obtain rfl : t :: ts = after := hCut
    rcases h with hTail | ⟨-, hClose⟩
    · exact hTail
    · rw [List.head?_cons, Option.any_some, hNot] at hClose
      cases hClose
  | cons u head =>
    obtain ⟨-, rfl⟩ := List.cons.inj hCut
    exact h.suffix.trans (List.suffix_append head after)

/-- Whether a declaration that is passed over leaves some tokens, told by what ends it. The last two
are for a body, after which it goes on or does not. -/
inductive FromSkip (steps : Nat) (passed ts : List Token) : List Token → Prop
  | file {head : List Token} (hSplit : splitDeclaration ts = .ok (head, [])) :
    FromSkip steps passed ts []
  | semicolon {semicolon : Token} {head after : List Token}
    (hSplit : splitDeclaration ts = .ok (head, semicolon :: after))
    (hSemicolon : semicolon.isPunctuation ";" = true) : FromSkip steps passed ts after
  | scope {close : Token} {head after : List Token}
    (hSplit : splitDeclaration ts = .ok (head, close :: after))
    (hClose : close.isPunctuation "\x7d" = true) : FromSkip steps passed ts (close :: after)
  | goesOn {opener close : Token} {head after inside later rest : List Token}
    (hSplit : splitDeclaration ts = .ok (head, opener :: after))
    (hOpen : opener.isPunctuation "\x7b" = true)
    (hGroup : closeGroup opener after = .ok (inside, close, later))
    (hContinues : continuesAfterBody (passed ++ head) = true)
    (hRest : skipFrom steps (passed ++ head ++ opener :: inside ++ [close]) later = .ok rest) :
    FromSkip steps passed ts rest
  | body {opener close : Token} {head after inside later : List Token}
    (hSplit : splitDeclaration ts = .ok (head, opener :: after))
    (hOpen : opener.isPunctuation "\x7b" = true)
    (hGroup : closeGroup opener after = .ok (inside, close, later))
    (hContinues : continuesAfterBody (passed ++ head) = false) :
    FromSkip steps passed ts (dropSemicolon later)

theorem skipFrom_eq_ok_iff {steps : Nat} {passed ts rest : List Token} :
    skipFrom (steps + 1) passed ts = .ok rest ↔ FromSkip steps passed ts rest := by
  constructor
  · intro h
    rw [skipFrom, bind_eq_ok] at h
    obtain ⟨⟨head, _ | ⟨t, after⟩⟩, hSplit, h⟩ := h
    · cases h
      exact .file hSplit
    · rcases Extent.split_ends hSplit with hMark | hMark | hMark
      · simp only [hMark, if_true] at h
        cases h
        exact .semicolon hSplit hMark
      · simp only [Token.isPunctuation_eq_decide hMark] at h
        cases h
        exact .scope hSplit hMark
      · simp only [Token.isPunctuation_eq_decide hMark] at h
        obtain ⟨⟨inside, close, later⟩, hGroup, h⟩ := bind_eq_ok.mp h
        cases hContinues : continuesAfterBody (passed ++ head) with
        | true =>
          simp only [hContinues, if_true] at h
          exact .goesOn hSplit hMark hGroup hContinues h
        | false =>
          simp only [hContinues] at h
          cases h
          exact .body hSplit hMark hGroup hContinues
  · intro h
    cases h with
    | file hSplit => simp [skipFrom, hSplit, bind, Except.bind, pure, Except.pure]
    | semicolon hSplit hMark => simp [skipFrom, hSplit, hMark, bind, Except.bind, pure, Except.pure]
    | scope hSplit hMark =>
      simp [skipFrom, hSplit, Token.isPunctuation_eq_decide hMark, bind, Except.bind, pure, Except.pure]
    | goesOn hSplit hMark hGroup hContinues hRest =>
      simpa [skipFrom, hSplit, Token.isPunctuation_eq_decide hMark, hGroup, hContinues, bind, Except.bind]
        using hRest
    | body hSplit hMark hGroup hContinues =>
      simp [skipFrom, hSplit, Token.isPunctuation_eq_decide hMark, hGroup, hContinues, bind, Except.bind,
        pure, Except.pure]

theorem skipFrom_suffix {steps : Nat} {passed ts rest : List Token}
    (h : skipFrom steps passed ts = .ok rest) : rest <:+ ts := by
  induction steps generalizing passed ts with
  | zero =>
    cases h
    exact List.suffix_refl _
  | succ steps ih =>
    have hAfter {head after inside later : List Token} {opener close : Token}
        (hSplit : splitDeclaration ts = .ok (head, opener :: after))
        (hGroup : closeGroup opener after = .ok (inside, close, later)) : later <:+ ts := by
      obtain rfl := splitDeclaration_eq_ok hSplit
      obtain rfl := closeGroup_eq_ok hGroup
      exact ⟨head ++ opener :: (inside ++ [close]), by simp⟩
    cases skipFrom_eq_ok_iff.mp h with
    | file _ => exact List.nil_suffix
    | semicolon hSplit _ =>
      obtain rfl := splitDeclaration_eq_ok hSplit
      exact (List.suffix_cons _ rest).trans (List.suffix_append _ _)
    | scope hSplit _ =>
      obtain rfl := splitDeclaration_eq_ok hSplit
      exact List.suffix_append _ _
    | goesOn hSplit _ hGroup _ hRest => exact (ih hRest).trans (hAfter hSplit hGroup)
    | body hSplit _ hGroup _ => exact (dropSemicolon_suffix _).trans (hAfter hSplit hGroup)

theorem exists_leftOver_of_skip {ts rest : List Token} (h : skip ts = .ok rest) :
    ∃ head after, splitDeclaration ts = .ok (head, after) ∧ LeftOver after rest := by
  cases skipFrom_eq_ok_iff.mp h with
  | file hSplit => exact ⟨_, _, hSplit, .inl List.nil_suffix⟩
  | semicolon hSplit _ => exact ⟨_, _, hSplit, .inl (List.suffix_refl _)⟩
  | scope hSplit hClose => exact ⟨_, _, hSplit, .inr ⟨rfl, hClose⟩⟩
  | goesOn hSplit _ hGroup _ hRest => exact ⟨_, _, hSplit, .of_group hGroup (skipFrom_suffix hRest)⟩
  | body hSplit _ hGroup _ => exact ⟨_, _, hSplit, .of_group hGroup (dropSemicolon_suffix _)⟩

theorem skip_suffix {ts rest : List Token} (h : skip ts = .ok rest) : rest <:+ ts :=
  skipFrom_suffix h

theorem skipTemplate_suffix {ts rest : List Token} (h : skipTemplate ts = .ok rest) :
    rest <:+ ts := by
  unfold skipTemplate at h
  split at h
  · next t ts =>
    split at h
    · rw [bind_eq_ok] at h
      obtain ⟨⟨inside, close, after⟩, hClose, h⟩ := h
      obtain rfl := closeGroup_eq_ok hClose
      exact (skip_suffix h).trans ⟨t :: (inside ++ [close]), by simp⟩
    · exact skip_suffix h
  · exact skip_suffix h

theorem withBody_braces (opening closing : Token) (declared : Declared) :
    (withBody opening closing declared).braces.Sublist [opening.span, closing.span] := by
  cases declared with
  | method m => exact List.Sublist.refl _
  | nothing => exact List.nil_sublist _
  | fields fs => exact List.nil_sublist _

/-- Whether an item is what the declaration of a function or of variables leaves, told by what ends
it. -/
inductive FromDeclaration (member? : Option Member) (ts : List Token) : Item → Prop
  | file {head : List Token} (hSplit : splitDeclaration ts = .ok (head, [])) :
    FromDeclaration member? ts ⟨.nothing, []⟩
  | scope {close : Token} {head after : List Token}
    (hSplit : splitDeclaration ts = .ok (head, close :: after))
    (hClose : close.isPunctuation "\x7d" = true) :
    FromDeclaration member? ts ⟨.nothing, close :: after⟩
  | semicolon {semicolon : Token} {head after : List Token}
    (hSplit : splitDeclaration ts = .ok (head, semicolon :: after))
    (hSemicolon : semicolon.isPunctuation ";" = true) :
    FromDeclaration member? ts ⟨Declarator.classify (Declarator.clean head) member?, after⟩
  | body {opener close : Token} {head after inside later : List Token}
    (hSplit : splitDeclaration ts = .ok (head, opener :: after))
    (hOpen : opener.isPunctuation "\x7b" = true)
    (hGroup : closeGroup opener after = .ok (inside, close, later)) :
    FromDeclaration member? ts
      ⟨withBody opener close (Declarator.classify (Declarator.clean head) member?),
        dropSemicolon later⟩

theorem readDeclaration_eq_ok_iff {member? : Option Member} {ts : List Token} {item : Item} :
    readDeclaration member? ts = .ok item ↔ FromDeclaration member? ts item := by
  constructor
  · intro h
    rw [readDeclaration, bind_eq_ok] at h
    obtain ⟨⟨head, _ | ⟨t, after⟩⟩, hSplit, h⟩ := h
    · cases h
      exact .file hSplit
    · rcases Extent.split_ends hSplit with hMark | hMark | hMark
      · simp only [Token.isPunctuation_eq_decide hMark] at h
        cases h
        exact .semicolon hSplit hMark
      · simp only [hMark, if_true] at h
        cases h
        exact .scope hSplit hMark
      · simp only [Token.isPunctuation_eq_decide hMark] at h
        obtain ⟨⟨inside, close, later⟩, hGroup, h⟩ := bind_eq_ok.mp h
        cases h
        exact .body hSplit hMark hGroup
  · intro h
    cases h with
    | file hSplit => simp [readDeclaration, hSplit, bind, Except.bind, pure, Except.pure]
    | scope hSplit hMark => simp [readDeclaration, hSplit, hMark, bind, Except.bind, pure, Except.pure]
    | semicolon hSplit hMark =>
      simp [readDeclaration, hSplit, Token.isPunctuation_eq_decide hMark, bind, Except.bind, pure,
        Except.pure]
    | body hSplit hMark hGroup =>
      simp [readDeclaration, hSplit, Token.isPunctuation_eq_decide hMark, hGroup, bind, Except.bind, pure,
        Except.pure]

theorem exists_leftOver_of_read {member? : Option Member} {ts : List Token} {item : Item}
    (h : readDeclaration member? ts = .ok item) :
    ∃ head after, splitDeclaration ts = .ok (head, after) ∧ LeftOver after item.rest := by
  cases readDeclaration_eq_ok_iff.mp h with
  | file hSplit => exact ⟨_, _, hSplit, .inl List.nil_suffix⟩
  | scope hSplit hClose => exact ⟨_, _, hSplit, .inr ⟨rfl, hClose⟩⟩
  | semicolon hSplit _ => exact ⟨_, _, hSplit, .inl (List.suffix_refl _)⟩
  | body hSplit _ hGroup => exact ⟨_, _, hSplit, .of_group hGroup (dropSemicolon_suffix _)⟩

/-- A function or a variable takes tokens from the front, and the braces that it keeps stand among
them. -/
theorem readDeclaration_eq_ok {member? : Option Member} {ts : List Token} {item : Item}
    (h : readDeclaration member? ts = .ok item) :
    ∃ taken, ts = taken ++ item.rest ∧ item.declared.braces.Sublist (taken.map (·.span)) := by
  cases readDeclaration_eq_ok_iff.mp h with
  | file hSplit => exact ⟨_, splitDeclaration_eq_ok hSplit, List.nil_sublist _⟩
  | scope hSplit _ => exact ⟨_, splitDeclaration_eq_ok hSplit, List.nil_sublist _⟩
  | @semicolon semicolon head after hSplit _ =>
    obtain rfl := splitDeclaration_eq_ok hSplit
    refine ⟨head ++ [semicolon], by simp, ?_⟩
    rw [Declarator.classify_braces]
    exact List.nil_sublist _
  | @body opener close head _ inside later hSplit _ hGroup =>
    obtain rfl := splitDeclaration_eq_ok hSplit
    obtain rfl := closeGroup_eq_ok hGroup
    obtain ⟨semicolon, hRest⟩ := dropSemicolon_suffix later
    refine ⟨head ++ opener :: (inside ++ close :: semicolon), ?_, ?_⟩
    · simp [hRest]
    · refine (withBody_braces opener close _).trans ?_
      simp only [List.map_append, List.map_cons]
      refine List.sublist_append_of_sublist_right (List.Sublist.cons_cons _ ?_)
      exact List.sublist_append_of_sublist_right (List.Sublist.cons_cons _ (List.nil_sublist _))

end Declaration

end SkeletonWeave
