import SkeletonWeave.Proofs.Declaration.Rewriting
import SkeletonWeave.Proofs.Preprocess.Stream

/-!
# Preprocessing rewritten tokens

A file whose tokens are rewritten joins the stream as it did, with its bodies
and insertions: no directive stands in them, so conditionals and macros are the
same at every other token. Files that are included are read as they were.
-/

set_option autoImplicit false

namespace SkeletonWeave

open Token (Nested unplaced)

namespace Rewritten

variable {w : Rewrite} {Content Added : List Token → Prop}

theorem of_spares {ts : List Token} (h : ∀ t ∈ ts, ∀ b ∈ w.bodies, t.span ≠ b.opening) :
    Rewritten w Content Added ts ts := by
  induction ts with
  | nil => exact .nil
  | cons t ts ih =>
    exact .keep rfl (h t List.mem_cons_self) (ih fun u hu => h u (List.mem_cons_of_mem t hu))

end Rewritten

namespace Preprocess

/-- Whether two batches go on alike: they differ in the texts of their files and in their tokens. -/
structure Similar (s s' : State) : Prop where
  macros : s.macros = s'.macros
  seen : s.seen = s'.seen
  files : s.files.length = s'.files.length
  unresolved : s.unresolved = s'.unresolved

theorem Similar.trans {s s' s'' : State} (h : Similar s s') (h' : Similar s' s'') : Similar s s'' :=
  ⟨h.macros.trans h'.macros, h.seen.trans h'.seen, h.files.trans h'.files,
    h.unresolved.trans h'.unresolved⟩

theorem Similar.symm {s s' : State} (h : Similar s s') : Similar s' s :=
  ⟨h.macros.symm, h.seen.symm, h.files.symm, h.unresolved.symm⟩

def Conditional.unplaced (c : Conditional) : Conditional :=
  { c with start := 0, length := 0 }

def keeps (options : ReadOptions) (t : Token) : Bool :=
  !(t.kind == .identifier && options.ignoredMacros.contains t.text)

variable {fs : FileSystem} {options : ReadOptions} {dir? : Option String}

inductive ActionsAlike (s s' : State) : Action → Action → Prop
  | proceed {opened opened' : List Conditional} {r r' : State} :
    opened.map Conditional.unplaced = opened'.map Conditional.unplaced → Similar r r' →
    r.tokens = s.tokens → r'.tokens = s'.tokens → r.files = s.files →
    ActionsAlike s s' (.proceed opened r) (.proceed opened' r')
  | enter (path : String) : ActionsAlike s s' (.enter path) (.enter path)
  | stop (cause : Source.Cause) : ActionsAlike s s' (.stop cause) (.stop cause)

theorem directiveAction_alike {s s' : State} (hState : Similar s s')
    {opened opened' : List Conditional}
    (hOpened : opened.map Conditional.unplaced = opened'.map Conditional.unplaced) (name : String)
    (rest : List Char) :
    ActionsAlike s s' (directiveAction fs options dir? opened s name rest)
      (directiveAction fs options dir? opened' s' name rest) := by
  obtain ⟨hMacros, hSeen, hFiles, hUnresolved⟩ := hState
  have hProceed {r r' : State} (hSimilar : Similar r r') (hTokens : r.tokens = s.tokens)
      (hTokens' : r'.tokens = s'.tokens) (hSame : r.files = s.files) :
      ActionsAlike s s' (.proceed opened r) (.proceed opened' r') :=
    .proceed hOpened hSimilar hTokens hTokens' hSame
  unfold directiveAction
  split
  · split
    split
    · exact hProceed ⟨hMacros, hSeen, hFiles, hUnresolved⟩ rfl rfl rfl
    · exact hProceed ⟨by rw [hMacros], hSeen, hFiles, hUnresolved⟩ rfl rfl rfl
  · split
    · exact hProceed ⟨by rw [hMacros], hSeen, hFiles, hUnresolved⟩ rfl rfl rfl
    · split
      · split
        · exact hProceed ⟨hMacros, hSeen, hFiles, hUnresolved⟩ rfl rfl rfl
        · split
          · exact .enter _
          · exact hProceed ⟨hMacros, hSeen, hFiles, by rw [hUnresolved]⟩ rfl rfl rfl
      · exact hProceed ⟨hMacros, hSeen, hFiles, hUnresolved⟩ rfl rfl rfl

theorem isActive_alike {opened opened' : List Conditional}
    (h : opened.map Conditional.unplaced = opened'.map Conditional.unplaced) :
    isActive opened = isActive opened' := by
  cases opened with
  | nil =>
    rw [List.map_nil, eq_comm, List.map_eq_nil_iff] at h
    rw [h]
  | cons c outer =>
    cases opened' with
    | nil => cases h
    | cons c' outer' =>
      obtain ⟨hFirst, -⟩ := List.cons.inj h
      have hActive : c.unplaced.active = c'.unplaced.active := by rw [hFirst]
      exact hActive

theorem conditionalAction_alike {s s' : State} (hState : Similar s s')
    {opened opened' : List Conditional}
    (hOpened : opened.map Conditional.unplaced = opened'.map Conditional.unplaced) {t t' : Token}
    (hText : t.text = t'.text) :
    ActionsAlike s s' (conditionalAction fs options dir? opened s t)
      (conditionalAction fs options dir? opened' s' t') := by
  have hActive := isActive_alike hOpened
  have hMacros := hState.macros
  unfold conditionalAction
  rw [← hText, ← hMacros, ← hActive]
  simp only
  split
  · refine .proceed ?_ hState rfl rfl rfl
    rw [List.map_cons, List.map_cons, hOpened]
    rfl
  · cases opened with
    | nil =>
      rw [List.map_nil, eq_comm, List.map_eq_nil_iff] at hOpened
      rw [hOpened]
      split
      · exact .stop _
      · split
        · exact .stop _
        · split
          · exact .stop _
          · split
            · exact directiveAction_alike hState rfl _ _
            · exact .proceed rfl hState rfl rfl rfl
    | cons c outer =>
      cases opened' with
      | nil => cases hOpened
      | cons c' outer' =>
        obtain ⟨hFirst, hOuter⟩ := List.cons.inj hOpened
        obtain ⟨directive, start, length, parentActive, taken, active⟩ := c
        obtain ⟨directive', start', length', parentActive', taken', active'⟩ := c'
        simp only [Conditional.unplaced, Conditional.mk.injEq, true_and] at hFirst
        obtain ⟨rfl, rfl, rfl, rfl⟩ := hFirst
        split
        · refine .proceed ?_ hState rfl rfl rfl
          rw [List.map_cons, List.map_cons, hOuter]
          rfl
        · split
          · refine .proceed ?_ hState rfl rfl rfl
            rw [List.map_cons, List.map_cons, hOuter]
            rfl
          · split
            · exact .proceed hOuter hState rfl rfl rfl
            · split
              · exact directiveAction_alike hState hOpened _ _
              · exact .proceed hOpened hState rfl rfl rfl

/-- What a region adds to the stream of some tokens without directives. -/
def joining (options : ReadOptions) (opened : List Conditional) (ts : List Token) : List Token :=
  if isActive opened then ts.filter (keeps options) else []

theorem action_joins (fs : FileSystem) (options : ReadOptions) (dir? : Option String)
    (opened : List Conditional) (s : State) {t : Token} (hKind : t.kind ≠ .directive) :
    ∃ r, action fs options dir? opened s t = .proceed opened r ∧ Similar r s ∧ r.files = s.files ∧
      r.tokens.toList = s.tokens.toList ++ joining options opened [t] := by
  have hAction : action fs options dir? opened s t =
      if isActive opened && keeps options t then
        .proceed opened { s with tokens := s.tokens.push t }
      else .proceed opened s := if_neg hKind
  rw [hAction, joining]
  cases isActive opened with
  | false => exact ⟨s, rfl, ⟨rfl, rfl, rfl, rfl⟩, rfl, (List.append_nil _).symm⟩
  | true =>
    cases hKeeps : keeps options t with
    | false =>
      exact ⟨s, rfl, ⟨rfl, rfl, rfl, rfl⟩, rfl, by simp [hKeeps]⟩
    | true =>
      exact ⟨{ s with tokens := s.tokens.push t }, rfl, ⟨rfl, rfl, rfl, rfl⟩, rfl, by simp [hKeeps]⟩

theorem runTokens_joins (fs : FileSystem) (options : ReadOptions) (enter : String → State → Progress)
    (file : String) (dir? : Option String) (opened : List Conditional) (s : State) {ts : List Token}
    (hPlain : ∀ t ∈ ts, t.kind ≠ .directive) :
    ∃ r, Similar r s ∧ r.files = s.files ∧
      r.tokens.toList = s.tokens.toList ++ joining options opened ts ∧
      ∀ rest, runTokens fs options enter file dir? opened s (ts ++ rest) =
        runTokens fs options enter file dir? opened r rest := by
  induction ts generalizing s with
  | nil =>
    refine ⟨s, ⟨rfl, rfl, rfl, rfl⟩, rfl, ?_, fun _ => rfl⟩
    unfold joining
    split
    · exact (List.append_nil _).symm
    · exact (List.append_nil _).symm
  | cons t ts ih =>
    obtain ⟨s₁, hAction, hFirst, hFiles, hTokens⟩ :=
      action_joins fs options dir? opened s (hPlain t List.mem_cons_self)
    obtain ⟨r, hSimilar, hFiles', hTokens', hRun⟩ := ih s₁ fun u hu => hPlain u (List.mem_cons_of_mem t hu)
    refine ⟨r, hSimilar.trans hFirst, hFiles'.trans hFiles, ?_, fun rest => ?_⟩
    · rw [hTokens', hTokens, List.append_assoc]
      unfold joining
      split
      · rw [← List.filter_append, List.singleton_append]
      · rfl
    · rw [List.cons_append, runTokens, hAction]
      exact hRun rest

structure Follows (w : Rewrite) (Added : List Token → Prop) (s s' r r' : State) : Prop where
  similar : Similar r r'
  files : s.files.length ≤ r.files.length
  tokens : ∃ ts us, r.tokens.toList = s.tokens.toList ++ ts ∧
    r'.tokens.toList = s'.tokens.toList ++ us ∧ Rewritten w Nested Added ts us

variable {w : Rewrite} {Added : List Token → Prop}

theorem Follows.refl {s s' : State} (h : Similar s s') : Follows w Added s s' s s' :=
  ⟨h, Nat.le_refl _, [], [], (List.append_nil _).symm, (List.append_nil _).symm, .nil⟩

theorem Follows.trans {s s' r r' q q' : State} (h : Follows w Added s s' r r')
    (h' : Follows w Added r r' q q') : Follows w Added s s' q q' := by
  obtain ⟨ts, us, hTokens, hTokens', hRewritten⟩ := h.tokens
  obtain ⟨vs, xs, hLater, hLater', hRewritten'⟩ := h'.tokens
  refine ⟨h'.similar, Nat.le_trans h.files h'.files, ts ++ vs, us ++ xs, ?_, ?_,
    hRewritten.append hRewritten'⟩
  · rw [hLater, hTokens, List.append_assoc]
  · rw [hLater', hTokens', List.append_assoc]

def Contained (ts : List Token) : Prop :=
  Nested ts ∧ ∀ t ∈ ts, t.kind ≠ .directive

/-- What is inserted in a file: tokens without directives, which are of some sort in the stream. -/
def AddedBefore (options : ReadOptions) (Added : List Token → Prop) (ts : List Token) : Prop :=
  (∀ t ∈ ts, t.kind ≠ .directive) ∧ Added (ts.filter (keeps options))

def BodiesPlain (w : Rewrite) (ts : List Token) : Prop :=
  ∀ b ∈ w.bodies, ∀ opening inside closing, opening :: (inside ++ [closing]) <:+: ts →
    opening.span = b.opening → closing.span = b.closing → ∀ t ∈ inside, t.kind ≠ .directive

theorem BodiesPlain.suffix {ts us : List Token} (h : BodiesPlain w ts) (hSuffix : us <:+ ts) :
    BodiesPlain w us :=
  fun b hb opening inside closing hPart => h b hb opening inside closing (hPart.trans hSuffix.isInfix)

/-- What is read before a file goes on, if files that it enters are read alike. -/
structure Entering (w : Rewrite) (Added : List Token → Prop) (first : Nat)
    (enter : String → State → Progress) : Prop where
  reads : ∀ path s r, enter path s = ⟨r, none⟩ → Extends s r
  follows : ∀ path s s' r, first ≤ s.files.length → Similar s s' → enter path s = ⟨r, none⟩ →
    ∃ r', enter path s' = ⟨r', none⟩ ∧ Follows w Added s s' r r'

theorem nested_filter {p : Token → Bool} (hp : ∀ t, p t = false → t.isBracket = false)
    {ts : List Token} (h : Nested ts) : Nested (ts.filter p) := by
  have hBracket {t : Token} (ht : t.isBracket = true) : p t = true := by
    cases hKeeps : p t with
    | true => rfl
    | false =>
      rw [hp t hKeeps] at ht
      cases ht
  induction h with
  | nil => exact .nil
  | @plain t ts hPlain _ ih =>
    rw [List.filter_cons]
    split
    · exact .plain hPlain ih
    · exact ih
  | @group opener close inside rest hText hOpen hClose _ _ ihInside ihRest =>
    have hOpener : opener.isBracket = true := by
      rw [Token.isBracket, List.any_eq_true]
      exact ⟨opener.text, hText, by simp [hOpen]⟩
    have hCloser : close.isBracket = true := by
      rw [Token.isBracket, List.any_eq_true]
      exact ⟨opener.text, hText, by simp [hClose]⟩
    rw [List.filter_cons_of_pos (hBracket hOpener), List.filter_append,
      List.filter_cons_of_pos (hBracket hCloser)]
    exact .group hText hOpen hClose ihInside ihRest

theorem isBracket_of_not_keeps {t : Token} (h : keeps options t = false) : t.isBracket = false := by
  rw [keeps, Bool.not_eq_false', Bool.and_eq_true, beq_iff_eq] at h
  simp [Token.isBracket, Token.isPunctuation, h.1]

theorem keeps_of_isPunctuation {t : Token} {mark : String} (h : t.isPunctuation mark = true) :
    keeps options t = true := by
  cases hKeeps : keeps options t with
  | true => rfl
  | false =>
    rw [keeps, Bool.not_eq_false', Bool.and_eq_true, beq_iff_eq] at hKeeps
    simp [Token.isPunctuation, hKeeps.1] at h

theorem kind_ne_directive_of_isPunctuation {t : Token} {mark : String}
    (h : t.isPunctuation mark = true) : t.kind ≠ .directive := by
  intro hKind
  simp [Token.isPunctuation, hKind] at h

theorem joining_body {opened opened' : List Conditional}
    (hOpened : opened.map Conditional.unplaced = opened'.map Conditional.unplaced)
    {b : Source.Body} {opening closing opening' closing' : Token} {inside inside' : List Token}
    (hb : b ∈ w.bodies) (hOpening : opening.span = b.opening) (hClosing : closing.span = b.closing)
    (hOpen : opening.isPunctuation "\x7b" = true) (hClose : closing.isPunctuation "\x7d" = true)
    (hToken : opening.unplaced = opening'.unplaced) (hCloseToken : closing.unplaced = closing'.unplaced)
    (hContent : Nested inside') :
    Rewritten w Nested Added (joining options opened (opening :: (inside ++ [closing])))
      (joining options opened' (opening' :: (inside' ++ [closing']))) := by
  have hOpen' : opening'.isPunctuation "\x7b" = true := by
    rw [Token.isPunctuation_of_alike hToken, hOpen]
  have hClose' : closing'.isPunctuation "\x7d" = true := by
    rw [Token.isPunctuation_of_alike hCloseToken, hClose]
  unfold joining
  rw [← isActive_alike hOpened]
  split
  · rw [List.filter_cons_of_pos (keeps_of_isPunctuation hOpen), List.filter_append,
      List.filter_cons_of_pos (keeps_of_isPunctuation hClose),
      List.filter_cons_of_pos (keeps_of_isPunctuation hOpen'), List.filter_append,
      List.filter_cons_of_pos (keeps_of_isPunctuation hClose')]
    exact .body hb hOpening hClosing hOpen hClose hToken hCloseToken
      (nested_filter (fun _ => isBracket_of_not_keeps) hContent) .nil
  · exact .nil

theorem joining_rewritten {opened opened' : List Conditional}
    (hOpened : opened.map Conditional.unplaced = opened'.map Conditional.unplaced) {t t' : Token}
    (hToken : t.unplaced = t'.unplaced) (hNot : ∀ b ∈ w.bodies, t.span ≠ b.opening) :
    Rewritten w Nested Added (joining options opened [t]) (joining options opened' [t']) := by
  have hKeeps : keeps options t' = keeps options t := by
    rw [keeps, keeps, Token.kind_of_alike hToken, Token.text_of_alike hToken]
  unfold joining
  rw [← isActive_alike hOpened]
  split
  · rw [List.filter_cons, List.filter_cons, hKeeps]
    cases keeps options t with
    | true => exact .keep hToken hNot .nil
    | false => exact .nil
  · exact .nil

/-- A token that stays does in the second batch what it does in the first. -/
theorem runTokens_kept {first : Nat} {enter : String → State → Progress} {file : String}
    (hEnter : Entering w Added first enter) {opened opened' : List Conditional} {s s' r : State}
    {t t' : Token} {ts : List Token} (hFirst : first ≤ s.files.length) (hState : Similar s s')
    (hOpened : opened.map Conditional.unplaced = opened'.map Conditional.unplaced)
    (hToken : t.unplaced = t'.unplaced) (hNot : ∀ b ∈ w.bodies, t.span ≠ b.opening)
    (h : runTokens fs options enter file dir? opened s (t :: ts) = ⟨r, none⟩) :
    ∃ o o' q q', runTokens fs options enter file dir? o q ts = ⟨r, none⟩ ∧
      o.map Conditional.unplaced = o'.map Conditional.unplaced ∧ Follows w Added s s' q q' ∧
      ∀ us, runTokens fs options enter file dir? opened' s' (t' :: us) =
        runTokens fs options enter file dir? o' q' us := by
  by_cases hKind : t.kind = .directive
  · have hKind' : t'.kind = .directive := (Token.kind_of_alike hToken).trans hKind
    have hAction : action fs options dir? opened s t = conditionalAction fs options dir? opened s t :=
      if_pos hKind
    have hAction' : action fs options dir? opened' s' t' =
        conditionalAction fs options dir? opened' s' t' := if_pos hKind'
    have hAlike : ActionsAlike s s' (action fs options dir? opened s t)
        (action fs options dir? opened' s' t') := by
      rw [hAction, hAction']
      exact conditionalAction_alike hState hOpened (Token.text_of_alike hToken).symm
    unfold runTokens at h
    generalize hOwn : action fs options dir? opened s t = act at h hAlike
    generalize hOwn' : action fs options dir? opened' s' t' = act' at hAlike
    cases hAlike with
    | @proceed o o' q q' hO hQ hTokens hTokens' hFiles =>
      refine ⟨o, o', q, q', h, hO, ⟨hQ, Nat.le_of_eq (by rw [hFiles]), [], [], ?_, ?_, .nil⟩, fun us => ?_⟩
      · rw [hTokens, List.append_nil]
      · rw [hTokens', List.append_nil]
      · rw [runTokens, hOwn']
    | enter path =>
      simp only at h
      split at h
      · next q hRead =>
        obtain ⟨q', hRead', hFollows⟩ := hEnter.follows path s s' q hFirst hState hRead
        refine ⟨opened, opened', q, q', h, hOpened, hFollows, fun us => ?_⟩
        rw [runTokens, hOwn']
        simp only [hRead']
      · cases h
    | stop cause => cases h
  · have hKind' : t'.kind ≠ .directive := by
      rw [Token.kind_of_alike hToken]
      exact hKind
    obtain ⟨q, hAction, hQ, hFiles, hTokens⟩ := action_joins fs options dir? opened s hKind
    obtain ⟨q', hAction', hQ', hFiles', hTokens'⟩ := action_joins fs options dir? opened' s' hKind'
    unfold runTokens at h
    rw [hAction] at h
    refine ⟨opened, opened', q, q', h, hOpened, ⟨(hQ.trans hState).trans hQ'.symm, Nat.le_of_eq (by rw [hFiles]), _, _, hTokens, hTokens',
      joining_rewritten hOpened hToken hNot⟩, fun us => ?_⟩
    rw [runTokens, hAction']

theorem plain_group {opening closing : Token} {inside : List Token}
    (hOpen : opening.isPunctuation "\x7b" = true) (hClose : closing.isPunctuation "\x7d" = true)
    (hInside : ∀ t ∈ inside, t.kind ≠ .directive) :
    ∀ t ∈ opening :: (inside ++ [closing]), t.kind ≠ .directive := by
  intro t ht
  simp only [List.mem_cons, List.mem_append, List.not_mem_nil, or_false] at ht
  rcases ht with rfl | ht | rfl
  · exact kind_ne_directive_of_isPunctuation hOpen
  · exact hInside t ht
  · exact kind_ne_directive_of_isPunctuation hClose

theorem exists_cons_of_runTokens {enter : String → State → Progress}
    (hEnter : ∀ path s s', enter path s = ⟨s', none⟩ → Extends s s') {own : Nat} {file : String}
    {opened : List Conditional} {s r : State} {t : Token} {ts T : List Token}
    (hActive : isActive opened = true) (hKeeps : keeps options t = true)
    (hKind : t.kind = .identifier) (hHome : ∀ u ∈ t :: ts, u.span.file = own)
    (hOwn : own < s.files.length)
    (h : runTokens fs options enter file dir? opened s (t :: ts) = ⟨r, none⟩)
    (hTokens : r.tokens.toList = s.tokens.toList ++ T) : ∃ T', T = t :: T' := by
  have hPlain : ∀ u ∈ [t], u.kind ≠ .directive := by simp [hKind]
  obtain ⟨q, -, hFiles, hPart, hRun⟩ := runTokens_joins fs options enter file dir? opened s hPlain
  have hJoins : joining options opened [t] = [t] := by simp [joining, hActive, hKeeps]
  rw [← List.singleton_append, hRun] at h
  obtain ⟨_, T', -, hLater, -⟩ := runTokens_continues hEnter (by rw [hFiles]; exact hOwn)
    (fun u hu => hHome u (List.mem_cons_of_mem t hu)) h
  rw [hTokens, hPart, hJoins, List.append_assoc, List.append_cancel_left_eq] at hLater
  exact ⟨T', hLater⟩

theorem runTokens_rewritten {first own : Nat} {enter : String → State → Progress} {file : String}
    (hEnter : Entering w Added first enter) (hKeyword : keeps options w.keyword = true)
    {opened opened' : List Conditional} {s s' r : State} {ts us : List Token}
    (hTokens : Rewritten w Contained (AddedBefore options Added) ts us) (hPlain : BodiesPlain w ts)
    (hFirst : first ≤ s.files.length) (hHome : ∀ t ∈ ts, t.span.file = own)
    (hOwn : own < s.files.length) (hState : Similar s s')
    (hOpened : opened.map Conditional.unplaced = opened'.map Conditional.unplaced)
    (h : runTokens fs options enter file dir? opened s ts = ⟨r, none⟩) :
    ∃ r', runTokens fs options enter file dir? opened' s' us = ⟨r', none⟩ ∧
      Follows w Added s s' r r' := by
  induction hTokens generalizing opened opened' s s' with
  | nil =>
    cases opened with
    | cons c outer => cases h
    | nil =>
      rw [List.map_nil, eq_comm, List.map_eq_nil_iff] at hOpened
      cases h
      rw [hOpened]
      exact ⟨s', rfl, .refl hState⟩
  | @keep t t' ts us hToken hNot _ ih =>
    obtain ⟨o, o', q, q', hRest, hO, hFollows, hStep⟩ :=
      runTokens_kept hEnter hFirst hState hOpened hToken hNot h
    obtain ⟨r', hRun, hLater⟩ := ih (hPlain.suffix (List.suffix_cons t ts))
      (Nat.le_trans hFirst hFollows.files) (fun u hu => hHome u (List.mem_cons_of_mem t hu))
      (Nat.lt_of_lt_of_le hOwn hFollows.files) hFollows.similar hO hRest
    exact ⟨r', (hStep us).trans hRun, hFollows.trans hLater⟩
  | @body b opening closing opening' closing' inside inside' ts us hb hOpening hClosing hOpen hClose
      hToken hCloseToken hContent _ ih =>
    have hCut : opening :: (inside ++ closing :: ts) = (opening :: (inside ++ [closing])) ++ ts := by
      simp
    have hCut' : opening' :: (inside' ++ closing' :: us) =
        (opening' :: (inside' ++ [closing'])) ++ us := by simp
    have hInside := hPlain b hb opening inside closing ⟨[], ts, by simp⟩ hOpening hClosing
    have hGroup : ∀ t ∈ opening :: (inside ++ [closing]), t.kind ≠ .directive :=
      plain_group hOpen hClose hInside
    have hGroup' : ∀ t ∈ opening' :: (inside' ++ [closing']), t.kind ≠ .directive :=
      plain_group ((Token.isPunctuation_of_alike hToken _).trans hOpen)
        ((Token.isPunctuation_of_alike hCloseToken _).trans hClose) hContent.2
    obtain ⟨q, hQ, hFiles, hPart, hRun⟩ :=
      runTokens_joins fs options enter file dir? opened s hGroup
    obtain ⟨q', hQ', hFiles', hPart', hRun'⟩ :=
      runTokens_joins fs options enter file dir? opened' s' hGroup'
    have hFollows : Follows w Added s s' q q' :=
      ⟨(hQ.trans hState).trans hQ'.symm, Nat.le_of_eq (by rw [hFiles]), _, _, hPart, hPart',
        joining_body hOpened hb hOpening hClosing hOpen hClose hToken hCloseToken hContent.1⟩
    rw [hCut, hRun] at h
    obtain ⟨r', hLast, hLater⟩ := ih (hPlain.suffix ⟨opening :: (inside ++ [closing]), hCut.symm⟩)
      (Nat.le_trans hFirst hFollows.files) (fun u hu => hHome u (by simp [hu]))
      (Nat.lt_of_lt_of_le hOwn hFollows.files) hFollows.similar hOpened h
    rw [hCut', hRun']
    exact ⟨r', hLast, hFollows.trans hLater⟩
  | @insert added ts us hAdded _ ih =>
    obtain ⟨q', hQ', -, hPart', hRun'⟩ :=
      runTokens_joins fs options enter file dir? opened' s' hAdded.1
    obtain ⟨r', hLast, hSimilar, hFiles, T, U, hTokens, hTokens', hStream⟩ :=
      ih hPlain hFirst hHome hOwn (hState.trans hQ'.symm) hOpened h
    rw [hRun']
    refine ⟨r', hLast, hSimilar, hFiles, T, joining options opened' added ++ U, hTokens, ?_, ?_⟩
    · rw [hTokens', hPart', List.append_assoc]
    · unfold joining
      rw [← isActive_alike hOpened]
      split
      · next hActive =>
        obtain ⟨T', rfl⟩ := exists_cons_of_runTokens hEnter.reads hActive hKeyword w.kind_keyword
          hHome hOwn h hTokens
        exact .insert hAdded.2 hStream
      · exact hStream

theorem BodiesPlain.of_spares {ts : List Token} (h : ∀ t ∈ ts, ∀ b ∈ w.bodies, t.span ≠ b.opening) :
    BodiesPlain w ts := by
  intro b hb opening inside closing hPart hOpening
  exact absurd hOpening (h opening (hPart.subset List.mem_cons_self) b hb)

theorem runText_rewritten {first : Nat} {enter : String → State → Progress}
    (hEnter : Entering w Added first enter) (hKeyword : keeps options w.keyword = true)
    {path text text' : String} {s s' r : State} {ts us : List Token}
    (hFirst : first ≤ s.files.length + 1) (hState : Similar s s')
    (hLex : Token.lex s.files.length path text = .ok ts)
    (hLex' : Token.lex s.files.length path text' = .ok us)
    (hTokens : Rewritten w Contained (AddedBefore options Added) ts us) (hPlain : BodiesPlain w ts)
    (h : runText fs options enter path text s = ⟨r, none⟩) :
    ∃ r', runText fs options enter path text' s' = ⟨r', none⟩ ∧ Follows w Added s s' r r' := by
  rw [runText, hLex] at h
  rw [runText, ← hState.files, hLex']
  dsimp only at h ⊢
  have hNext : Similar { s with files := s.files ++ [⟨s.files.length, path, text⟩] }
      { s' with files := s'.files ++ [⟨s.files.length, path, text'⟩] } := by
    refine ⟨hState.macros, hState.seen, ?_, hState.unresolved⟩
    simp only [List.length_append, hState.files, List.length_singleton]
  obtain ⟨r', hRun, hFollows⟩ := runTokens_rewritten hEnter hKeyword hTokens hPlain
    (by simpa using hFirst) (Token.file_of_lex hLex) (by simp) hNext rfl h
  refine ⟨r', hRun, hFollows.similar, ?_, hFollows.tokens⟩
  have hFiles := hFollows.files
  rw [List.length_append] at hFiles
  exact Nat.le_of_succ_le hFiles

theorem readFile_follows {first : Nat} (hBodies : ∀ b ∈ w.bodies, b.opening.file < first)
    (hKeyword : keeps options w.keyword = true) (depth : Nat) :
    Entering w Added first (readFile fs options depth) := by
  refine ⟨fun _ _ _ h => readFile_extends h, ?_⟩
  induction depth with
  | zero =>
    intro path s s' r _ hState h
    cases h
    exact ⟨s', rfl, .refl hState⟩
  | succ depth ih =>
    intro path s s' r hFirst hState h
    rw [readFile] at h ⊢
    rw [← hState.seen]
    dsimp only at h ⊢
    split at h
    · next hSeen =>
      cases h
      rw [if_pos hSeen]
      exact ⟨s', rfl, .refl hState⟩
    · next hSeen =>
      rw [if_neg hSeen]
      cases hText : fs.readText? path with
      | none =>
        rw [hText] at h
        cases h
      | some text =>
        rw [hText] at h
        dsimp only at h ⊢
        have hNext : Similar { s with seen := (fs.canonical? path).getD path :: s.seen }
            { s' with seen := (fs.canonical? path).getD path :: s.seen } :=
          ⟨hState.macros, rfl, hState.files, hState.unresolved⟩
        cases hLex : Token.lex s.files.length ((fs.canonical? path).getD path) text with
        | error e =>
          rw [runText, hLex] at h
          cases h
        | ok ts =>
          have hSpares : ∀ t ∈ ts, ∀ b ∈ w.bodies, t.span ≠ b.opening := by
            intro t ht b hb hSpan
            have hFile := Token.file_of_lex hLex t ht
            have := hBodies b hb
            rw [← hSpan, hFile] at this
            omega
          obtain ⟨r', hRun, hFollows⟩ := runText_rewritten ⟨fun _ _ _ h => readFile_extends h, ih⟩
            hKeyword (s := { s with seen := (fs.canonical? path).getD path :: s.seen })
            (Nat.le_succ_of_le hFirst) hNext hLex hLex (.of_spares hSpares) (.of_spares hSpares) h
          exact ⟨r', hRun, hFollows.similar, hFollows.files, hFollows.tokens⟩

end Preprocess

namespace Batch

open Preprocess (AddedBefore BodiesPlain Contained Follows Similar)

variable {w : Rewrite} {Added : List Token → Prop} {fs : FileSystem} {options : ReadOptions}

theorem runSteps_follows {first : Nat} (hBodies : ∀ b ∈ w.bodies, b.opening.file < first)
    (hKeyword : Preprocess.keeps options w.keyword = true) {roots : List String}
    {s s' r : Preprocess.State} (hFirst : first ≤ s.files.length) (hState : Similar s s')
    (h : runSteps (Preprocess.addRoot fs options) roots s = .ok r) :
    ∃ r', runSteps (Preprocess.addRoot fs options) roots s' = .ok r' ∧ Follows w Added s s' r r' := by
  induction roots generalizing s s' with
  | nil =>
    cases h
    exact ⟨s', rfl, .refl hState⟩
  | cons root roots ih =>
    unfold runSteps at h ⊢
    split at h
    · next q hRead =>
      obtain ⟨q', hRead', hFollows⟩ := (Preprocess.readFile_follows hBodies hKeyword _).follows root s s' q
        hFirst hState hRead
      obtain ⟨r', hRest, hLater⟩ := ih (Nat.le_trans hFirst hFollows.files) hFollows.similar h
      have hRead'' : Preprocess.addRoot fs options root s' = ⟨q', none⟩ := hRead'
      rw [hRead'']
      exact ⟨r', hRest, hFollows.trans hLater⟩
    · cases h

end Batch

end SkeletonWeave
