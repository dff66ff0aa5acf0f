import SkeletonWeave.Preprocess.Basic
import SkeletonWeave.Proofs.Results

/-!
# Conditional groups

The conditional directives of a file nest: a group is opened, has branches, and is
closed. Here the tokens of a file are a tree of such groups with a meaning of its
own: of each group the first branch whose condition holds is gone through, under
the macros that are defined there, and the others are passed over whatever they
hold. Reading a file, which keeps a stack of open groups and no tree, does the same.
Each list of tokens is the one of a tree, perhaps with a directive after it that
belongs to no group.
-/

set_option autoImplicit false

namespace SkeletonWeave.Preprocess

def directiveName (t : Token) : String :=
  String.ofList (Directive.splitName t.text.toList).1

def directiveRest (t : Token) : List Char :=
  (Directive.splitName t.text.toList).2

inductive Nesting where
  | plain
  | opens
  | elif
  | otherwise
  | closes
  deriving DecidableEq, Repr

def nesting (t : Token) : Nesting :=
  if t.kind ≠ .directive then .plain
  else if directiveName t = "if" ∨ directiveName t = "ifdef" ∨ directiveName t = "ifndef" then .opens
  else if directiveName t = "elif" then .elif
  else if directiveName t = "else" then .otherwise
  else if directiveName t = "endif" then .closes
  else .plain

def needsGroup (t : Token) : Prop :=
  nesting t = .elif ∨ nesting t = .otherwise ∨ nesting t = .closes

mutual

inductive Blocks where
  | nil
  | line (t : Token) (rest : Blocks)
  | group (opening : Token) (body : Blocks) (arms : Arms) (rest : Blocks)

/-- A group after its first branch. The end of the text may come before the group is closed. -/
inductive Arms where
  | closed (closing : Token)
  | elif (t : Token) (body : Blocks) (arms : Arms)
  | otherwise (t : Token) (body : Blocks) (arms : Arms)
  | missing

end

mutual

def Blocks.tokens : Blocks → List Token
  | .nil => []
  | .line t rest => t :: rest.tokens
  | .group opening body arms rest => opening :: (body.tokens ++ (arms.tokens ++ rest.tokens))

def Arms.tokens : Arms → List Token
  | .closed closing => [closing]
  | .elif t body arms => t :: (body.tokens ++ arms.tokens)
  | .otherwise t body arms => t :: (body.tokens ++ arms.tokens)
  | .missing => []

end

mutual

def Blocks.unclosed? : Blocks → Option Token
  | .nil => none
  | .line _ rest => rest.unclosed?
  | .group opening body arms rest =>
    body.unclosed? <|> arms.unclosed? opening <|> rest.unclosed?

def Arms.unclosed? (opening : Token) : Arms → Option Token
  | .closed _ => none
  | .elif _ body arms => body.unclosed? <|> arms.unclosed? opening
  | .otherwise _ body arms => body.unclosed? <|> arms.unclosed? opening
  | .missing => some opening

end

mutual

/-- Whether the directives of a tree are what they stand for, and nothing follows where the text
ends before a group is closed. Branches after an `else` are allowed, but never gone through. -/
def Blocks.WellNested : Blocks → Prop
  | .nil => True
  | .line t rest => nesting t = .plain ∧ rest.WellNested
  | .group opening body arms rest =>
    nesting opening = .opens ∧ body.WellNested ∧ arms.WellNested ∧ rest.WellNested ∧
      (body.unclosed? ≠ none → arms = .missing) ∧ (arms.unclosed? opening ≠ none → rest = .nil)

def Arms.WellNested : Arms → Prop
  | .closed closing => nesting closing = .closes
  | .elif t body arms =>
    nesting t = .elif ∧ body.WellNested ∧ arms.WellNested ∧ (body.unclosed? ≠ none → arms = .missing)
  | .otherwise t body arms =>
    nesting t = .otherwise ∧ body.WellNested ∧ arms.WellNested ∧
      (body.unclosed? ≠ none → arms = .missing)
  | .missing => True

end

/-- What going through tokens leaves: the macros after them, the tokens that join the stream, and
the includes that were met. -/
structure Passage where
  macros : Macros
  tokens : List Token
  includes : List Token

def Passage.append (first : Passage) (second : Passage) : Passage :=
  ⟨second.macros, first.tokens ++ second.tokens, first.includes ++ second.includes⟩

def passLine (options : ReadOptions) (macros : Macros) (t : Token) : Passage :=
  if t.kind ≠ .directive then
    ⟨macros, if t.kind = .identifier ∧ t.text ∈ options.ignoredMacros then [] else [t], []⟩
  else if directiveName t = "define" then
    let (name, value) := Directive.definition (directiveRest t)
    ⟨if name = "" then macros else macros.insert name value, [], []⟩
  else if directiveName t = "undef" then
    ⟨macros.erase (String.ofList (Text.trim (directiveRest t))), [], []⟩
  else if directiveName t = "include" ∨ directiveName t = "import" then ⟨macros, [], [t]⟩
  else ⟨macros, [], []⟩

mutual

def Blocks.pass (options : ReadOptions) : Blocks → Macros → Passage
  | .nil, macros => ⟨macros, [], []⟩
  | .line t rest, macros =>
    let first := passLine options macros t
    first.append (rest.pass options first.macros)
  | .group opening body arms rest, macros =>
    let first :=
      if holds macros (directiveName opening) (directiveRest opening) then body.pass options macros
      else arms.pass options macros
    first.append (rest.pass options first.macros)

def Arms.pass (options : ReadOptions) : Arms → Macros → Passage
  | .closed _, macros => ⟨macros, [], []⟩
  | .elif t body arms, macros =>
    if holds macros "if" (directiveRest t) then body.pass options macros
    else arms.pass options macros
  | .otherwise _ body _, macros => body.pass options macros
  | .missing, macros => ⟨macros, [], []⟩

end

def State.after (s : State) (p : Passage) : State :=
  { s with macros := p.macros, tokens := s.tokens ++ p.tokens.toArray }

theorem State.after_append (s : State) (p q : Passage) :
    (s.after p).after q = s.after (p.append q) := by
  simp [State.after, Passage.append]

theorem State.after_nothing (s : State) : s.after ⟨s.macros, [], []⟩ = s := by
  simp [State.after]

@[simp] theorem isActive_cons (c : Conditional) (outer : List Conditional) :
    isActive (c :: outer) = c.active :=
  rfl

section Step

variable {fs : FileSystem} {options : ReadOptions} {dir? : Option String}
  {opened outer : List Conditional} {c : Conditional} {s : State} {t : Token}

theorem kind_of_nesting (h : nesting t ≠ .plain) : t.kind = .directive := by
  by_cases hKind : t.kind = .directive
  · exact hKind
  · exact absurd (if_pos hKind) h

theorem action_directive (h : t.kind = .directive) :
    action fs options dir? opened s t = conditionalAction fs options dir? opened s t :=
  if_pos h

theorem conditionalAction_eq :
    conditionalAction fs options dir? opened s t =
      if directiveName t = "if" || directiveName t = "ifdef" || directiveName t = "ifndef" then
        let value := isActive opened && holds s.macros (directiveName t) (directiveRest t)
        .proceed (⟨directiveName t, t.span.start, t.span.length, isActive opened,
          value || !isActive opened, value⟩ :: opened) s
      else if directiveName t = "elif" then
        match opened with
        | [] => .stop (.danglingDirective (directiveName t))
        | c :: outer =>
          let value := c.parentActive && !c.taken && holds s.macros "if" (directiveRest t)
          .proceed ({ c with active := value, taken := c.taken || value } :: outer) s
      else if directiveName t = "else" then
        match opened with
        | [] => .stop (.danglingDirective (directiveName t))
        | c :: outer =>
          .proceed ({ c with active := c.parentActive && !c.taken, taken := true } :: outer) s
      else if directiveName t = "endif" then
        match opened with
        | [] => .stop (.danglingDirective (directiveName t))
        | _ :: outer => .proceed outer s
      else if isActive opened then
        directiveAction fs options dir? opened s (directiveName t) (directiveRest t)
      else .proceed opened s :=
  rfl

theorem directiveAction_eq (hKind : t.kind = .directive)
    (hIncludes : (passLine options s.macros t).includes = []) :
    directiveAction fs options dir? opened s (directiveName t) (directiveRest t) =
      .proceed opened (s.after (passLine options s.macros t)) := by
  have hDirective : ¬t.kind ≠ .directive := not_not_intro hKind
  unfold passLine directiveAction at *
  rw [if_neg hDirective] at hIncludes ⊢
  by_cases hDefine : directiveName t = "define"
  · rw [if_pos hDefine, if_pos hDefine]
    by_cases hName : (Directive.definition (directiveRest t)).1 = ""
    · simp [hName, State.after]
    · simp [hName, State.after]
  · rw [if_neg hDefine] at hIncludes ⊢
    rw [if_neg hDefine]
    by_cases hUndef : directiveName t = "undef"
    · simp [hUndef, State.after]
    · rw [if_neg hUndef] at hIncludes ⊢
      rw [if_neg hUndef]
      by_cases hInclude : directiveName t = "include" ∨ directiveName t = "import"
      · simp [hInclude] at hIncludes
      · simp [hInclude, State.after_nothing]

theorem conditionalAction_plain (hKind : t.kind = .directive) (hPlain : nesting t = .plain) :
    conditionalAction fs options dir? opened s t =
      if isActive opened then
        directiveAction fs options dir? opened s (directiveName t) (directiveRest t)
      else .proceed opened s := by
  rw [conditionalAction_eq]
  simp only [nesting, hKind] at hPlain
  grind

theorem action_plain (hPlain : nesting t = .plain) (hActive : isActive opened = true)
    (hIncludes : (passLine options s.macros t).includes = []) :
    action fs options dir? opened s t =
      .proceed opened (s.after (passLine options s.macros t)) := by
  by_cases hKind : t.kind = .directive
  · rw [action_directive hKind, conditionalAction_plain hKind hPlain, if_pos hActive,
      directiveAction_eq hKind hIncludes]
  · by_cases hIgnored : t.kind = .identifier ∧ t.text ∈ options.ignoredMacros
    · simp [action, passLine, hActive, hIgnored, State.after_nothing]
    · simp [action, passLine, hKind, hActive, hIgnored, State.after]

theorem action_plain_inactive (hPlain : nesting t = .plain) (hActive : isActive opened = false) :
    action fs options dir? opened s t = .proceed opened s := by
  by_cases hKind : t.kind = .directive
  · rw [action_directive hKind, conditionalAction_plain hKind hPlain, hActive]
    rfl
  · simp [action, hKind, hActive]

/-- The group that a directive opens where the groups `opened` are open already. -/
def opensAs (opened : List Conditional) (macros : Macros) (t : Token) : Conditional :=
  let value := isActive opened && holds macros (directiveName t) (directiveRest t)
  ⟨directiveName t, t.span.start, t.span.length, isActive opened, value || !isActive opened, value⟩

theorem action_opens (h : nesting t = .opens) :
    action fs options dir? opened s t = .proceed (opensAs opened s.macros t :: opened) s := by
  have hKind : t.kind = .directive := kind_of_nesting (by rw [h]; simp)
  rw [action_directive hKind, conditionalAction_eq, if_pos]
  · rfl
  · simp only [nesting, hKind] at h
    grind

theorem action_elif (h : nesting t = .elif) :
    action fs options dir? (c :: outer) s t =
      let value := c.parentActive && !c.taken && holds s.macros "if" (directiveRest t)
      .proceed ({ c with active := value, taken := c.taken || value } :: outer) s := by
  have hKind : t.kind = .directive := kind_of_nesting (by rw [h]; simp)
  rw [action_directive hKind, conditionalAction_eq]
  simp only [nesting, hKind] at h
  grind

theorem action_otherwise (h : nesting t = .otherwise) :
    action fs options dir? (c :: outer) s t =
      .proceed ({ c with active := c.parentActive && !c.taken, taken := true } :: outer) s := by
  have hKind : t.kind = .directive := kind_of_nesting (by rw [h]; simp)
  rw [action_directive hKind, conditionalAction_eq]
  simp only [nesting, hKind] at h
  grind

theorem action_closes (h : nesting t = .closes) :
    action fs options dir? (c :: outer) s t = .proceed outer s := by
  have hKind : t.kind = .directive := kind_of_nesting (by rw [h]; simp)
  rw [action_directive hKind, conditionalAction_eq]
  simp only [nesting, hKind] at h
  grind

theorem action_needsGroup (h : needsGroup t) :
    action fs options dir? [] s t = .stop (.danglingDirective (directiveName t)) := by
  have hKind : t.kind = .directive := kind_of_nesting (by rcases h with h | h | h <;> rw [h] <;> simp)
  rw [action_directive hKind, conditionalAction_eq]
  simp only [needsGroup, nesting, hKind] at h
  grind

end Step

def Conditional.OpenedBy (c : Conditional) (opening : Token) : Prop :=
  c.directive = directiveName opening ∧ c.start = opening.span.start ∧
    c.length = opening.span.length

/-- Whether the open groups are those of `base`, or the innermost of them was opened by the token
that is named as unclosed. -/
def Leaves (unclosed? : Option Token) (base opened : List Conditional) : Prop :=
  match unclosed? with
  | none => opened = base
  | some opening => ∃ c outer, opened = c :: outer ∧ c.OpenedBy opening

section Run

variable {fs : FileSystem} {options : ReadOptions} {enter : String → State → Progress}
  {file : String} {dir? : Option String}

variable (fs options enter file dir?) in
/-- Whether reading `ts` leads from one state to another, and leaves open what `unclosed?` names,
or else the groups of `base`. -/
def Leads (unclosed? : Option Token) (base opened : List Conditional) (s : State)
    (ts : List Token) (s' : State) : Prop :=
  ∃ opened', Leaves unclosed? base opened' ∧
    ∀ rest, runTokens fs options enter file dir? opened s (ts ++ rest) =
      runTokens fs options enter file dir? opened' s' rest

namespace Leads

variable {u v : Option Token} {base base' opened opened' : List Conditional} {s s' s'' : State}
  {t : Token} {ts us : List Token}

theorem nil (opened : List Conditional) (s : State) :
    Leads fs options enter file dir? none opened opened s [] s :=
  ⟨opened, rfl, fun _ => rfl⟩

theorem cons (hAction : action fs options dir? opened s t = .proceed opened' s')
    (h : Leads fs options enter file dir? u base opened' s' ts s'') :
    Leads fs options enter file dir? u base opened s (t :: ts) s'' := by
  obtain ⟨opened'', hLeaves, hRun⟩ := h
  refine ⟨opened'', hLeaves, fun rest => ?_⟩
  rw [List.cons_append, runTokens, hAction]
  exact hRun rest

theorem append (h : Leads fs options enter file dir? u base opened s ts s')
    (hNext : u = none → Leads fs options enter file dir? v base' base s' us s'')
    (hLast : u ≠ none → us = [] ∧ s'' = s') :
    Leads fs options enter file dir? (u <|> v) base' opened s (ts ++ us) s'' := by
  obtain ⟨opened', hLeaves, hRun⟩ := h
  cases u with
  | none =>
    obtain rfl : opened' = base := hLeaves
    obtain ⟨opened'', hLeaves', hRun'⟩ := hNext rfl
    refine ⟨opened'', hLeaves', fun rest => ?_⟩
    rw [List.append_assoc, hRun, hRun']
  | some opening =>
    obtain ⟨rfl, rfl⟩ := hLast (by simp)
    exact ⟨opened', hLeaves, fun rest => by rw [List.append_nil, hRun]⟩

end Leads

mutual

theorem Blocks.leads_inactive (b : Blocks) (hWell : b.WellNested) {opened : List Conditional}
    {s : State} (hActive : isActive opened = false) :
    Leads fs options enter file dir? b.unclosed? opened opened s b.tokens s := by
  cases b with
  | nil => exact .nil opened s
  | line t rest =>
    obtain ⟨hPlain, hRest⟩ := hWell
    exact .cons (action_plain_inactive hPlain hActive) (rest.leads_inactive hRest hActive)
  | group opening body arms rest =>
    obtain ⟨hOpens, hBody, hArms, hRest, hMissing, hNone⟩ := hWell
    refine .cons (action_opens hOpens) ?_
    have hInside : isActive (opensAs opened s.macros opening :: opened) = false := by
      simp [opensAs, hActive]
    refine (body.leads_inactive hBody hInside).append (fun _ => ?_) ?_
    · refine (arms.leads_over hArms (by simp [opensAs, hActive]) ⟨rfl, rfl, rfl⟩).append
        (fun _ => rest.leads_inactive hRest hActive) ?_
      intro hUnclosed
      rw [hNone hUnclosed]
      exact ⟨rfl, rfl⟩
    · intro hUnclosed
      obtain rfl := hMissing hUnclosed
      rw [hNone (by simp [Arms.unclosed?])]
      exact ⟨rfl, rfl⟩

theorem Arms.leads_over (arms : Arms) (hWell : arms.WellNested) {opening : Token} {c : Conditional}
    {outer : List Conditional} {s : State} (hTaken : c.taken = true) (hOpening : c.OpenedBy opening) :
    Leads fs options enter file dir? (arms.unclosed? opening) outer (c :: outer) s arms.tokens s := by
  cases arms with
  | closed closing => exact .cons (action_closes hWell) (.nil outer s)
  | missing => exact ⟨c :: outer, ⟨c, outer, rfl, hOpening⟩, fun _ => rfl⟩
  | elif t body arms =>
    obtain ⟨hElif, hBody, hArms, hMissing⟩ := hWell
    refine .cons (action_elif hElif) ?_
    refine (body.leads_inactive hBody (by simp [hTaken])).append
      (fun _ => arms.leads_over hArms (by simp [hTaken]) hOpening) ?_
    intro hUnclosed
    rw [hMissing hUnclosed]
    exact ⟨rfl, rfl⟩
  | otherwise t body arms =>
    obtain ⟨hElse, hBody, hArms, hMissing⟩ := hWell
    refine .cons (action_otherwise hElse) ?_
    refine (body.leads_inactive hBody (by simp [hTaken])).append
      (fun _ => arms.leads_over hArms rfl hOpening) ?_
    intro hUnclosed
    rw [hMissing hUnclosed]
    exact ⟨rfl, rfl⟩

end

theorem append_includes {p q : Passage} (h : (p.append q).includes = []) :
    p.includes = [] ∧ q.includes = [] :=
  List.append_eq_nil_iff.mp h

mutual

theorem Blocks.leads_active (b : Blocks) (hWell : b.WellNested) {opened : List Conditional}
    {s : State} (hActive : isActive opened = true)
    (hIncludes : (b.pass options s.macros).includes = []) :
    Leads fs options enter file dir? b.unclosed? opened opened s b.tokens
      (s.after (b.pass options s.macros)) := by
  cases b with
  | nil =>
    rw [Blocks.pass, State.after_nothing]
    exact .nil opened s
  | line t rest =>
    obtain ⟨hPlain, hRest⟩ := hWell
    obtain ⟨hFirst, hLater⟩ := append_includes hIncludes
    rw [Blocks.pass, ← State.after_append]
    exact .cons (action_plain hPlain hActive hFirst) (rest.leads_active hRest hActive hLater)
  | group opening body arms rest =>
    obtain ⟨hOpens, hBody, hArms, hRest, hMissing, hNone⟩ := hWell
    obtain ⟨hFirst, hLater⟩ := append_includes hIncludes
    rw [Blocks.pass, ← State.after_append]
    refine .cons (action_opens hOpens) ?_
    have hParent : (opensAs opened s.macros opening).parentActive = true := hActive
    by_cases hHolds : holds s.macros (directiveName opening) (directiveRest opening) = true
    · rw [if_pos hHolds] at hFirst hLater ⊢
      have hTaken : (opensAs opened s.macros opening).taken = true := by
        simp [opensAs, hActive, hHolds]
      have hInside : isActive (opensAs opened s.macros opening :: opened) = true := by
        simp [opensAs, hActive, hHolds]
      refine (body.leads_active hBody hInside hFirst).append (fun _ => ?_) ?_
      · refine (arms.leads_over hArms hTaken ⟨rfl, rfl, rfl⟩).append
          (fun _ => rest.leads_active hRest hActive hLater) ?_
        intro hUnclosed
        rw [hNone hUnclosed]
        exact ⟨rfl, State.after_nothing _⟩
      · intro hUnclosed
        obtain rfl := hMissing hUnclosed
        rw [hNone (by simp [Arms.unclosed?])]
        exact ⟨rfl, State.after_nothing _⟩
    · rw [if_neg hHolds] at hFirst hLater ⊢
      have hTaken : (opensAs opened s.macros opening).taken = false := by
        simp [opensAs, hActive, hHolds]
      have hInside : isActive (opensAs opened s.macros opening :: opened) = false := by
        simp [opensAs, hHolds]
      refine (body.leads_inactive hBody hInside).append (fun _ => ?_) ?_
      · refine (arms.leads_until hArms hParent hTaken ⟨rfl, rfl, rfl⟩ hFirst).append
          (fun _ => rest.leads_active hRest hActive hLater) ?_
        intro hUnclosed
        rw [hNone hUnclosed]
        exact ⟨rfl, State.after_nothing _⟩
      · intro hUnclosed
        obtain rfl := hMissing hUnclosed
        rw [hNone (by simp [Arms.unclosed?])]
        exact ⟨rfl, by rw [Arms.pass, State.after_nothing]; exact State.after_nothing _⟩

theorem Arms.leads_until (arms : Arms) (hWell : arms.WellNested) {opening : Token} {c : Conditional}
    {outer : List Conditional} {s : State} (hParent : c.parentActive = true)
    (hTaken : c.taken = false) (hOpening : c.OpenedBy opening)
    (hIncludes : (arms.pass options s.macros).includes = []) :
    Leads fs options enter file dir? (arms.unclosed? opening) outer (c :: outer) s arms.tokens
      (s.after (arms.pass options s.macros)) := by
  cases arms with
  | closed closing =>
    rw [Arms.pass, State.after_nothing]
    exact .cons (action_closes hWell) (.nil outer s)
  | missing =>
    rw [Arms.pass, State.after_nothing]
    exact ⟨c :: outer, ⟨c, outer, rfl, hOpening⟩, fun _ => rfl⟩
  | elif t body arms =>
    obtain ⟨hElif, hBody, hArms, hMissing⟩ := hWell
    refine .cons (action_elif hElif) ?_
    rw [Arms.pass] at hIncludes ⊢
    by_cases hHolds : holds s.macros "if" (directiveRest t) = true
    · rw [if_pos hHolds] at hIncludes ⊢
      refine (body.leads_active hBody (by simp [hParent, hTaken, hHolds])
        hIncludes).append
        (fun _ => arms.leads_over hArms (by simp [hParent, hTaken, hHolds]) hOpening) ?_
      intro hUnclosed
      rw [hMissing hUnclosed]
      exact ⟨rfl, rfl⟩
    · rw [if_neg hHolds] at hIncludes ⊢
      refine (body.leads_inactive hBody (by simp [hHolds])).append
        (fun _ => arms.leads_until hArms hParent (by simp [hTaken, hHolds]) hOpening hIncludes) ?_
      intro hUnclosed
      rw [hMissing hUnclosed]
      exact ⟨rfl, by rw [Arms.pass, State.after_nothing]⟩
  | otherwise t body arms =>
    obtain ⟨hElse, hBody, hArms, hMissing⟩ := hWell
    refine .cons (action_otherwise hElse) ?_
    refine (body.leads_active hBody (by simp [hParent, hTaken]) hIncludes).append
      (fun _ => arms.leads_over hArms rfl hOpening) ?_
    intro hUnclosed
    rw [hMissing hUnclosed]
    exact ⟨rfl, rfl⟩

end

end Run

theorem Blocks.eq_nil_of_tokens {b : Blocks} (h : b.tokens = []) : b = .nil := by
  cases b with
  | nil => rfl
  | line => cases h
  | group => cases h

theorem Arms.eq_missing_of_tokens {arms : Arms} (h : arms.tokens = []) : arms = .missing := by
  cases arms with
  | missing => rfl
  | closed => cases h
  | elif => cases h
  | otherwise => cases h

/-- Whether tokens are a tree and what follows it: nothing, or a directive that belongs to no group
of the tree. -/
def IsTree (ts : List Token) : Prop :=
  ∃ (b : Blocks) (rest : List Token), ts = b.tokens ++ rest ∧ b.WellNested ∧
    (∀ t ∈ rest.head?, needsGroup t) ∧ (b.unclosed? ≠ none → rest = [])

def AreArms (opening : Token) (ts : List Token) : Prop :=
  ∃ (arms : Arms) (rest : List Token), ts = arms.tokens ++ rest ∧ arms.WellNested ∧
    (arms.unclosed? opening ≠ none → rest = [])

theorem isTree_of_needsGroup {ts : List Token} (h : ∀ t ∈ ts.head?, needsGroup t) : IsTree ts :=
  ⟨.nil, ts, rfl, trivial, h, by simp [Blocks.unclosed?]⟩

theorem areArms_nil (opening : Token) : AreArms opening [] :=
  ⟨.missing, [], rfl, trivial, fun _ => rfl⟩

theorem isTree_of_plain {t : Token} {ts : List Token} (ht : nesting t = .plain) (h : IsTree ts) :
    IsTree (t :: ts) := by
  obtain ⟨b, rest, rfl, hWell, hHead, hLast⟩ := h
  exact ⟨.line t b, rest, rfl, ⟨ht, hWell⟩, hHead, hLast⟩

section Longer

variable {t : Token} {ts : List Token}
  (hShorter : ∀ us : List Token, us.length ≤ ts.length →
    IsTree us ∧ ((∀ u ∈ us.head?, needsGroup u) → ∀ opening, AreArms opening us))

include hShorter

/-- A branch and those after it, in tokens of which all shorter ones are known to be trees. -/
theorem exists_branch (opening : Token) :
    ∃ (body : Blocks) (arms : Arms) (rest : List Token),
      ts = body.tokens ++ (arms.tokens ++ rest) ∧ body.WellNested ∧ arms.WellNested ∧
        (body.unclosed? ≠ none → arms = .missing) ∧ (arms.unclosed? opening ≠ none → rest = []) := by
  obtain ⟨body, later, hCut, hBody, hHead, hLast⟩ := (hShorter ts (Nat.le_refl _)).1
  have hLater : later.length ≤ ts.length := by
    rw [hCut, List.length_append]
    omega
  obtain ⟨arms, rest, rfl, hArms, hRest⟩ := (hShorter later hLater).2 hHead opening
  refine ⟨body, arms, rest, hCut, hBody, hArms, ?_, hRest⟩
  intro hUnclosed
  exact Arms.eq_missing_of_tokens (List.append_eq_nil_iff.mp (hLast hUnclosed)).1

theorem isTree_of_opens (ht : nesting t = .opens) : IsTree (t :: ts) := by
  obtain ⟨body, arms, later, hCut, hBody, hArms, hMissing, hRest⟩ := exists_branch hShorter t
  have hLater : later.length ≤ ts.length := by
    rw [hCut, List.length_append, List.length_append]
    omega
  obtain ⟨b, rest, rfl, hWell, hHead, hLast⟩ := (hShorter later hLater).1
  have hNone : arms.unclosed? t ≠ none → b = .nil ∧ rest = [] := by
    intro hUnclosed
    obtain ⟨hTokens, rfl⟩ := List.append_eq_nil_iff.mp (hRest hUnclosed)
    exact ⟨Blocks.eq_nil_of_tokens hTokens, rfl⟩
  refine ⟨.group t body arms b, rest, ?_, ?_, hHead, ?_⟩
  · rw [hCut, Blocks.tokens]
    simp
  · exact ⟨ht, hBody, hArms, hWell, hMissing, fun hUnclosed => (hNone hUnclosed).1⟩
  · intro hUnclosed
    by_cases hBodyOpen : body.unclosed? = none
    · by_cases hArmsOpen : arms.unclosed? t = none
      · exact hLast (by simpa [Blocks.unclosed?, hBodyOpen, hArmsOpen] using hUnclosed)
      · exact (hNone hArmsOpen).2
    · obtain rfl := hMissing hBodyOpen
      exact (hNone (by simp [Arms.unclosed?])).2

theorem areArms_of_branch (opening : Token) (ht : nesting t = .elif ∨ nesting t = .otherwise) :
    AreArms opening (t :: ts) := by
  obtain ⟨body, arms, rest, hCut, hBody, hArms, hMissing, hRest⟩ := exists_branch hShorter opening
  have hLast : (body.unclosed? <|> arms.unclosed? opening) ≠ none → rest = [] := by
    intro hUnclosed
    by_cases hBodyOpen : body.unclosed? = none
    · exact hRest (by simpa [hBodyOpen] using hUnclosed)
    · obtain rfl := hMissing hBodyOpen
      exact hRest (by simp [Arms.unclosed?])
  rcases ht with ht | ht
  · refine ⟨.elif t body arms, rest, ?_, ⟨ht, hBody, hArms, hMissing⟩, hLast⟩
    rw [hCut, Arms.tokens]
    simp
  · refine ⟨.otherwise t body arms, rest, ?_, ⟨ht, hBody, hArms, hMissing⟩, hLast⟩
    rw [hCut, Arms.tokens]
    simp

end Longer

theorem isTree_and_areArms (n : Nat) (ts : List Token) (hLength : ts.length ≤ n) :
    IsTree ts ∧ ((∀ t ∈ ts.head?, needsGroup t) → ∀ opening, AreArms opening ts) := by
  induction n generalizing ts with
  | zero =>
    obtain rfl := List.eq_nil_of_length_eq_zero (Nat.le_zero.mp hLength)
    exact ⟨isTree_of_needsGroup (by simp), fun _ => areArms_nil⟩
  | succ n ih =>
    cases ts with
    | nil => exact ⟨isTree_of_needsGroup (by simp), fun _ => areArms_nil⟩
    | cons t ts =>
      have hShorter (us : List Token) (h : us.length ≤ ts.length) := ih us (by
        rw [List.length_cons] at hLength
        omega)
      cases ht : nesting t with
      | plain =>
        refine ⟨isTree_of_plain ht (hShorter ts (Nat.le_refl _)).1, fun hHead => ?_⟩
        have hGroup : needsGroup t := hHead t rfl
        simp [needsGroup, ht] at hGroup
      | opens =>
        refine ⟨isTree_of_opens hShorter ht, fun hHead => ?_⟩
        have hGroup : needsGroup t := hHead t rfl
        simp [needsGroup, ht] at hGroup
      | elif =>
        exact ⟨isTree_of_needsGroup (by simp [needsGroup, ht]),
          fun _ opening => areArms_of_branch hShorter opening (.inl ht)⟩
      | otherwise =>
        exact ⟨isTree_of_needsGroup (by simp [needsGroup, ht]),
          fun _ opening => areArms_of_branch hShorter opening (.inr ht)⟩
      | closes =>
        refine ⟨isTree_of_needsGroup (by simp [needsGroup, ht]), fun _ opening => ?_⟩
        exact ⟨.closed t, ts, rfl, ht, by simp [Arms.unclosed?]⟩

/-- The tokens of a text are a tree and what follows it. Where the tree asks for no file, reading
the text adds what the tree means. It succeeds if all groups are closed and nothing follows; it
fails at the first directive that belongs to no group, if one follows, and names the innermost
open group, if the text ends in one. -/
theorem runText_of_tree {fs : FileSystem} {options : ReadOptions}
    {enter : String → State → Progress} {path text : String} {s : State} {ts : List Token}
    (hLex : Token.lex s.files.length path text = .ok ts) :
    IsTree ts ∧
      ∀ (b : Blocks) (rest : List Token), b.WellNested → ts = b.tokens ++ rest →
        (b.pass options s.macros).includes = [] →
        let passed : State := { s with
          files := s.files ++ [⟨s.files.length, path, text⟩]
          macros := (b.pass options s.macros).macros
          tokens := s.tokens ++ (b.pass options s.macros).tokens.toArray }
        (b.unclosed? = none → rest = [] →
          runText fs options enter path text s = ⟨passed, none⟩) ∧
        (∀ t after, b.unclosed? = none → rest = t :: after → needsGroup t →
          runText fs options enter path text s = ⟨passed, some (.located
            (.danglingDirective (directiveName t)) path t.span.start t.span.length)⟩) ∧
        (∀ t, b.unclosed? = some t → rest = [] →
          runText fs options enter path text s = ⟨passed, some (.located
            (.unterminatedConditional (directiveName t)) path t.span.start t.span.length)⟩) := by
  refine ⟨(isTree_and_areArms ts.length ts (Nat.le_refl _)).1, ?_⟩
  rintro b rest hWell rfl hIncludes passed
  let recorded : State := { s with files := s.files ++ [⟨s.files.length, path, text⟩] }
  have hLeads : Leads fs options enter path (Path.parent? path) b.unclosed? [] [] recorded b.tokens
      (recorded.after (b.pass options s.macros)) := b.leads_active hWell rfl hIncludes
  obtain ⟨opened, hLeaves, hRun⟩ := hLeads
  have hText : runText fs options enter path text s =
      runTokens fs options enter path (Path.parent? path) opened passed rest := by
    rw [runText, hLex]
    exact hRun rest
  rw [hText]
  refine ⟨?_, ?_, ?_⟩
  · rintro hClosed rfl
    rw [hClosed] at hLeaves
    obtain rfl : opened = [] := hLeaves
    rfl
  · rintro t after hClosed rfl hGroup
    rw [hClosed] at hLeaves
    obtain rfl : opened = [] := hLeaves
    rw [runTokens, action_needsGroup hGroup]
  · rintro t hUnclosed rfl
    rw [hUnclosed] at hLeaves
    obtain ⟨c, outer, rfl, hDirective, hStart, hLength⟩ := hLeaves
    rw [runTokens, hDirective, hStart, hLength]

theorem runText_of_tree_else :
    let text := "#ifdef A\n#ifndef B\nx\n#endif\n#else\n#define B\n#ifdef B\ny\n#endif\n#endif\n"
    let directive (text : String) (start stop line : Nat) : Token :=
      ⟨.directive, text, ⟨0, start, stop⟩, line⟩
    let y : Token := ⟨.identifier, "y", ⟨0, 53, 54⟩, 8⟩
    let b : Blocks :=
      .group (directive "ifdef A" 0 8 1)
        (.group (directive "ifndef B" 9 18 2) (.line ⟨.identifier, "x", ⟨0, 19, 20⟩, 3⟩ .nil)
          (.closed (directive "endif" 21 27 4)) .nil)
        (.otherwise (directive "else" 28 33 5)
          (.line (directive "define B" 34 43 6)
            (.group (directive "ifdef B" 44 52 7) (.line y .nil)
              (.closed (directive "endif" 55 61 9)) .nil))
          (.closed (directive "endif" 62 68 10)))
        .nil
    let p := runText ⟨[], []⟩ ⟨[], [], []⟩ (fun _ s => ⟨s, none⟩) "a.h" text (.initial ⟨[], [], []⟩)
    Token.lex 0 "a.h" text = .ok b.tokens ∧ b.WellNested ∧ b.unclosed? = none ∧
      (b.pass ⟨[], [], []⟩ .empty).includes = [] ∧
      p.failure? = none ∧ p.state.tokens = #[y] ∧ p.state.macros.entries = [("B", "")] := by
  intro text directive y b p
  have hLex : Token.lex 0 "a.h" text = .ok b.tokens := eq_ok_of_toOption (by decide +kernel)
  have hNested {u : Option Token} {q : Prop} (h : u = none) : u ≠ none → q := absurd h
  have hRoles : nesting (directive "ifdef A" 0 8 1) = .opens ∧
      nesting (directive "ifndef B" 9 18 2) = .opens ∧
      nesting ⟨.identifier, "x", ⟨0, 19, 20⟩, 3⟩ = .plain ∧
      nesting (directive "endif" 21 27 4) = .closes ∧
      nesting (directive "else" 28 33 5) = .otherwise ∧
      nesting (directive "define B" 34 43 6) = .plain ∧
      nesting (directive "ifdef B" 44 52 7) = .opens ∧ nesting y = .plain ∧
      nesting (directive "endif" 55 61 9) = .closes ∧
      nesting (directive "endif" 62 68 10) = .closes := by decide +kernel
  have hWell : b.WellNested := by
    obtain ⟨hA, hB, hx, hEndB, hElse, hDefine, hB', hy, hEndB', hEndA⟩ := hRoles
    exact ⟨hA, ⟨hB, ⟨hx, trivial⟩, hEndB, trivial, hNested rfl, hNested rfl⟩,
      ⟨hElse, ⟨hDefine, hB', ⟨hy, trivial⟩, hEndB', trivial, hNested rfl, hNested rfl⟩, hEndA,
        hNested rfl⟩,
      trivial, hNested rfl, hNested rfl⟩
  have hIncludes : (b.pass ⟨[], [], []⟩ .empty).includes = [] := by decide +kernel
  have hText := @runText_of_tree ⟨[], []⟩ ⟨[], [], []⟩ (fun _ s => ⟨s, none⟩) "a.h" text
    (.initial ⟨[], [], []⟩) b.tokens hLex
  have hRead : p = _ := (hText.2 b [] hWell rfl hIncludes).1 rfl rfl
  refine ⟨hLex, hWell, rfl, hIncludes, ?_, ?_, ?_⟩
  · rw [hRead]
  · rw [hRead]
    have hTokens : (b.pass ⟨[], [], []⟩ .empty).tokens = [y] := by decide +kernel
    simp [State.initial, Macros.ofList, hTokens]
  · rw [hRead]
    decide +kernel

end SkeletonWeave.Preprocess
