import SkeletonWeave.Proofs.Preprocess.Stream

/-!
# Calls on one batch

A batch is asked for files and for texts in memory, one after the other, and goes
on after a call that failed with what it had read by then. One invariant holds of
every state that is reached so: files carry their place as number, and a token of
the stream is a part of a file that is recorded. It is kept by each action at a
token, hence by each file, whatever that file includes and however reading it ends.
-/

set_option autoImplicit false

namespace SkeletonWeave

open Text (byteLength slice?)

structure Token.CutFrom (t : Token) (f : Source.File) : Prop where
  file : t.span.file = f.id
  start_lt_stop : t.span.start < t.span.stop
  stop_le : t.span.stop ≤ byteLength f.text.toList
  text : slice? f.text.toList t.span.start t.span.stop = some t.text.toList

theorem Token.cutFrom_of_lex {f : Source.File} {ts : List Token}
    (hLex : lex f.id f.path f.text = .ok ts) {t : Token} (ht : t ∈ ts)
    (hKind : t.kind ≠ .directive) : t.CutFrom f := by
  obtain ⟨before, after, rfl⟩ := List.append_of_mem ht
  obtain ⟨ls, hTiled, hTokens⟩ := lex_eq_ok hLex
  obtain ⟨passed, l, rest, rfl, -, hToken⟩ := exists_of_ofLexemes hTokens.symm
  have hText : f.text.toList =
      passed.flatMap (·.chars) ++ (l.chars ++ rest.flatMap (·.chars)) := by
    rw [hTiled.flatMap_chars, List.flatMap_append, List.flatMap_cons]
  have hSpan := (span_of_toToken? hToken).1
  rw [Nat.zero_add] at hSpan
  have hPos := Text.byteLength_pos (hTiled.sound l (by simp)).2
  refine ⟨by rw [hSpan], ?_, ?_, ?_⟩
  · rw [hSpan]
    exact Nat.lt_add_of_pos_right hPos
  · rw [hSpan, hText, Text.byteLength_append, Text.byteLength_append]
    simp only
    omega
  · rw [hSpan, hText, Lexeme.text_of_toToken? hToken hKind]
    exact Text.slice?_append _ _ _

namespace Preprocess

/-- What a batch is asked for: the file at a path, or a text in memory that stands for one. -/
inductive Call where
  | root (path : String)
  | source (path text : String)
  deriving DecidableEq, Repr

def Call.run (fs : FileSystem) (options : ReadOptions) : Call → State → Progress
  | .root path => addRoot fs options path
  | .source path text => addSource fs options path text

/-- The state after some calls. A call that fails leaves what it has read to the next one. -/
def afterCalls (fs : FileSystem) (options : ReadOptions) (calls : List Call) (s : State) : State :=
  calls.foldl (fun s call => (call.run fs options s).state) s

/-- Whether files carry their place as number, tokens are parts of them that may stand in the
stream, and the tokens of one file stand one after the other. -/
structure State.Sound (options : ReadOptions) (s : State) : Prop where
  numbered : ∀ (i : Nat) (f : Source.File), s.files[i]? = some f → f.id = i
  drawn : ∀ t ∈ s.tokens.toList, t.kind ≠ .directive ∧
    ¬(t.kind = .identifier ∧ t.text ∈ options.ignoredMacros) ∧ ∃ f ∈ s.files, t.CutFrom f
  ordered : s.tokens.toList.Pairwise fun t u =>
    t.span.file = u.span.file → t.span.stop ≤ u.span.start

/-- Whether a state has everything of an earlier one, and besides only tokens of files that are
numbered from `first` on. -/
structure Adds (first : Nat) (s s' : State) : Prop where
  files : s.files <+: s'.files
  tokens : ∃ ts, s'.tokens.toList = s.tokens.toList ++ ts ∧ ∀ t ∈ ts, first ≤ t.span.file

namespace Adds

theorem of_same {s s' : State} (first : Nat) (hFiles : s'.files = s.files)
    (hTokens : s'.tokens = s.tokens) : Adds first s s' :=
  ⟨hFiles ▸ List.prefix_refl _, [], by rw [hTokens, List.append_nil], by simp⟩

theorem trans {first : Nat} {s s' s'' : State} (h : Adds first s s') (h' : Adds first s' s'') :
    Adds first s s'' := by
  obtain ⟨ts, hTokens, hFirst⟩ := h.tokens
  obtain ⟨us, hTokens', hFirst'⟩ := h'.tokens
  refine ⟨h.files.trans h'.files, ts ++ us, ?_, ?_⟩
  · rw [hTokens', hTokens, List.append_assoc]
  · intro t ht
    exact (List.mem_append.mp ht).elim (hFirst t) (hFirst' t)

theorem mono {first first' : Nat} {s s' : State} (hLe : first' ≤ first) (h : Adds first s s') :
    Adds first' s s' := by
  obtain ⟨ts, hTokens, hFirst⟩ := h.tokens
  exact ⟨h.files, ts, hTokens, fun t ht => Nat.le_trans hLe (hFirst t ht)⟩

end Adds

namespace State.Sound

variable {options : ReadOptions} {s s' : State}

theorem initial (options : ReadOptions) : (State.initial options).Sound options where
  numbered := by simp [State.initial]
  drawn := by simp [State.initial]
  ordered := by simp [State.initial]

theorem of_same (h : s.Sound options) (hFiles : s'.files = s.files)
    (hTokens : s'.tokens = s.tokens) : s'.Sound options where
  numbered := hFiles ▸ h.numbered
  drawn := by
    rw [hFiles, hTokens]
    exact h.drawn
  ordered := hTokens ▸ h.ordered

theorem id_lt (h : s.Sound options) {f : Source.File} (hf : f ∈ s.files) :
    f.id < s.files.length := by
  obtain ⟨i, hi, hFile⟩ := List.mem_iff_getElem.mp hf
  have := h.numbered i f (by rw [List.getElem?_eq_getElem hi, hFile])
  omega

theorem addFile (h : s.Sound options) (path text : String) :
    State.Sound options { s with files := s.files ++ [⟨s.files.length, path, text⟩] } where
  numbered := by
    intro i f hFile
    rw [List.getElem?_append] at hFile
    split at hFile
    · exact h.numbered i f hFile
    · next hLast =>
      obtain ⟨hi, rfl⟩ := List.getElem?_eq_some_iff.mp hFile
      have hOne : i - s.files.length < 1 := hi
      simp only [List.getElem_singleton]
      omega
  drawn := by
    intro t ht
    obtain ⟨hKind, hIgnored, f, hf, hCut⟩ := h.drawn t ht
    exact ⟨hKind, hIgnored, f, List.mem_append_left _ hf, hCut⟩
  ordered := h.ordered

theorem push (h : s.Sound options) {t : Token} {f : Source.File} (hFiles : s'.files = s.files)
    (hTokens : s'.tokens = s.tokens.push t) (hKind : t.kind ≠ .directive)
    (hIgnored : ¬(t.kind = .identifier ∧ t.text ∈ options.ignoredMacros)) (hf : f ∈ s.files)
    (hCut : t.CutFrom f)
    (hBefore : ∀ u ∈ s.tokens.toList, u.span.file = t.span.file → u.span.stop ≤ t.span.start) :
    s'.Sound options where
  numbered := hFiles ▸ h.numbered
  drawn := by
    rw [hFiles, hTokens, Array.toList_push]
    intro u hu
    rcases List.mem_append.mp hu with hu | hu
    · exact h.drawn u hu
    · rw [List.mem_singleton.mp hu]
      exact ⟨hKind, hIgnored, f, hf, hCut⟩
  ordered := by
    rw [hTokens, Array.toList_push, List.pairwise_append]
    refine ⟨h.ordered, List.pairwise_singleton _ _, ?_⟩
    intro u hu v hv
    rw [List.mem_singleton.mp hv]
    exact hBefore u hu

end State.Sound

def KeepsSound (options : ReadOptions) (enter : String → State → Progress) : Prop :=
  ∀ path s, s.Sound options →
    (enter path s).state.Sound options ∧ Adds s.files.length s (enter path s).state

variable {fs : FileSystem} {options : ReadOptions} {enter : String → State → Progress}

theorem runTokens_sound (hEnter : KeepsSound options enter) {file : String} {dir? : Option String}
    {opened : List Conditional} {s : State} {ts : List Token} {f : Source.File}
    (hSound : s.Sound options) (hf : f ∈ s.files) (hHome : ∀ t ∈ ts, t.span.file = f.id)
    (hCut : ∀ t ∈ ts, t.kind ≠ .directive → t.CutFrom f)
    (hOrder : ts.Pairwise fun t u => t.span.stop ≤ u.span.start)
    (hAhead : ∀ u ∈ s.tokens.toList, u.span.file = f.id → ∀ t ∈ ts, u.span.stop ≤ t.span.start) :
    (runTokens fs options enter file dir? opened s ts).state.Sound options ∧
      Adds f.id s (runTokens fs options enter file dir? opened s ts).state := by
  induction ts generalizing opened s with
  | nil =>
    unfold runTokens
    split
    · exact ⟨hSound, .of_same _ rfl rfl⟩
    · exact ⟨hSound, .of_same _ rfl rfl⟩
  | cons t ts ih =>
    have hRest : ∀ u ∈ ts, u.span.file = f.id := fun u hu => hHome u (List.mem_cons_of_mem t hu)
    have hCutRest : ∀ u ∈ ts, u.kind ≠ .directive → u.CutFrom f :=
      fun u hu => hCut u (List.mem_cons_of_mem t hu)
    obtain ⟨hFirst, hOrderRest⟩ := List.pairwise_cons.mp hOrder
    have hAheadRest : ∀ u ∈ s.tokens.toList, u.span.file = f.id →
        ∀ v ∈ ts, u.span.stop ≤ v.span.start :=
      fun u hu hFile v hv => hAhead u hu hFile v (List.mem_cons_of_mem t hv)
    unfold runTokens
    split
    · next opened' next hAction =>
      obtain ⟨hFiles, -, hTokens⟩ := action_proceed hAction
      rcases hTokens with hSame | ⟨hPush, hKind, hIgnored⟩
      · obtain ⟨hDone, hAdds⟩ := ih (hSound.of_same hFiles hSame) (hFiles ▸ hf) hRest hCutRest
          hOrderRest (hSame ▸ hAheadRest)
        exact ⟨hDone, (Adds.of_same _ hFiles hSame).trans hAdds⟩
      · have hHere := hHome t List.mem_cons_self
        have hNext : next.Sound options :=
          hSound.push hFiles hPush hKind hIgnored hf (hCut t List.mem_cons_self hKind)
            fun u hu hFile => hAhead u hu (hFile.trans hHere) t List.mem_cons_self
        have hAdds : Adds f.id s next :=
          ⟨hFiles ▸ List.prefix_refl _, [t], by rw [hPush, Array.toList_push], by simp [hHere]⟩
        have hAheadNext : ∀ u ∈ next.tokens.toList, u.span.file = f.id →
            ∀ v ∈ ts, u.span.stop ≤ v.span.start := by
          intro u hu hFile v hv
          rw [hPush, Array.toList_push] at hu
          rcases List.mem_append.mp hu with hu | hu
          · exact hAheadRest u hu hFile v hv
          · rw [List.mem_singleton.mp hu]
            exact hFirst v hv
        obtain ⟨hDone, hAdds'⟩ := ih hNext (hFiles ▸ hf) hRest hCutRest hOrderRest hAheadNext
        exact ⟨hDone, hAdds.trans hAdds'⟩
    · next path _ =>
      obtain ⟨hEntered, hNew⟩ := hEnter path s hSound
      have hAdds : Adds f.id s (enter path s).state :=
        hNew.mono (Nat.le_of_lt (hSound.id_lt hf))
      split
      · next next hRead =>
        rw [hRead] at hEntered hNew hAdds
        -- the tokens that were added come from other files, so those of this one are still ahead
        have hAheadNext : ∀ u ∈ next.tokens.toList, u.span.file = f.id →
            ∀ v ∈ ts, u.span.stop ≤ v.span.start := by
          intro u hu hFile v hv
          obtain ⟨us, hTokens, hOther⟩ := hNew.tokens
          rw [hTokens] at hu
          rcases List.mem_append.mp hu with hu | hu
          · exact hAheadRest u hu hFile v hv
          · have := hOther u hu
            have := hSound.id_lt hf
            omega
        obtain ⟨hDone, hAdds'⟩ := ih hEntered (hNew.files.subset hf) hRest hCutRest hOrderRest
          hAheadNext
        exact ⟨hDone, hAdds.trans hAdds'⟩
      · next next e hRead =>
        rw [hRead] at hEntered hAdds
        exact ⟨hEntered, hAdds⟩
    · exact ⟨hSound, .of_same _ rfl rfl⟩

theorem runText_sound (hEnter : KeepsSound options enter) (path text : String) {s : State}
    (hSound : s.Sound options) :
    (runText fs options enter path text s).state.Sound options ∧
      Adds s.files.length s (runText fs options enter path text s).state := by
  let f : Source.File := ⟨s.files.length, path, text⟩
  let recorded : State := { s with files := s.files ++ [f] }
  have hRecorded : recorded.Sound options := hSound.addFile path text
  have hAdds : Adds s.files.length s recorded :=
    ⟨List.prefix_append _ _, [], by rw [List.append_nil], by simp⟩
  simp only [runText]
  split
  · exact ⟨hRecorded, hAdds⟩
  · next ts hLex =>
    have hNoneYet : ∀ u ∈ recorded.tokens.toList, u.span.file = f.id →
        ∀ t ∈ ts, u.span.stop ≤ t.span.start := by
      intro u hu hFile
      obtain ⟨-, -, g, hg, hCut⟩ := hSound.drawn u hu
      have := hSound.id_lt hg
      have := hCut.file
      have : f.id = s.files.length := rfl
      omega
    let p := runTokens fs options enter path (Path.parent? path) [] recorded ts
    have hRun : p.state.Sound options ∧ Adds f.id recorded p.state :=
      runTokens_sound hEnter hRecorded (List.mem_append_right _ List.mem_cons_self)
        (Token.file_of_lex hLex) (fun t ht => Token.cutFrom_of_lex (f := f) hLex ht)
        (Token.pairwise_of_lex hLex) hNoneYet
    exact ⟨hRun.1, hAdds.trans hRun.2⟩

theorem readFile_sound (fs : FileSystem) (options : ReadOptions) (depth : Nat) :
    KeepsSound options (readFile fs options depth) := by
  induction depth with
  | zero => exact fun path s hSound => ⟨hSound, .of_same _ rfl rfl⟩
  | succ depth ih =>
    intro path s hSound
    simp only [readFile]
    split
    · exact ⟨hSound, .of_same _ rfl rfl⟩
    · let marked : State := { s with seen := (fs.canonical? path).getD path :: s.seen }
      have hMarked : marked.Sound options := hSound.of_same rfl rfl
      have hSame : Adds s.files.length s marked := .of_same _ rfl rfl
      split
      · exact ⟨hMarked, hSame⟩
      · obtain ⟨hDone, hAdds⟩ := runText_sound ih _ _ hMarked
        exact ⟨hDone, hSame.trans hAdds⟩

theorem Call.run_sound (fs : FileSystem) (call : Call) {s : State} (hSound : s.Sound options) :
    (call.run fs options s).state.Sound options := by
  cases call with
  | root path => exact (readFile_sound fs options _ path s hSound).1
  | source path text =>
    have hMarked : State.Sound options { s with seen := path :: s.seen } := hSound.of_same rfl rfl
    exact (runText_sound (readFile_sound fs options _) path text hMarked).1

theorem afterCalls_sound (fs : FileSystem) (calls : List Call) {s : State}
    (hSound : s.Sound options) : (afterCalls fs options calls s).Sound options := by
  induction calls generalizing s with
  | nil => exact hSound
  | cons call calls ih => exact ih (call.run_sound fs hSound)

/-- After any calls on one batch, failed ones among them, the files are numbered in the order in
which they were read, every token of the stream is a part of one of them and neither a directive
nor an identifier to be left out, and the tokens of one file stand in it one after the other. -/
theorem stream_of_calls (fs : FileSystem) (options : ReadOptions) (calls : List Call) :
    let s := afterCalls fs options calls (.initial options)
    (∀ (i : Nat) (f : Source.File), s.files[i]? = some f → f.id = i) ∧
      (∀ t ∈ s.tokens, t.kind ≠ .directive ∧
        ¬(t.kind = .identifier ∧ t.text ∈ options.ignoredMacros) ∧
        ∃ f ∈ s.files, t.span.file = f.id ∧ t.span.start < t.span.stop ∧
          t.span.stop ≤ byteLength f.text.toList ∧
          slice? f.text.toList t.span.start t.span.stop = some t.text.toList) ∧
      ∀ id, (tokensOf id s.tokens.toList).Pairwise fun t u =>
        t.span.start < u.span.start ∧ t.span.stop ≤ u.span.start := by
  intro s
  have hSound : s.Sound options := afterCalls_sound fs calls (.initial options)
  refine ⟨hSound.numbered, ?_, ?_⟩
  · intro t ht
    obtain ⟨hKind, hIgnored, f, hf, hCut⟩ := hSound.drawn t (Array.mem_toList_iff.mpr ht)
    exact ⟨hKind, hIgnored, f, hf, hCut.file, hCut.start_lt_stop, hCut.stop_le, hCut.text⟩
  · intro id
    have hOrdered := hSound.ordered.sublist (List.filter_sublist (p := (·.span.file == id)))
    refine hOrdered.imp_of_mem ?_
    intro t u ht hu hBefore
    obtain ⟨htMem, htFile⟩ := List.mem_filter.mp ht
    obtain ⟨-, huFile⟩ := List.mem_filter.mp hu
    obtain ⟨-, -, f, -, hCut⟩ := hSound.drawn t htMem
    have hStop := hBefore (by simp_all)
    have := hCut.start_lt_stop
    omega

end Preprocess

end SkeletonWeave
