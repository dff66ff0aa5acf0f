import SkeletonWeave.Proofs.Preprocess.Calls

/-!
# Reading comes to an end

Files may include themselves and each other to any depth. Reading them without a
limit on the depth is told here by rules with finite derivations: every file that is
asked for has exactly one result by them, which is the one that `addRoot` finds. It
exists because each file that is entered takes one more entry of the file system
out of those that are not yet seen; for the same reason no file is read twice.
-/

set_option autoImplicit false

namespace SkeletonWeave

namespace FileSystem

theorem mem_entries_of_entry? {fs : FileSystem} {location : Location} {bytes : ByteArray}
    (h : fs.entry? location = some (.file bytes)) :
    (location, FileEntry.file bytes) ∈ fs.entries := by
  unfold entry? at h
  split at h
  · cases h
  · obtain ⟨before, after, hEntries, -⟩ := List.lookup_eq_some_iff.mp h
    rw [hEntries]
    simp

theorem exists_entry_of_readText? {fs : FileSystem} {path text : String}
    (h : fs.readText? path = some text) :
    ∃ entry ∈ fs.entries, fs.canonical? path = some (pathOf entry.1) := by
  simp only [readText?, read?, Option.bind_eq_bind, Option.bind_eq_some_iff] at h
  obtain ⟨bytes, ⟨location, hLocation, hEntry⟩, -⟩ := h
  split at hEntry
  · next hFile =>
    exact ⟨_, mem_entries_of_entry? hFile, by rw [canonical?, hLocation, Option.map_some]⟩
  · cases hEntry

end FileSystem

theorem Path.same_self (path : String) : Path.same path path = true :=
  beq_self_eq_true _

namespace Preprocess

def canonicalPath (fs : FileSystem) (path : String) : String :=
  (fs.canonical? path).getD path

def State.isSeen (s : State) (path : String) : Bool :=
  s.seen.any (Path.same path)

def State.see (s : State) (path : String) : State :=
  { s with seen := path :: s.seen }

def State.record (s : State) (path text : String) : State :=
  { s with files := s.files ++ [⟨s.files.length, path, text⟩] }

inductive Task where
  | file (path : String) (s : State)
  | text (path text : String) (s : State)
  | tokens (file : String) (dir? : Option String) (opened : List Conditional) (s : State)
      (ts : List Token)

/-- How a task ends, where files may include files to any depth. -/
inductive Ends (fs : FileSystem) (options : ReadOptions) : Task → Progress → Prop
  | known {path : String} {s : State} :
    s.isSeen (canonicalPath fs path) = true → Ends fs options (.file path s) ⟨s, none⟩
  | unreadable {path : String} {s : State} :
    s.isSeen (canonicalPath fs path) = false → fs.readText? path = none →
    Ends fs options (.file path s) ⟨s.see (canonicalPath fs path), some (.unreadable path)⟩
  | readable {path text : String} {s : State} {p : Progress} :
    s.isSeen (canonicalPath fs path) = false → fs.readText? path = some text →
    Ends fs options (.text (canonicalPath fs path) text (s.see (canonicalPath fs path))) p →
    Ends fs options (.file path s) p
  | unlexable {path text : String} {s : State} {e : Source.Error} :
    Token.lex s.files.length path text = .error e →
    Ends fs options (.text path text s) ⟨s.record path text, some e⟩
  | lexed {path text : String} {s : State} {ts : List Token} {p : Progress} :
    Token.lex s.files.length path text = .ok ts →
    Ends fs options (.tokens path (Path.parent? path) [] (s.record path text) ts) p →
    Ends fs options (.text path text s) p
  | closed {file : String} {dir? : Option String} {s : State} :
    Ends fs options (.tokens file dir? [] s []) ⟨s, none⟩
  | unclosed {file : String} {dir? : Option String} {c : Conditional} {outer : List Conditional}
      {s : State} :
    Ends fs options (.tokens file dir? (c :: outer) s [])
      ⟨s, some (.located (.unterminatedConditional c.directive) file c.start c.length)⟩
  | proceeds {file : String} {dir? : Option String} {opened opened' : List Conditional}
      {s s' : State} {t : Token} {ts : List Token} {p : Progress} :
    action fs options dir? opened s t = .proceed opened' s' →
    Ends fs options (.tokens file dir? opened' s' ts) p →
    Ends fs options (.tokens file dir? opened s (t :: ts)) p
  | enters {file path : String} {dir? : Option String} {opened : List Conditional}
      {s s' : State} {t : Token} {ts : List Token} {p : Progress} :
    action fs options dir? opened s t = .enter path →
    Ends fs options (.file path s) ⟨s', none⟩ →
    Ends fs options (.tokens file dir? opened s' ts) p →
    Ends fs options (.tokens file dir? opened s (t :: ts)) p
  | breaks {file path : String} {dir? : Option String} {opened : List Conditional}
      {s s' : State} {t : Token} {ts : List Token} {e : Source.Error} :
    action fs options dir? opened s t = .enter path →
    Ends fs options (.file path s) ⟨s', some e⟩ →
    Ends fs options (.tokens file dir? opened s (t :: ts)) ⟨s', some e⟩
  | stops {file : String} {dir? : Option String} {opened : List Conditional} {s : State}
      {t : Token} {ts : List Token} {cause : Source.Cause} :
    action fs options dir? opened s t = .stop cause →
    Ends fs options (.tokens file dir? opened s (t :: ts))
      ⟨s, some (.located cause file t.span.start t.span.length)⟩

variable {fs : FileSystem} {options : ReadOptions}

theorem Ends.unique {task : Task} {p q : Progress} (h : Ends fs options task p)
    (h' : Ends fs options task q) : p = q := by
  induction h generalizing q with
  | known hSeen => cases h' <;> simp_all
  | unreadable hSeen hText => cases h' <;> simp_all
  | readable hSeen hText _ ih =>
    cases h' with
    | known hSeen' => simp_all
    | unreadable _ hText' => simp_all
    | readable _ hText' h' =>
      obtain rfl : _ = _ := Option.some.inj (hText.symm.trans hText')
      exact ih h'
  | unlexable hLex => cases h' <;> simp_all
  | lexed hLex _ ih =>
    cases h' with
    | unlexable hLex' => simp_all
    | lexed hLex' h' =>
      obtain rfl : _ = _ := Except.ok.inj (hLex.symm.trans hLex')
      exact ih h'
  | closed => cases h'; rfl
  | unclosed => cases h'; rfl
  | proceeds hAction _ ih =>
    cases h' with
    | proceeds hAction' h' =>
      cases hAction.symm.trans hAction'
      exact ih h'
    | enters hAction' => cases hAction.symm.trans hAction'
    | breaks hAction' => cases hAction.symm.trans hAction'
    | stops hAction' => cases hAction.symm.trans hAction'
  | enters hAction _ _ ihFile ihRest =>
    cases h' with
    | proceeds hAction' => cases hAction.symm.trans hAction'
    | enters hAction' hFile hRest =>
      cases hAction.symm.trans hAction'
      cases ihFile hFile
      exact ihRest hRest
    | breaks hAction' hFile =>
      cases hAction.symm.trans hAction'
      cases ihFile hFile
    | stops hAction' => cases hAction.symm.trans hAction'
  | breaks hAction _ ihFile =>
    cases h' with
    | proceeds hAction' => cases hAction.symm.trans hAction'
    | enters hAction' hFile =>
      cases hAction.symm.trans hAction'
      cases ihFile hFile
    | breaks hAction' hFile =>
      cases hAction.symm.trans hAction'
      exact ihFile hFile
    | stops hAction' => cases hAction.symm.trans hAction'
  | stops hAction =>
    cases h' with
    | proceeds hAction' => cases hAction.symm.trans hAction'
    | enters hAction' => cases hAction.symm.trans hAction'
    | breaks hAction' => cases hAction.symm.trans hAction'
    | stops hAction' =>
      cases hAction.symm.trans hAction'
      rfl

/-- The number of entries of a file system whose path a batch has not seen. -/
def unread (fs : FileSystem) (s : State) : Nat :=
  (fs.entries.filter fun entry => !s.isSeen (FileSystem.pathOf entry.1)).length

theorem unread_le (fs : FileSystem) (s : State) : unread fs s ≤ fs.entries.length :=
  List.length_filter_le _ _

theorem unread_of_seen {s s' : State} (h : s'.seen = s.seen) : unread fs s' = unread fs s := by
  simp only [unread, State.isSeen, h]

theorem filter_unseen_see (fs : FileSystem) (s : State) (path : String) :
    (fs.entries.filter fun entry => !(s.see path).isSeen (FileSystem.pathOf entry.1)).Sublist
      (fs.entries.filter fun entry => !s.isSeen (FileSystem.pathOf entry.1)) := by
  have hFilter : (fs.entries.filter fun entry =>
      !(s.see path).isSeen (FileSystem.pathOf entry.1)) =
      (fs.entries.filter fun entry => !s.isSeen (FileSystem.pathOf entry.1)).filter
        fun entry => !Path.same (FileSystem.pathOf entry.1) path := by
    rw [List.filter_filter]
    simp only [State.see, State.isSeen, List.any_cons, Bool.not_or]
  rw [hFilter]
  exact List.filter_sublist

theorem unread_see_le (fs : FileSystem) (s : State) (path : String) :
    unread fs (s.see path) ≤ unread fs s :=
  (filter_unseen_see fs s path).length_le

/-- Entering a file takes its entry out of those that are not yet seen. -/
theorem unread_see_lt {s : State} {path text : String}
    (hUnseen : s.isSeen (canonicalPath fs path) = false) (hText : fs.readText? path = some text) :
    unread fs (s.see (canonicalPath fs path)) < unread fs s := by
  obtain ⟨entry, hEntry, hCanonical⟩ := FileSystem.exists_entry_of_readText? hText
  have hPath : canonicalPath fs path = FileSystem.pathOf entry.1 := by
    rw [canonicalPath, hCanonical, Option.getD_some]
  rw [hPath] at hUnseen ⊢
  refine Nat.lt_of_le_of_ne (unread_see_le fs s _) fun hSame => ?_
  have hFilters := (filter_unseen_see fs s _).eq_of_length hSame
  have hMem : entry ∈ fs.entries.filter fun e => !s.isSeen (FileSystem.pathOf e.1) :=
    List.mem_filter.mpr ⟨hEntry, by rw [hUnseen]; rfl⟩
  rw [← hFilters] at hMem
  have hSeen : (s.see (FileSystem.pathOf entry.1)).isSeen (FileSystem.pathOf entry.1) = true := by
    rw [State.isSeen, State.see, List.any_cons, Path.same_self, Bool.true_or]
  simpa [hSeen] using (List.mem_filter.mp hMem).2

/-- Whether a reader of files that is started with at most `n` entries unseen ends as the rules
say, and unsees none. -/
def EndsWithin (fs : FileSystem) (options : ReadOptions) (n : Nat)
    (enter : String → State → Progress) : Prop :=
  ∀ path s, unread fs s ≤ n →
    Ends fs options (.file path s) (enter path s) ∧ unread fs (enter path s).state ≤ n

theorem ends_runTokens {n : Nat} {enter : String → State → Progress}
    (hEnter : EndsWithin fs options n enter) {file : String} {dir? : Option String}
    {opened : List Conditional} {s : State} {ts : List Token} (hUnread : unread fs s ≤ n) :
    Ends fs options (.tokens file dir? opened s ts)
        (runTokens fs options enter file dir? opened s ts) ∧
      unread fs (runTokens fs options enter file dir? opened s ts).state ≤ n := by
  induction ts generalizing opened s with
  | nil =>
    unfold runTokens
    split
    · exact ⟨.closed, hUnread⟩
    · exact ⟨.unclosed, hUnread⟩
  | cons t ts ih =>
    unfold runTokens
    split
    · next opened' next hAction =>
      obtain ⟨-, hSeen, -⟩ := action_proceed hAction
      rw [← unread_of_seen hSeen] at hUnread
      obtain ⟨hEnds, hLess⟩ := @ih opened' next hUnread
      exact ⟨.proceeds hAction hEnds, hLess⟩
    · next path hAction =>
      obtain ⟨hFile, hLess⟩ := hEnter path s hUnread
      split
      · next next hRead =>
        rw [hRead] at hFile hLess
        obtain ⟨hEnds, hLess'⟩ := @ih opened next hLess
        exact ⟨.enters hAction hFile hEnds, hLess'⟩
      · next next e hRead =>
        rw [hRead] at hFile hLess
        exact ⟨.breaks hAction hFile, hLess⟩
    · next cause hAction => exact ⟨.stops hAction, hUnread⟩

theorem ends_runText {n : Nat} {enter : String → State → Progress}
    (hEnter : EndsWithin fs options n enter) (path text : String) {s : State}
    (hUnread : unread fs s ≤ n) :
    Ends fs options (.text path text s) (runText fs options enter path text s) ∧
      unread fs (runText fs options enter path text s).state ≤ n := by
  have hRecorded : unread fs (s.record path text) ≤ n := hUnread
  simp only [runText]
  split
  · next hLex => exact ⟨.unlexable hLex, hRecorded⟩
  · next hLex =>
    obtain ⟨hEnds, hLess⟩ := ends_runTokens hEnter hRecorded
    exact ⟨.lexed hLex hEnds, hLess⟩

theorem ends_readFile {depth n : Nat} (hDepth : n < depth) :
    EndsWithin fs options n (readFile fs options depth) := by
  induction depth generalizing n with
  | zero => omega
  | succ depth ih =>
    intro path s hUnread
    simp only [readFile]
    split
    · next hSeen => exact ⟨.known hSeen, hUnread⟩
    · next hSeen =>
      rw [Bool.not_eq_true] at hSeen
      split
      · next hText =>
        exact ⟨.unreadable hSeen hText, Nat.le_trans (unread_see_le fs s _) hUnread⟩
      · next text hText =>
        have hLess : unread fs (s.see (canonicalPath fs path)) < unread fs s :=
          unread_see_lt hSeen hText
        obtain ⟨hEnds, hLeft⟩ := ends_runText
          (ih (n := unread fs (s.see (canonicalPath fs path))) (by omega))
          (canonicalPath fs path) text (Nat.le_refl _)
        exact ⟨.readable hSeen hText hEnds, Nat.le_trans hLeft (by omega)⟩

theorem ends_addRoot (fs : FileSystem) (options : ReadOptions) (path : String) (s : State) :
    Ends fs options (.file path s) (addRoot fs options path s) :=
  (ends_readFile (Nat.lt_succ_of_le (unread_le fs s)) path s (Nat.le_refl _)).1

/-- Whether the files of a batch are seen, are there under their canonical paths with the text
that stands there, and are all different. -/
structure State.ReadsOnce (fs : FileSystem) (s : State) : Prop where
  seen : ∀ f ∈ s.files, f.path ∈ s.seen
  canonical : ∀ f ∈ s.files, ∃ path, fs.canonical? path = some f.path ∧
    fs.readText? path = some f.text
  nodup : (s.files.map (·.path)).Nodup

namespace State.ReadsOnce

variable {s s' : State}

theorem initial (fs : FileSystem) (options : ReadOptions) : (State.initial options).ReadsOnce fs where
  seen := by simp [State.initial]
  canonical := by simp [State.initial]
  nodup := by simp [State.initial]

theorem of_same (h : s.ReadsOnce fs) (hFiles : s'.files = s.files) (hSeen : s'.seen = s.seen) :
    s'.ReadsOnce fs where
  seen := by
    rw [hFiles, hSeen]
    exact h.seen
  canonical := hFiles ▸ h.canonical
  nodup := hFiles ▸ h.nodup

theorem see (h : s.ReadsOnce fs) (path : String) : (s.see path).ReadsOnce fs where
  seen f hf := List.mem_cons_of_mem path (h.seen f hf)
  canonical := h.canonical
  nodup := h.nodup

theorem record (h : s.ReadsOnce fs) {path text : String}
    (hUnseen : s.isSeen (canonicalPath fs path) = false) (hText : fs.readText? path = some text) :
    ((s.see (canonicalPath fs path)).record (canonicalPath fs path) text).ReadsOnce fs := by
  have hNew : canonicalPath fs path ∉ s.seen := by
    intro hMem
    rw [State.isSeen, List.any_eq_false] at hUnseen
    exact hUnseen _ hMem (Path.same_self _)
  have hCanonical : fs.canonical? path = some (canonicalPath fs path) := by
    obtain ⟨entry, -, hEntry⟩ := FileSystem.exists_entry_of_readText? hText
    rw [canonicalPath, hEntry, Option.getD_some]
  constructor
  · intro f hf
    rcases List.mem_append.mp hf with hf | hf
    · exact List.mem_cons_of_mem _ (h.seen f hf)
    · rw [List.mem_singleton.mp hf]
      exact List.mem_cons_self
  · intro f hf
    rcases List.mem_append.mp hf with hf | hf
    · exact h.canonical f hf
    · rw [List.mem_singleton.mp hf]
      exact ⟨path, hCanonical, hText⟩
  · rw [State.record, List.map_append, List.nodup_append]
    refine ⟨h.nodup, by simp, ?_⟩
    intro old hOld new hLast hSame
    obtain ⟨f, hf, rfl⟩ := List.mem_map.mp hOld
    rw [List.map_singleton, List.mem_singleton] at hLast
    have hPath : f.path = canonicalPath fs path := hSame.trans hLast
    exact hNew (hPath ▸ h.seen f hf)

end State.ReadsOnce

theorem runTokens_readsOnce {enter : String → State → Progress}
    (hEnter : ∀ path s, s.ReadsOnce fs → (enter path s).state.ReadsOnce fs) {file : String}
    {dir? : Option String} {opened : List Conditional} {s : State} {ts : List Token}
    (h : s.ReadsOnce fs) : (runTokens fs options enter file dir? opened s ts).state.ReadsOnce fs := by
  induction ts generalizing opened s with
  | nil =>
    unfold runTokens
    split <;> exact h
  | cons t ts ih =>
    unfold runTokens
    split
    · next hAction =>
      obtain ⟨hFiles, hSeen, -⟩ := action_proceed hAction
      exact ih (h.of_same hFiles hSeen)
    · next path _ =>
      have hEntered := hEnter path s h
      split
      · next hRead =>
        rw [hRead] at hEntered
        exact ih hEntered
      · next hRead =>
        rw [hRead] at hEntered
        exact hEntered
    · exact h

theorem readFile_readsOnce {depth : Nat} {path : String} {s : State} (h : s.ReadsOnce fs) :
    (readFile fs options depth path s).state.ReadsOnce fs := by
  induction depth generalizing path s with
  | zero => exact h
  | succ depth ih =>
    simp only [readFile]
    split
    · exact h
    · next hSeen =>
      rw [Bool.not_eq_true] at hSeen
      split
      · exact h.see _
      · next hText =>
        have hRecorded := h.record hSeen hText
        simp only [runText]
        split
        · exact hRecorded
        · exact runTokens_readsOnce (fun _ _ => ih) hRecorded

theorem afterRoots_readsOnce {roots : List String} {s : State} (h : s.ReadsOnce fs) :
    (afterCalls fs options (roots.map .root) s).ReadsOnce fs := by
  induction roots generalizing s with
  | nil => exact h
  | cons path roots ih => exact ih (readFile_readsOnce h)

/-- Reading a file comes to an end, however files include one another, and in one way only; and
of the files that some roots name or include, each is recorded once, under its canonical path and
with the text that stands there. -/
theorem reading_ends_with_each_file_once (fs : FileSystem) (options : ReadOptions) :
    (∀ path s p, Ends fs options (.file path s) p ↔ p = addRoot fs options path s) ∧
      ∀ roots : List String,
        let s := afterCalls fs options (roots.map .root) (.initial options)
        (∀ f ∈ s.files, ∃ path, fs.canonical? path = some f.path ∧
          fs.readText? path = some f.text) ∧
        (s.files.map (·.path)).Nodup := by
  constructor
  · intro path s p
    constructor
    · intro hEnds
      exact hEnds.unique (ends_addRoot fs options path s)
    · rintro rfl
      exact ends_addRoot fs options path s
  · intro roots s
    have hOnce : s.ReadsOnce fs := afterRoots_readsOnce (.initial fs options)
    exact ⟨hOnce.canonical, hOnce.nodup⟩

end Preprocess

end SkeletonWeave
