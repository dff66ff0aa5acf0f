import SkeletonWeave.Proofs.Declaration.Taking
import SkeletonWeave.Proofs.Preprocess.Termination
import SkeletonWeave.Proofs.Token.Flaws

/-!
# Where reading fails

A failure names a file that was read and a part of its text between boundaries:
that of the reader of tokens, that of a directive which leaves a conditional
open or closes none, and that of a bracket. The one exception is a literal that
breaks off in an escape at the end of its file.
-/

set_option autoImplicit false

namespace SkeletonWeave

open Text (IsBoundary byteLength)

namespace Source

/-- Whether a failure is that of a path that cannot be read, or points into one of the files. -/
def Error.PointsIntoOneOf (files : List File) : Error → Prop
  | .unreadable _ => True
  | .located cause name start length =>
    ∃ f ∈ files, f.path = name ∧ PointsInto cause start length f.text.toList

def Covers (text : List Char) (start length : Nat) : Prop :=
  IsBoundary text start ∧ IsBoundary text (start + length)

end Source

open Source (PointsInto Covers)

theorem Token.Stands.covers {f : Source.File} {t : Token} (h : t.Stands f) :
    Covers f.text.toList t.span.start t.span.length := by
  refine ⟨h.starts, ?_⟩
  rw [Source.Span.length, Nat.add_sub_cancel' (Nat.le_of_lt h.start_lt_stop)]
  exact h.stops

theorem Token.CutFrom.covers {f : Source.File} {t : Token} (h : t.CutFrom f) :
    Covers f.text.toList t.span.start t.span.length := by
  obtain ⟨before, after, hText, hStart, hStop⟩ := Text.exists_of_slice? h.text
  rw [Source.Span.length, ← hStop, Nat.add_sub_cancel_left, hText]
  refine ⟨⟨before, _, rfl, hStart⟩, ⟨before ++ t.text.toList, after, by rw [List.append_assoc], ?_⟩⟩
  rw [Text.byteLength_append, hStart]

namespace Preprocess

variable {fs : FileSystem} {options : ReadOptions}

def OpenedIn (text : List Char) (opened : List Conditional) : Prop :=
  ∀ c ∈ opened, Covers text c.start c.length

theorem directiveAction_opened {dir? : Option String} {opened opened' : List Conditional}
    {s s' : State} {name : String} {rest : List Char}
    (h : directiveAction fs options dir? opened s name rest = .proceed opened' s') :
    opened' = opened := by
  unfold directiveAction at h
  repeat' split at h
  all_goals cases h
  all_goals rfl

theorem conditionalAction_opened {dir? : Option String} {opened opened' : List Conditional}
    {s s' : State} {t : Token} {text : List Char} (hOpened : OpenedIn text opened)
    (ht : Covers text t.span.start t.span.length)
    (h : conditionalAction fs options dir? opened s t = .proceed opened' s') :
    OpenedIn text opened' := by
  have hPush {c : Conditional} (hStart : c.start = t.span.start)
      (hLength : c.length = t.span.length) : OpenedIn text (c :: opened) := by
    refine List.forall_mem_cons.mpr ⟨?_, hOpened⟩
    rw [hStart, hLength]
    exact ht
  rcases opened with - | ⟨c, outer⟩
  · simp only [conditionalAction] at h
    repeat' split at h
    all_goals first | (obtain rfl := directiveAction_opened h) | cases h
    all_goals first | exact hOpened | exact hPush rfl rfl
  · obtain ⟨hTop, hOuter⟩ := List.forall_mem_cons.mp hOpened
    simp only [conditionalAction] at h
    repeat' split at h
    all_goals first | (obtain rfl := directiveAction_opened h) | cases h
    all_goals first
      | exact hOpened
      | exact hOuter
      | exact hPush rfl rfl
      | exact List.forall_mem_cons.mpr ⟨hTop, hOuter⟩

theorem directiveAction_ne_stop {dir? : Option String} {opened : List Conditional} {s : State}
    {name : String} {rest : List Char} {cause : Source.Cause} :
    directiveAction fs options dir? opened s name rest ≠ .stop cause := by
  unfold directiveAction
  repeat' split
  all_goals nofun

theorem action_stop {dir? : Option String} {opened : List Conditional} {s : State} {t : Token}
    {cause : Source.Cause} (h : action fs options dir? opened s t = .stop cause) :
    cause.isLiteral = false := by
  unfold action at h
  split at h
  · rcases opened with - | ⟨c, outer⟩ <;> simp only [conditionalAction] at h
    all_goals repeat' split at h
    all_goals first | exact absurd h directiveAction_ne_stop | cases h
    all_goals rfl
  · split at h <;> cases h

theorem action_opened {dir? : Option String} {opened opened' : List Conditional} {s s' : State}
    {t : Token} {text : List Char} (hOpened : OpenedIn text opened)
    (ht : Covers text t.span.start t.span.length)
    (h : action fs options dir? opened s t = .proceed opened' s') : OpenedIn text opened' := by
  unfold action at h
  split at h
  · exact conditionalAction_opened hOpened ht h
  · split at h
    · cases h
      exact hOpened
    · cases h
      exact hOpened

namespace Task

def start : Task → State
  | file _ s => s
  | text _ _ s => s
  | tokens _ _ _ s _ => s

/-- Whether the tokens that are run through, and the directives of the conditionals that are open,
stand in a file that is named by its path. -/
def Stands : Task → Prop
  | tokens path _ opened s ts => ∃ f ∈ s.files, f.path = path ∧ (∀ t ∈ ts, t.Stands f) ∧
    OpenedIn f.text.toList opened
  | _ => True

end Task

/-- Reading keeps the files that are there, and its failures point into them or into those that it
adds. -/
theorem Ends.places {task : Task} {p : Progress} (h : Ends fs options task p) :
    task.start.files <+: p.state.files ∧ (task.Stands → ∀ e, p.failure? = some e →
      e.PointsIntoOneOf p.state.files) := by
  induction h with
  | known | closed => exact ⟨List.prefix_refl _, fun _ => nofun⟩
  | unreadable =>
    refine ⟨List.prefix_refl _, ?_⟩
    rintro - _ ⟨⟩
    trivial
  | readable _ _ _ ih => exact ⟨ih.1, fun _ => ih.2 trivial⟩
  | @unlexable path text s e hLex =>
    refine ⟨List.prefix_append _ _, ?_⟩
    rintro - _ ⟨⟩
    obtain ⟨cause, start, length, rfl, hPoints⟩ := Token.lex_error hLex
    exact ⟨⟨s.files.length, path, text⟩, by simp [State.record], rfl, hPoints⟩
  | @lexed path text s ts p hLex _ ih =>
    refine ⟨(List.prefix_append _ _).trans ih.1, fun _ => ih.2 ?_⟩
    exact ⟨⟨s.files.length, path, text⟩, by simp [State.record], rfl, Token.stands_of_lex hLex,
      by simp [OpenedIn]⟩
  | unclosed =>
    refine ⟨List.prefix_refl _, ?_⟩
    rintro ⟨f, hf, rfl, -, hOpened⟩ _ ⟨⟩
    obtain ⟨hStart, hStop⟩ := hOpened _ List.mem_cons_self
    exact ⟨f, hf, rfl, .of_boundaries rfl hStart hStop⟩
  | @proceeds file dir? opened opened' s s' t ts p hAction _ ih =>
    obtain ⟨hFiles, -⟩ := action_proceed hAction
    refine ⟨hFiles ▸ ih.1, ?_⟩
    rintro ⟨f, hf, hPath, hStands, hOpened⟩
    obtain ⟨ht, hRest⟩ := List.forall_mem_cons.mp hStands
    exact ih.2 ⟨f, hFiles ▸ hf, hPath, hRest, action_opened hOpened ht.covers hAction⟩
  | enters _ _ _ ihFile ihRest =>
    refine ⟨ihFile.1.trans ihRest.1, ?_⟩
    rintro ⟨f, hf, hPath, hStands, hOpened⟩
    exact ihRest.2 ⟨f, ihFile.1.subset hf, hPath, (List.forall_mem_cons.mp hStands).2, hOpened⟩
  | breaks _ _ ihFile => exact ⟨ihFile.1, fun _ => ihFile.2 trivial⟩
  | @stops file dir? opened s t ts cause hAction =>
    refine ⟨List.prefix_refl _, ?_⟩
    rintro ⟨f, hf, rfl, hStands, -⟩ _ ⟨⟩
    obtain ⟨hStart, hStop⟩ := (hStands t List.mem_cons_self).covers
    exact ⟨f, hf, rfl, .of_boundaries (action_stop hAction) hStart hStop⟩

theorem ends_addSource (fs : FileSystem) (options : ReadOptions) (path text : String) (s : State) :
    Ends fs options (.text path text (s.see path)) (addSource fs options path text s) :=
  (ends_runText (ends_readFile (Nat.lt_succ_of_le (unread_le fs (s.see path)))) path text
    (Nat.le_refl _)).1

theorem Call.run_places (fs : FileSystem) (options : ReadOptions) (call : Call) (s : State)
    {e : Source.Error} (h : (call.run fs options s).failure? = some e) :
    e.PointsIntoOneOf (call.run fs options s).state.files := by
  cases call with
  | root path => exact (ends_addRoot fs options path s).places.2 trivial e h
  | source path text => exact (ends_addSource fs options path text s).places.2 trivial e h

end Preprocess

theorem find?_of_numbered {files : List Source.File}
    (hNumbered : ∀ (i : Nat) (f : Source.File), files[i]? = some f → f.id = i) {f : Source.File}
    (hf : f ∈ files) : files.find? (fun g => g.id == f.id) = some f := by
  cases hFound : files.find? (fun g => g.id == f.id) with
  | none =>
    have hNone := List.find?_eq_none.mp hFound f hf
    simp at hNone
  | some g =>
    have hSame : g.id = f.id := by simpa using List.find?_some hFound
    obtain ⟨i, hi⟩ := List.mem_iff_getElem?.mp hf
    obtain ⟨j, hj⟩ := List.mem_iff_getElem?.mp (List.mem_of_find?_eq_some hFound)
    rw [hNumbered i f hi, hNumbered j g hj] at hSame
    rw [hSame, hi] at hj
    exact hj.symm

theorem Declaration.read_places {files : List Source.File} {ts : List Token}
    (hNumbered : ∀ (i : Nat) (f : Source.File), files[i]? = some f → f.id = i)
    (hCut : ∀ t ∈ ts, ∃ f ∈ files, t.CutFrom f) {e : Source.Error}
    (h : read files ts = .error e) : e.PointsIntoOneOf files := by
  obtain ⟨fault, ⟨t, ht, hFault⟩, rfl⟩ := (read_groups files ts).2 e h
  obtain ⟨f, hf, hFrom⟩ := hCut t ht
  obtain ⟨hSpan, hCause⟩ : fault.span = t.span ∧ fault.cause.isLiteral = false := by
    rcases hFault with ⟨-, rfl⟩ | ⟨-, rfl⟩
    · exact ⟨rfl, rfl⟩
    · exact ⟨rfl, rfl⟩
  have hFound := find?_of_numbered hNumbered hf
  obtain ⟨hStart, hStop⟩ := hFrom.covers
  rw [Fault.toError, hSpan, hFrom.file, hFound]
  exact ⟨f, hf, rfl, .of_boundaries hCause hStart hStop⟩

namespace Preprocess

/-- Every failure of reading tokens, files or declarations names a file that was read and points at
a part of its text between boundaries, or at a literal that breaks off in an escape. -/
theorem failures_point_into_files (fs : FileSystem) (options : ReadOptions) (calls : List Call) :
    let s := afterCalls fs options calls (.initial options)
    (∀ file name text e, Token.lex file name text = .error e →
      e.PointsIntoOneOf [⟨file, name, text⟩]) ∧
    (∀ (call : Call) e, (call.run fs options s).failure? = some e →
      e.PointsIntoOneOf (call.run fs options s).state.files) ∧
    ∀ e, Declaration.read s.files s.tokens.toList = .error e → e.PointsIntoOneOf s.files := by
  intro s
  have hSound : s.Sound options := afterCalls_sound fs calls (.initial options)
  refine ⟨fun file name text e hLex => ?_, fun call e => call.run_places fs options s,
    fun e hRead => ?_⟩
  · obtain ⟨cause, start, length, rfl, hPoints⟩ := Token.lex_error hLex
    exact ⟨_, List.mem_singleton_self _, rfl, hPoints⟩
  · exact Declaration.read_places hSound.numbered (fun t ht => (hSound.drawn t ht).2.2) hRead

theorem failures_of_unclosed_texts :
    let fs : FileSystem := ⟨[], []⟩
    let options : ReadOptions := ⟨[], [], []⟩
    let s := afterCalls fs options [.source "s.cpp" "\x7d"] (.initial options)
    let call : Call := .source "t.cpp" "#if A"
    ∃ e e' e'', Token.lex 0 "t.cpp" "\"a" = .error e ∧
      e.PointsIntoOneOf [⟨0, "t.cpp", "\"a"⟩] ∧
      (call.run fs options s).failure? = some e' ∧
      e'.PointsIntoOneOf (call.run fs options s).state.files ∧
      Declaration.read s.files s.tokens.toList = .error e'' ∧ e''.PointsIntoOneOf s.files := by
  intro fs options s call
  obtain ⟨hLex, hCall, hRead⟩ := failures_point_into_files fs options [.source "s.cpp" "\x7d"]
  have hLiteral : Token.lex 0 "t.cpp" "\"a" =
      .error (.located .unterminatedString "t.cpp" 0 2) := by decide +kernel
  have hOpen : (call.run fs options s).failure? =
      some (.located (.unterminatedConditional "if") "t.cpp" 0 5) := by decide +kernel
  have hNone : (Declaration.read s.files s.tokens.toList).toOption.isNone = true := by
    decide +kernel
  cases hBrace : Declaration.read s.files s.tokens.toList with
  | ok d =>
    rw [hBrace] at hNone
    cases hNone
  | error e =>
    exact ⟨_, _, e, hLiteral, hLex _ _ _ _ hLiteral, hOpen, hCall call _ hOpen, rfl, hRead e hBrace⟩

/-- The span of a literal that breaks off in an escape does not lie within its text. -/
theorem literal_broken_in_escape :
    Token.lex 0 "t.cpp" "\"\\" = .error (.located .unterminatedString "t.cpp" 0 3) ∧
      byteLength "\"\\".toList = 2 :=
  ⟨by decide +kernel, by decide +kernel⟩

end Preprocess

end SkeletonWeave
