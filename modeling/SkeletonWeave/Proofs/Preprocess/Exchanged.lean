import SkeletonWeave.Proofs.FileSystem.Exchange
import SkeletonWeave.Proofs.Preprocess.Rewritten
import SkeletonWeave.Proofs.Preprocess.Termination

/-!
# Reading with another text of one file

Once a file was read, its text counts no more. So a batch whose first root got
another text reads this text, and all other files as before.
-/

set_option autoImplicit false

namespace SkeletonWeave

open FileSystem (Exchanged)

namespace Preprocess

variable {fs fs' : FileSystem} {path text : String}

theorem action_exchanged (h : Exchanged fs fs' path text) (options : ReadOptions)
    (dir? : Option String) (opened : List Conditional) (s : State) (t : Token) :
    action fs' options dir? opened s t = action fs options dir? opened s t := by
  have hFiles : fs'.isFile = fs.isFile := funext h.isFile
  simp only [action, conditionalAction, directiveAction, resolve?, hFiles]

def AlikeAfter (path : String) (enter enter' : String → State → Progress) : Prop :=
  ∀ other s, s.isSeen path = true →
    enter' other s = enter other s ∧ (enter other s).state.isSeen path = true

theorem runTokens_alike (h : Exchanged fs fs' path text) {seen : String}
    {enter enter' : String → State → Progress} (hEnter : AlikeAfter seen enter enter')
    (options : ReadOptions) (file : String) (dir? : Option String) (opened : List Conditional)
    {s : State} (hSeen : s.isSeen seen = true) (ts : List Token) :
    runTokens fs' options enter' file dir? opened s ts =
        runTokens fs options enter file dir? opened s ts ∧
      (runTokens fs options enter file dir? opened s ts).state.isSeen seen = true := by
  induction ts generalizing opened s with
  | nil =>
    cases opened with
    | nil => exact ⟨rfl, hSeen⟩
    | cons c outer => exact ⟨rfl, hSeen⟩
  | cons t ts ih =>
    rw [runTokens, runTokens, action_exchanged h]
    split
    · next opened' next hAction =>
      obtain ⟨-, hSame, -⟩ := action_proceed hAction
      exact ih opened' (by rw [State.isSeen, hSame]; exact hSeen)
    · next other _ =>
      obtain ⟨hRead, hKept⟩ := hEnter other s hSeen
      rw [hRead]
      split
      · next next hNext =>
        rw [hNext] at hKept
        exact ih opened hKept
      · next hNext =>
        rw [hNext] at hKept
        exact ⟨rfl, hKept⟩
    · exact ⟨rfl, hSeen⟩

theorem runText_alike (h : Exchanged fs fs' path text) {seen : String}
    {enter enter' : String → State → Progress} (hEnter : AlikeAfter seen enter enter')
    (options : ReadOptions) (other content : String) {s : State} (hSeen : s.isSeen seen = true) :
    runText fs' options enter' other content s = runText fs options enter other content s ∧
      (runText fs options enter other content s).state.isSeen seen = true := by
  simp only [runText]
  split
  · exact ⟨rfl, hSeen⟩
  · exact runTokens_alike h hEnter options _ _ _ (s := s.record other content) hSeen _

theorem readFile_alike (h : Exchanged fs fs' path text) (options : ReadOptions) (depth : Nat) :
    AlikeAfter (canonicalPath fs path) (readFile fs options depth) (readFile fs' options depth) := by
  induction depth with
  | zero => exact fun _ _ hSeen => ⟨rfl, hSeen⟩
  | succ depth ih =>
    intro other s hSeen
    rw [readFile, readFile, h.canonical]
    dsimp only
    split
    · exact ⟨rfl, hSeen⟩
    · next hUnseen =>
      have hNext : (s.see (canonicalPath fs other)).isSeen (canonicalPath fs path) = true := by
        rw [State.isSeen, State.see, List.any_cons, Bool.or_eq_true]
        exact .inr hSeen
      have hOther : fs.canonical? other ≠ fs.canonical? path := by
        intro hSame
        obtain ⟨canonical, hCanonical⟩ := Option.isSome_iff_exists.mp h.located
        rw [canonicalPath, hCanonical] at hSeen
        rw [hSame, hCanonical] at hUnseen
        exact hUnseen hSeen
      rw [h.others other hOther]
      split
      · exact ⟨rfl, hNext⟩
      · exact runText_alike h ih options _ _ hNext

end Preprocess

namespace Batch

open Preprocess (addRoot canonicalPath readFile runText)

variable {fs fs' : FileSystem} {path text : String}

theorem runSteps_alike (h : Exchanged fs fs' path text) (options : ReadOptions) (roots : List String)
    {s : Preprocess.State} (hSeen : s.isSeen (canonicalPath fs path) = true) :
    runSteps (addRoot fs' options) roots s = runSteps (addRoot fs options) roots s := by
  have hDepth : Preprocess.depthLimit fs' = Preprocess.depthLimit fs := by
    rw [Preprocess.depthLimit, Preprocess.depthLimit, h.count]
  induction roots generalizing s with
  | nil => rfl
  | cons root roots ih =>
    obtain ⟨hRead, hKept⟩ := Preprocess.readFile_alike h options (Preprocess.depthLimit fs) root s hSeen
    unfold runSteps
    rw [addRoot, addRoot, hDepth, hRead]
    split
    · next next hNext =>
      rw [hNext] at hKept
      exact ih hKept
    · rfl

/-- What is read of the roots where the first one has another text. -/
def withFirst (fs : FileSystem) (options : ReadOptions) (first text : String) (others : List String) :
    Except Source.Error Preprocess.State :=
  match runText fs options (readFile fs options fs.entries.length) (canonicalPath fs first) text
      ((Preprocess.State.initial options).see (canonicalPath fs first)) with
  | ⟨s, none⟩ => runSteps (addRoot fs options) others s
  | ⟨_, some e⟩ => .error e

theorem runSteps_exchanged (h : Exchanged fs fs' path text) (options : ReadOptions)
    (others : List String) :
    runSteps (addRoot fs' options) (path :: others) (.initial options) =
      withFirst fs options path text others := by
  have hSeen : ((Preprocess.State.initial options).see (canonicalPath fs path)).isSeen
      (canonicalPath fs path) = true := by
    rw [Preprocess.State.isSeen, Preprocess.State.see, List.any_cons, Path.same_self, Bool.true_or]
  obtain ⟨hRead, hKept⟩ := Preprocess.runText_alike h
    (Preprocess.readFile_alike h options fs.entries.length) options (canonicalPath fs path) text hSeen
  have hRoot : addRoot fs' options path (.initial options) =
      runText fs options (readFile fs options fs.entries.length) (canonicalPath fs path) text
        ((Preprocess.State.initial options).see (canonicalPath fs path)) := by
    rw [addRoot, Preprocess.depthLimit, h.count, readFile, h.canonical, h.reads, ← hRead]
    rfl
  unfold runSteps withFirst
  rw [hRoot]
  generalize runText fs options (readFile fs options fs.entries.length) (canonicalPath fs path) text
    ((Preprocess.State.initial options).see (canonicalPath fs path)) = first at hKept
  rcases first with ⟨next, - | e⟩
  · exact runSteps_alike h options others hKept
  · rfl

theorem length_lt_of_runText {options : ReadOptions} {depth : Nat} {s r : Preprocess.State}
    (h : runText fs options (readFile fs options depth) path text s = ⟨r, none⟩) :
    s.files.length < r.files.length := by
  simp only [runText] at h
  split at h
  · cases h
  · next lexed hLex =>
    obtain ⟨included, _, hFiles, -⟩ := Preprocess.runTokens_continues
      (fun _ _ _ h => Preprocess.readFile_extends h) (by simp) (Token.file_of_lex hLex) h
    rw [hFiles, List.length_append, List.length_append, List.length_singleton]
    omega

theorem withFirst_rewritten {options : ReadOptions} {w : Rewrite} {Added : List Token → Prop}
    {first text' : String} {others : List String} {ts us : List Token} {r : Preprocess.State}
    (hKeyword : Preprocess.keeps options w.keyword = true)
    (hBodies : ∀ b ∈ w.bodies, b.opening.file = 0)
    (hLex : Token.lex 0 (canonicalPath fs first) text = .ok ts)
    (hLex' : Token.lex 0 (canonicalPath fs first) text' = .ok us)
    (hTokens : Rewritten w Preprocess.Contained (Preprocess.AddedBefore options Added) ts us)
    (hPlain : Preprocess.BodiesPlain w ts)
    (h : withFirst fs options first text others = .ok r) :
    ∃ r', withFirst fs options first text' others = .ok r' ∧ Preprocess.Similar r r' ∧
      Rewritten w Token.Nested Added r.tokens.toList r'.tokens.toList := by
  have hOwn : ∀ b ∈ w.bodies, b.opening.file < 1 := fun b hb => by rw [hBodies b hb]; omega
  have hEnter : Preprocess.Entering w Added 1 (readFile fs options fs.entries.length) :=
    Preprocess.readFile_follows hOwn hKeyword _
  let s := (Preprocess.State.initial options).see (canonicalPath fs first)
  unfold withFirst at h ⊢
  split at h
  · next next hNext =>
    have hFiles := length_lt_of_runText hNext
    obtain ⟨next', hNext', hFollows⟩ := Preprocess.runText_rewritten (s := s) hEnter hKeyword
      (Nat.le_add_left 1 _) ⟨rfl, rfl, rfl, rfl⟩ hLex hLex' hTokens hPlain hNext
    obtain ⟨r', hRest, hLater⟩ := runSteps_follows hOwn hKeyword (Nat.lt_of_le_of_lt (Nat.zero_le _) hFiles)
      hFollows.similar h
    rw [hNext']
    obtain ⟨hSimilar, -, stream, stream', hStream, hStream', hRewritten⟩ := hFollows.trans hLater
    refine ⟨r', hRest, hSimilar, ?_⟩
    rw [hStream, hStream']
    exact hRewritten
  · cases h

end Batch

end SkeletonWeave
