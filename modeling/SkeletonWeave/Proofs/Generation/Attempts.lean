import Mathlib.Data.List.Induction
import SkeletonWeave.Proofs.Generation.Stages

/-!
# Attempts at stages

Stages can be tried on one generation in any order and any number of times, each
over the files that there are at that moment. Each stage commits its result last,
so an attempt that fails keeps all results, and what a generation holds tells
which stages succeeded on it.
-/

set_option autoImplicit false

namespace SkeletonWeave.Generation

/-- A stage that is tried, with the files that it sees and the lints of an inventory. -/
structure Attempt where
  stage : Stage
  files : FileSystem
  lints : List Lint

namespace Attempt

def run [PatternLibrary] (a : Attempt) (g : Generation) : Progress :=
  match a.stage with
  | .inventory => takeInventory a.lints g
  | stage => stage.run a.files g

end Attempt

variable [PatternLibrary]

def afterAttempts (attempts : List Attempt) (g : Generation) : Generation :=
  attempts.foldl (fun g a => (a.run g).state) g

def Succeeds (stage : Stage) (attempts : List Attempt) (g : Generation) : Prop :=
  ∃ before a later, attempts = before ++ a :: later ∧ a.stage = stage ∧
    (a.run (afterAttempts before g)).failure? = none

/-- Whether a generation has the results of another, and its diagnostics with at most some more
after them. -/
structure KeepsResults (g next : Generation) : Prop where
  symbols : next.symbols? = g.symbols?
  skeleton : next.skeleton? = g.skeleton?
  inventory : next.inventory? = g.inventory?
  resolution : next.resolution? = g.resolution?
  output : next.output? = g.output?
  diagnostics : g.diagnostics <+: next.diagnostics

omit [PatternLibrary] in
theorem keepsResults_remark (g : Generation) (remarks : List Diagnostic) :
    KeepsResults g (g.remark remarks) :=
  ⟨rfl, rfl, rfl, rfl, rfl, List.prefix_append _ _⟩

omit [PatternLibrary] in
theorem ofResult_eq_failed {g next : Generation} {result : Except GenerationFailure Generation}
    {f : GenerationFailure} (h : Progress.ofResult g result = ⟨next, some f⟩) : next = g := by
  cases result with
  | error e =>
    cases h
    rfl
  | ok done => cases h

theorem Attempt.keepsResults {a : Attempt} {g next : Generation} {f : GenerationFailure}
    (h : a.run g = ⟨next, some f⟩) : KeepsResults g next := by
  have hSame (hNext : next = g) : KeepsResults g next := by
    rw [hNext]
    exact ⟨rfl, rfl, rfl, rfl, rfl, List.prefix_rfl⟩
  obtain ⟨stage, files, lints⟩ := a
  cases stage with
  | parse => exact hSame (ofResult_eq_failed h)
  | inventory => exact hSame (ofResult_eq_failed h)
  | resolve =>
    obtain ⟨remarks, rfl⟩ := resolveHandler_eq_failed h
    exact keepsResults_remark g remarks
  | emit => exact hSame (ofResult_eq_failed h)

omit [PatternLibrary] in
theorem results_of_withServer {g next : Generation} (h : g.withServer = .ok next) :
    g.symbols?.isSome = true ∧ g.inventory?.isSome = true ∧ g.resolution?.isSome = true := by
  simp only [withServer, bind_eq_ok] at h
  obtain ⟨symbols, hSymbols, file, -, i, hInventory, r, hResolution, -⟩ := h
  rw [require_eq_ok_iff.mp hSymbols, require_eq_ok_iff.mp hInventory,
    require_eq_ok_iff.mp hResolution]
  exact ⟨rfl, rfl, rfl⟩

theorem afterAttempts_concat (attempts : List Attempt) (a : Attempt) (g : Generation) :
    afterAttempts (attempts ++ [a]) g = (a.run (afterAttempts attempts g)).state := by
  rw [afterAttempts, List.foldl_append]
  rfl

theorem Succeeds.concat {stage : Stage} {attempts : List Attempt} {g : Generation}
    (h : Succeeds stage attempts g) (a : Attempt) : Succeeds stage (attempts ++ [a]) g := by
  obtain ⟨before, b, later, rfl, hStage, hRun⟩ := h
  exact ⟨before, b, later ++ [a], by simp, hStage, hRun⟩

theorem succeeds_concat {attempts : List Attempt} {a : Attempt} {g : Generation}
    (h : (a.run (afterAttempts attempts g)).failure? = none) :
    Succeeds a.stage (attempts ++ [a]) g :=
  ⟨attempts, a, [], rfl, rfl, h⟩

structure Accounted (attempts : List Attempt) (start g : Generation) : Prop where
  symbols : g.symbols?.isSome = true → Succeeds .parse attempts start
  inventory : g.inventory?.isSome = true → Succeeds .inventory attempts start
  resolution : g.resolution?.isSome = true → Succeeds .resolve attempts start

namespace Accounted

variable {attempts : List Attempt} {start g next : Generation} {a : Attempt}

theorem concat (h : Accounted attempts start g) (a : Attempt) :
    Accounted (attempts ++ [a]) start g where
  symbols hSome := (h.symbols hSome).concat a
  inventory hSome := (h.inventory hSome).concat a
  resolution hSome := (h.resolution hSome).concat a

theorem keep (h : Accounted attempts start g) (hKeeps : KeepsResults g next) :
    Accounted attempts start next where
  symbols := hKeeps.symbols ▸ h.symbols
  inventory := hKeeps.inventory ▸ h.inventory
  resolution := hKeeps.resolution ▸ h.resolution

theorem step (h : Accounted attempts start (afterAttempts attempts start)) (a : Attempt) :
    Accounted (attempts ++ [a]) start (afterAttempts (attempts ++ [a]) start) := by
  rw [afterAttempts_concat]
  rcases hRun : a.run (afterAttempts attempts start) with ⟨next, - | f⟩
  · have hDone : Succeeds a.stage (attempts ++ [a]) start := succeeds_concat (by rw [hRun])
    have hLater := h.concat a
    obtain ⟨stage, files, lints⟩ := a
    cases stage with
    | parse =>
      obtain ⟨batch, skeleton, -, -, rfl⟩ := readSymbols_eq_ok_iff.mp hRun
      exact ⟨fun _ => hDone, hLater.inventory, hLater.resolution⟩
    | inventory =>
      obtain ⟨i, -, rfl⟩ := takeInventory_eq_ok hRun
      exact ⟨hLater.symbols, fun _ => hDone, hLater.resolution⟩
    | resolve =>
      obtain ⟨s, -, -, rfl⟩ := resolveHandler_eq_ok hRun
      exact ⟨hLater.symbols, hLater.inventory, fun _ => hDone⟩
    | emit =>
      obtain ⟨-, -, -, -, -, server, remarks, -, -, -, rfl⟩ := withServer_eq_ok (ofResult_eq_iff.mp hRun)
      exact ⟨hLater.symbols, hLater.inventory, hLater.resolution⟩
  · exact (h.concat a).keep (Attempt.keepsResults hRun)

theorem afterAttempts (c : Configuration) (sources : SourcesSection) (attempts : List Attempt) :
    Accounted attempts (Generation.start c sources)
      (afterAttempts attempts (Generation.start c sources)) := by
  induction attempts using List.reverseRecOn with
  | nil =>
    have hNone {α : Type} {P : Prop} (h : (none : Option α).isSome = true) : P := by cases h
    exact ⟨hNone, hNone, hNone⟩
  | append_singleton attempts a ih => exact ih.step a

end Accounted

theorem Accounted.succeeds {attempts : List Attempt} {start g next : Generation}
    (h : Accounted attempts start g) (hServer : g.withServer = .ok next) :
    ∀ stage ∈ Stage.checking, Succeeds stage attempts start := by
  obtain ⟨hSymbols, hInventory, hResolution⟩ := results_of_withServer hServer
  intro stage hStage
  simp only [Stage.checking, List.mem_cons, List.not_mem_nil, or_false] at hStage
  rcases hStage with rfl | rfl | rfl
  · exact h.symbols hSymbols
  · exact h.inventory hInventory
  · exact h.resolution hResolution

theorem Attempt.output_eq {a : Attempt} {g next : Generation} (h : a.run g = ⟨next, none⟩)
    (hStage : a.stage ≠ .emit) : next.output? = g.output? := by
  obtain ⟨stage, files, lints⟩ := a
  cases stage with
  | parse =>
    obtain ⟨batch, skeleton, -, -, rfl⟩ := readSymbols_eq_ok_iff.mp h
    rfl
  | inventory =>
    obtain ⟨i, -, rfl⟩ := takeInventory_eq_ok h
    rfl
  | resolve =>
    obtain ⟨s, -, -, rfl⟩ := resolveHandler_eq_ok h
    rfl
  | emit => exact absurd rfl hStage

/-- What an attempt does to the output after some other attempts: it writes it if it is one at the
last stage and succeeds, for which all stages before must have succeeded; else it keeps it. -/
theorem output_of_attempt (c : Configuration) (sources : SourcesSection) (earlier : List Attempt)
    (a : Attempt) :
    let g := afterAttempts earlier (start c sources)
    let next := a.run g
    a.stage = .emit ∧ next.failure? = none ∧ next.state.output?.isSome = true ∧
        (∀ stage ∈ Stage.checking, Succeeds stage earlier (start c sources)) ∨
      ¬(a.stage = .emit ∧ next.failure? = none) ∧ next.state.output? = g.output? := by
  intro g next
  rcases hRun : a.run g with ⟨done, - | f⟩
  · have hNext : next = ⟨done, none⟩ := hRun
    rw [hNext]
    by_cases hStage : a.stage = .emit
    · have hServer : g.withServer = .ok done := by
        rw [← ofResult_eq_iff (g := g), ← hRun, Attempt.run, hStage]
        rfl
      obtain ⟨-, -, -, -, -, server, remarks, -, -, -, rfl⟩ := withServer_eq_ok hServer
      exact .inl ⟨hStage, rfl, rfl, (Accounted.afterAttempts c sources earlier).succeeds hServer⟩
    · exact .inr ⟨fun hBoth => hStage hBoth.1, Attempt.output_eq hRun hStage⟩
  · have hNext : next = ⟨done, some f⟩ := hRun
    rw [hNext]
    exact .inr ⟨by simp, (Attempt.keepsResults hRun).output⟩

/-- Whatever was tried before, an attempt that fails keeps all results and at most adds to the
diagnostics. An output was written by an attempt at the last stage that succeeded, before which all
other stages had succeeded, and no attempt since then changed it. -/
theorem attempts_commit_last (c : Configuration) (sources : SourcesSection)
    (attempts : List Attempt) :
    let final := afterAttempts attempts (start c sources)
    (∀ (a : Attempt) f, (a.run final).failure? = some f → KeepsResults final (a.run final).state) ∧
    (∀ a : Attempt, (a.run final).state.output? ≠ final.output? →
      a.stage = .emit ∧ (a.run final).failure? = none) ∧
    (final.output? ≠ none → ∃ earlier a later, attempts = earlier ++ a :: later ∧
      a.stage = .emit ∧ (a.run (afterAttempts earlier (start c sources))).failure? = none ∧
      (a.run (afterAttempts earlier (start c sources))).state.output? = final.output? ∧
      ∀ stage ∈ Stage.checking, Succeeds stage earlier (start c sources)) := by
  intro final
  refine ⟨fun a f hFailed => ?_, fun a hChanged => ?_, fun hSome => ?_⟩
  · exact Attempt.keepsResults (congrArg (Progress.mk (a.run final).state) hFailed)
  · rcases output_of_attempt c sources attempts a with ⟨hStage, hDone, -⟩ | ⟨-, hSame⟩
    · exact ⟨hStage, hDone⟩
    · exact absurd hSame hChanged
  · -- the last attempt wrote the output, or it was there before
    induction attempts using List.reverseRecOn with
    | nil => exact absurd rfl hSome
    | append_singleton attempts a ih =>
      have hFinal : final = (a.run (afterAttempts attempts (start c sources))).state :=
        afterAttempts_concat attempts a _
      rcases output_of_attempt c sources attempts a with ⟨hStage, hDone, -, hEarlier⟩ | ⟨-, hSame⟩
      · exact ⟨attempts, a, [], rfl, hStage, hDone, by rw [hFinal], hEarlier⟩
      · rw [hFinal, hSame] at hSome ⊢
        obtain ⟨earlier, b, later, rfl, hRest⟩ := ih hSome
        exact ⟨earlier, b, later ++ [a], by simp, hRest⟩

end SkeletonWeave.Generation
