import SkeletonWeave.Proofs.FirstOccurrences
import SkeletonWeave.Proofs.Generation.Resolution
import SkeletonWeave.Proofs.Generation.Server

/-!
# Coverage and plans

The inventory compares names, and resolving chooses overloads. They agree since
whatever a run of stages leaves behind comes from the same classes: no method
that a plan calls is listed as uncovered, and one that is neither uncovered nor
ignored is called, or would be if its handler method had a body.
-/

set_option autoImplicit false

namespace SkeletonWeave

namespace Bridge.Inventory

variable [PatternLibrary] (c : Configuration) (p : PatternLibrary.Compiled)
  (handler manager : Class)

theorem mem_uncovered_iff {name : String} :
    name ∈ (ofClasses c p handler manager).uncovered ↔
      name ∈ manager.publicMethods.map (·.name) ∧ name ∉ c.manager.ignoredMethods ∧
        ∀ m ∈ handler.publicMethods, (SplitName.ofName p m.name).target ≠ name := by
  simp only [ofClasses, List.mem_filter, List.mem_eraseDups, Bool.and_eq_true, Bool.not_eq_true',
    List.contains_eq_mem, decide_eq_false_iff_not, Configuration.ignores, List.map_map]
  rw [List.mem_map (l := handler.publicMethods)]
  constructor
  · rintro ⟨hName, hTarget, hIgnored⟩
    exact ⟨hName, hIgnored, fun m hm hSame => hTarget ⟨m, hm, hSame⟩⟩
  · rintro ⟨hName, hIgnored, hTarget⟩
    exact ⟨hName, fun ⟨m, hm, hSame⟩ => hTarget m hm hSame, hIgnored⟩

theorem pairwise_uncovered :
    (ofClasses c p handler manager).uncovered.Pairwise fun a b =>
      (manager.publicMethods.map (·.name)).idxOf a < (manager.publicMethods.map (·.name)).idxOf b :=
  (pairwise_idxOf_eraseDups _).filter _

theorem nodup_uncovered : (ofClasses c p handler manager).uncovered.Nodup :=
  (nodup_eraseDups _).filter _

end Bridge.Inventory

namespace Generation

open Bridge

theorem mem_of_selectOverload {handler : String} {split : SplitName} {candidates : List Method}
    {chosen : Selection} (h : selectOverload handler split candidates = .ok (some chosen)) :
    chosen.method ∈ candidates := by
  unfold selectOverload at h
  split at h
  · cases h
  · cases h
    exact List.mem_singleton_self _
  · split at h
    · cases h
    · simp only at h
      split at h
      · cases h
      · next method hLast =>
        cases h
        exact (List.mem_filter.mp (List.mem_of_getLast? hLast)).1

theorem state_ofResult {P : Generation → Prop} {g : Generation}
    {result : Except GenerationFailure Generation} (hSame : P g)
    (hNext : ∀ next, result = .ok next → P next) : P (Progress.ofResult g result).state := by
  cases result with
  | error f => exact hSame
  | ok next => exact hNext next rfl

def HasRead (fs : FileSystem) (g : Generation) : Prop :=
  ∃ batch skeleton, Batch.ofRoots fs (readOptions g.sources) (roots g.sources) = .ok batch ∧
    findFile? fs batch.symbols g.sources.skeleton = some skeleton ∧
    g.symbols? = some batch.symbols ∧ g.skeleton? = some skeleton

section

variable [PatternLibrary]

namespace Sides

variable {s : Sides} {m : Method}

theorem name_of_selection {chosen : Selection} (h : s.selection m = .ok (some chosen)) :
    chosen.method.name = (s.split m).target :=
  eq_of_beq (List.mem_filter.mp (mem_of_selectOverload h)).2

theorem Planned.target {plan : MethodPlan} (h : s.Planned m plan) :
    plan.target = (s.split m).target := by
  obtain ⟨hSelection, -, -⟩ := h
  exact name_of_selection hSelection

theorem Skipped.body (h : s.Skipped m)
    (hTarget : (s.split m).target ∈ s.manager.publicMethods.map (·.name)) :
    ∃ chosen, s.selection m = .ok (some chosen) ∧ m.body? = none := by
  cases h with
  | noCandidate hCandidates =>
    obtain ⟨target, hMem, hName⟩ := List.mem_map.mp hTarget
    have hCandidate : target ∈ s.candidates m := List.mem_filter.mpr ⟨hMem, beq_of_eq hName⟩
    rw [hCandidates] at hCandidate
    cases hCandidate
  | noBody hSelection hBody => exact ⟨_, hSelection, hBody⟩

end Sides

/-- What each stage keeps, a run keeps, wherever it ends. -/
theorem runStages_keeps {σ : Type} {fs : FileSystem} {P : Generation → Prop}
    (hStage : ∀ stage g, P g → P (Stage.run fs stage g).state) (o : Observer σ)
    (stages : List Stage) {g : Generation} (observed : σ) (h : P g) :
    P (runStages fs o stages g observed).generation := by
  induction stages generalizing g observed with
  | nil => exact h
  | cons stage rest ih =>
    have hNext := hStage stage g h
    rw [runStages]
    split
    · exact h
    · split
      · next hRun =>
        rw [hRun] at hNext
        exact hNext
      · next hRun =>
        rw [hRun] at hNext
        split
        · exact hNext
        · exact ih _ hNext

theorem HasRead.sides_eq {fs : FileSystem} {g g' : Generation} (h : HasRead fs g)
    (h' : HasRead fs g') (hConfiguration : g.configuration = g'.configuration)
    (hSources : g.sources = g'.sources) : g.sides = g'.sides := by
  obtain ⟨batch, skeleton, hBatch, hFound, hSymbols, hSkeleton⟩ := h
  obtain ⟨batch', skeleton', hBatch', hFound', hSymbols', hSkeleton'⟩ := h'
  rw [← hSources] at hBatch' hFound'
  cases hBatch.symm.trans hBatch'
  cases hFound.symm.trans hFound'
  simp only [sides, symbols, skeletonFile, hConfiguration, hSymbols, hSymbols', hSkeleton,
    hSkeleton']

/-- A generation in a run: its inventory and its resolution come from the classes that it finds in
what was read. -/
structure Derived (fs : FileSystem) (c : Configuration) (sources : SourcesSection)
    (g : Generation) : Prop where
  configuration : g.configuration = c
  sources : g.sources = sources
  read : g.symbols? ≠ none → HasRead fs g
  inventory : ∀ i, g.inventory? = some i → g.buildInventory = .ok i
  resolution : ∀ r, g.resolution? = some r → ∃ s, g.sides = .ok s ∧ s.Resolves r

namespace Derived

variable {fs : FileSystem} {c : Configuration} {sources : SourcesSection} {g next : Generation}

theorem start : Derived fs c sources (start c sources) where
  configuration := rfl
  sources := rfl
  read h := absurd rfl h
  inventory _ h := by cases h
  resolution _ h := by cases h

/-- Reading once more changes no symbols, so that what came from them stays. -/
theorem readSymbols (h : Derived fs c sources g) :
    Derived fs c sources (readSymbols fs g).state := by
  refine state_ofResult h fun next hNext => ?_
  obtain ⟨batch, skeleton, hBatch, hFound, hNext⟩ :=
    readSymbols_eq_ok_iff.mp ((ofResult_eq_iff (g := g)).mpr hNext)
  have hConfiguration : next.configuration = g.configuration := by rw [hNext]; rfl
  have hSources : next.sources = g.sources := by rw [hNext]; rfl
  have hRead : HasRead fs next := by
    rw [hNext]
    exact ⟨batch, skeleton, hBatch, hFound, rfl, rfl⟩
  have hKeeps {s : Sides} (hSides : g.sides = .ok s) : next.sides = .ok s := by
    obtain ⟨file, -, hSymbols, -⟩ := sides_eq_ok_iff.mp hSides
    have hSame := hRead.sides_eq (h.read (by simp [hSymbols])) hConfiguration hSources
    rw [hSame, hSides]
  refine ⟨hConfiguration.trans h.configuration, hSources.trans h.sources, fun _ => hRead,
    fun i hi => ?_, fun r hr => ?_⟩
  · rw [hNext] at hi
    obtain ⟨s, hSides, rfl⟩ := buildInventory_eq_ok_iff.mp (h.inventory i hi)
    exact buildInventory_eq_ok_iff.mpr ⟨s, hKeeps hSides, rfl⟩
  · rw [hNext] at hr
    obtain ⟨s, hSides, hResolves⟩ := h.resolution r hr
    exact ⟨s, hKeeps hSides, hResolves⟩

theorem takeInventory (h : Derived fs c sources g) (lints : List Lint) :
    Derived fs c sources (takeInventory lints g).state := by
  refine state_ofResult h fun next hNext => ?_
  obtain ⟨i, hBuild, rfl⟩ := takeInventory_eq_ok ((ofResult_eq_iff (g := g)).mpr hNext)
  refine ⟨h.configuration, h.sources, h.read, fun i' hi => ?_, h.resolution⟩
  cases hi
  exact hBuild

theorem resolveHandler (h : Derived fs c sources g) :
    Derived fs c sources (resolveHandler g).state := by
  rcases hRun : Generation.resolveHandler g with ⟨next, - | f⟩
  · obtain ⟨s, r, remarks, hSides, hResolves, rfl⟩ := exists_resolves hRun
    refine ⟨h.configuration, h.sources, h.read, h.inventory, fun r' hr => ?_⟩
    cases hr
    exact ⟨s, hSides, hResolves⟩
  · obtain ⟨remarks, rfl⟩ := resolveHandler_eq_failed hRun
    exact ⟨h.configuration, h.sources, h.read, h.inventory, h.resolution⟩

theorem writeServer (h : Derived fs c sources g) :
    Derived fs c sources (writeServer g).state := by
  refine state_ofResult h fun next hNext => ?_
  obtain ⟨-, -, -, -, -, server, remarks, -, -, -, rfl⟩ := withServer_eq_ok hNext
  exact ⟨h.configuration, h.sources, h.read, h.inventory, h.resolution⟩

theorem runStages {σ : Type} (o : Observer σ) (stages : List Stage) (observed : σ) :
    Derived fs c sources (runStages fs o stages (Generation.start c sources) observed).generation := by
  refine runStages_keeps (fun stage g h => ?_) o stages observed start
  cases stage with
  | parse => exact h.readSymbols
  | inventory => exact h.takeInventory Lint.usual
  | resolve => exact h.resolveHandler
  | emit => exact h.writeServer

end Derived

/-- In each run of stages that leaves an inventory and a resolution, both come from the same classes.
The uncovered names are the public methods of the manager, each once and in the order of their
declarations, that are neither ignored nor the target of a public method of the handler. No plan
calls one of them. All others that are not ignored are called by a plan, or are the choice for a
method of the handler that is skipped as it has no body. -/
theorem uncovered_agrees_with_plans {σ : Type} {fs : FileSystem} {o : Observer σ}
    {stages : List Stage} {c : Configuration} {sources : SourcesSection} {observed : σ}
    {final : Generation} {i : Inventory} {r : Resolution}
    (hRun : (runStages fs o stages (start c sources) observed).generation = final)
    (hInventory : final.inventory? = some i) (hResolution : final.resolution? = some r) :
    ∃ s, final.sides = .ok s ∧
      let names := s.manager.publicMethods.map (·.name)
      i.uncovered.Nodup ∧
      i.uncovered.Pairwise (fun a b => names.idxOf a < names.idxOf b) ∧
      (∀ name, name ∈ i.uncovered ↔
        name ∈ names ∧ name ∉ c.manager.ignoredMethods ∧
          ∀ m ∈ s.handler.publicMethods, (s.split m).target ≠ name) ∧
      (∀ plan ∈ r.plans, plan.target ∉ i.uncovered) ∧
      ∀ name ∈ names, name ∉ i.uncovered → name ∉ c.manager.ignoredMethods →
        (∃ plan ∈ r.plans, plan.target = name) ∨
        ∃ m ∈ s.handler.publicMethods, ∃ chosen, s.selection m = .ok (some chosen) ∧
          chosen.method.name = name ∧ m.body? = none ∧ m.name ∈ r.skipped := by
  have hDerived : Derived fs c sources final := hRun ▸ .runStages o stages observed
  obtain ⟨s, hSides, hResolves⟩ := hDerived.resolution r hResolution
  obtain ⟨s', hSides', rfl⟩ :=
    buildInventory_eq_ok_iff.mp (hDerived.inventory i hInventory)
  cases hSides.symm.trans hSides'
  obtain ⟨file, hConfiguration, -⟩ := sides_eq_ok_iff.mp hSides
  have hUncovered {name : String} :
      name ∈ (Inventory.ofClasses s.configuration s.pattern s.handler s.manager).uncovered ↔ _ :=
    Inventory.mem_uncovered_iff s.configuration s.pattern s.handler s.manager
  rw [hConfiguration, hDerived.configuration] at hUncovered ⊢
  refine ⟨s, hSides, Inventory.nodup_uncovered .., Inventory.pairwise_uncovered ..,
    fun _ => hUncovered, ?_, ?_⟩
  · intro plan hPlan hIn
    obtain ⟨m, hm, hPlanned⟩ := hResolves.mem_plans_iff.mp hPlan
    exact (hUncovered.mp hIn).2.2 m hm hPlanned.target.symm
  · intro name hName hCovered hIgnored
    obtain ⟨m, hm, hTarget⟩ : ∃ m ∈ s.handler.publicMethods, (s.split m).target = name := by
      by_contra hNone
      exact hCovered (hUncovered.mpr
        ⟨hName, hIgnored, fun m hm hTarget => hNone ⟨m, hm, hTarget⟩⟩)
    rcases hResolves.planned_or_skipped hm with ⟨plan, hPlanned⟩ | hSkipped
    · exact .inl ⟨plan, hResolves.mem_plans_iff.mpr ⟨m, hm, hPlanned⟩,
        hPlanned.target.trans hTarget⟩
    · obtain ⟨chosen, hSelection, hBody⟩ := hSkipped.body (hTarget ▸ hName)
      exact .inr ⟨m, hm, chosen, hSelection, (Sides.name_of_selection hSelection).trans hTarget,
        hBody, hResolves.mem_skipped_iff.mpr ⟨m, hm, hSkipped, rfl⟩⟩

end

def partialSkeleton : String :=
  "struct M \x7b void F(); void G(); void K(); void P(); \x7d;\n" ++
    "struct H \x7b\nvoid F() \x7b\n\x7d\nvoid G();\n\x7d;\n"

theorem uncovered_of_partialSkeleton :
    ∃ g i r, (runStages (twoFiles partialSkeleton "") unobserved Stage.checking
        (start { smallConfiguration with manager := ⟨"M", "Get", "mgr", ["K"]⟩ } twoSources)
        ()).generation = g ∧
      g.inventory? = some i ∧ g.resolution? = some r ∧
      i.uncovered = ["P"] ∧ r.plans.map (·.target) = ["F"] ∧ r.skipped = ["G"] ∧
      i.uncovered.Nodup ∧ ∀ plan ∈ r.plans, plan.target ∉ i.uncovered := by
  let g := (runStages (twoFiles partialSkeleton "") unobserved Stage.checking
    (start { smallConfiguration with manager := ⟨"M", "Get", "mgr", ["K"]⟩ } twoSources)
    ()).generation
  have hTest : (g.inventory?.any fun i => g.resolution?.any fun r =>
      decide (i.uncovered = ["P"] ∧ r.plans.map (·.target) = ["F"] ∧ r.skipped = ["G"])) = true := by
    simp only [g, runStages, Stage.checking, Stage.run, readSymbols, withSymbols, Batch.ofRoots,
      Batch.runSteps, Preprocess.addRoot, Preprocess.depthLimit, Preprocess.readFile, findFile?,
      start, twoSources, canonical?_twoFiles, readText?_twoFiles]
    decide +kernel
  obtain ⟨i, hInventory, hTest⟩ := Option.any_eq_true _ _ |>.mp hTest
  obtain ⟨r, hResolution, hTest⟩ := Option.any_eq_true _ _ |>.mp hTest
  obtain ⟨hUncovered, hTargets, hSkipped⟩ := of_decide_eq_true hTest
  obtain ⟨s, -, hNodup, -, -, hPlans, -⟩ := uncovered_agrees_with_plans rfl hInventory hResolution
  exact ⟨g, i, r, rfl, hInventory, hResolution, hUncovered, hTargets, hSkipped, hNodup, hPlans⟩

end Generation

end SkeletonWeave
