import Mathlib.Data.List.Flatten
import SkeletonWeave.Generation.Stage
import SkeletonWeave.Proofs.Declaration.Extent

/-!
# What the stages leave behind

A run of stages goes through each of them in turn. Where the sources were read,
the inventory taken and the handler resolved, the generation holds the results
of all three, and each of them comes from the same classes.
-/

set_option autoImplicit false

namespace SkeletonWeave.Generation

open Bridge

theorem ofResult_eq_iff {g g' : Generation} {result : Except GenerationFailure Generation} :
    Progress.ofResult g result = ⟨g', none⟩ ↔ result = .ok g' := by
  cases result with
  | error f => simp [Progress.ofResult]
  | ok next => simp [Progress.ofResult]

theorem require_eq_ok_iff {α : Type} {r : Requirement} {a? : Option α} {a : α} :
    require r a? = .ok a ↔ a? = some a := by
  cases a? with
  | none => simp [require]
  | some b => simp [require]

theorem handlerClass_eq_ok_iff {s : SymbolTable} {skeleton : Nat} {name : String} {handler : Class} :
    handlerClass s skeleton name = .ok handler ↔ s.classInFile? skeleton name = some handler := by
  unfold handlerClass
  split
  · next c hFound => simp [hFound]
  · next hFound => simp [hFound]

theorem managerClass_eq_ok_iff {s : SymbolTable} {name : String} {manager : Class} :
    managerClass s name = .ok manager ↔ s.class? name = some manager := by
  unfold managerClass
  split
  · next c hFound => simp [hFound]
  · next hFound => simp [hFound]

def readOptions (sources : SourcesSection) : ReadOptions :=
  ⟨sources.includeDirs, sources.defines, sources.ignoredMacros⟩

def roots (sources : SourcesSection) : List String :=
  [sources.skeleton, sources.managerHeader]

theorem readSymbols_eq_ok_iff {fs : FileSystem} {g g' : Generation} :
    readSymbols fs g = ⟨g', none⟩ ↔
      ∃ batch skeleton, Batch.ofRoots fs (readOptions g.sources) (roots g.sources) = .ok batch ∧
        findFile? fs batch.symbols g.sources.skeleton = some skeleton ∧
        g' = { g.remark (unresolvedRemark batch.unresolved) with
          symbols? := some batch.symbols
          skeleton? := some skeleton } := by
  rw [readSymbols, ofResult_eq_iff, withSymbols, bind_eq_ok]
  constructor
  · rintro ⟨batch, hBatch, h⟩
    have hRead : Batch.ofRoots fs (readOptions g.sources) (roots g.sources) = .ok batch := by
      change (Batch.ofRoots fs (readOptions g.sources) (roots g.sources)).mapError _ = _ at hBatch
      exact mapError_eq_ok hBatch
    simp only at h
    split at h
    · cases h
    · next skeleton hSkeleton =>
      cases h
      exact ⟨batch, skeleton, hRead, hSkeleton, rfl⟩
  · rintro ⟨batch, skeleton, hRead, hSkeleton, rfl⟩
    refine ⟨batch, ?_, ?_⟩
    · change (Batch.ofRoots fs (readOptions g.sources) (roots g.sources)).mapError _ = _
      rw [hRead]
      rfl
    · simp only [hSkeleton]
      rfl

theorem readSymbols_eq_ok {fs : FileSystem} {g g' : Generation}
    (h : readSymbols fs g = ⟨g', none⟩) :
    ∃ stream declarations skeleton,
      Batch.runSteps (Preprocess.addRoot fs (readOptions g.sources)) (roots g.sources)
        (.initial (readOptions g.sources)) = .ok stream ∧
      Declaration.read stream.files stream.tokens.toList = .ok declarations ∧
      g' = { g.remark (unresolvedRemark stream.unresolved) with
        symbols? := some ⟨stream.files, declarations⟩
        skeleton? := some skeleton } := by
  obtain ⟨batch, skeleton, hRead, -, rfl⟩ := readSymbols_eq_ok_iff.mp h
  rw [Batch.ofRoots, bind_eq_ok] at hRead
  obtain ⟨stream, hStream, hFinish⟩ := hRead
  rw [Batch.finish, bind_eq_ok] at hFinish
  obtain ⟨declarations, hDeclarations, hFinish⟩ := hFinish
  cases hFinish
  exact ⟨stream, declarations, skeleton, hStream, hDeclarations, rfl⟩

theorem withServer_eq_ok {g g' : Generation} (h : g.withServer = .ok g') :
    ∃ r symbols file placed bodies server remarks, g.resolution? = some r ∧
      r.plans.mapM (bodyEdit g.configuration file) = .ok bodies ∧
      server.edits =
        bannerEdits file.text g.configuration.emit.banner ++
          stubEdits (.ofEmit g.configuration.emit) file placed r.stubs ++ bodies ++
          (mainEdits g.configuration symbols file).1 ∧
      g' = { g.remark remarks with output? := some server } := by
  simp only [withServer, bind_eq_ok] at h
  obtain ⟨symbols, -, file, -, i, -, r, hResolution, placed, -, bodies, hBodies, content, -, h⟩ :=
    h
  cases h
  exact ⟨r, symbols, file, placed, bodies, _, _, require_eq_ok_iff.mp hResolution, hBodies, rfl,
    rfl⟩

variable [PatternLibrary]

theorem runAll_cons (fs : FileSystem) (stage : Stage) (rest : List Stage) (g : Generation) :
    runAll fs (stage :: rest) g =
      match stage.run fs g with
      | ⟨next, none⟩ => runAll fs rest next
      | ⟨next, some f⟩ => ⟨next, some f⟩ := by
  unfold runAll
  simp only [runStages, unobserved]
  cases hRun : stage.run fs g with
  | mk next failure? =>
    cases failure? with
    | none => rfl
    | some f => rfl

theorem runAll_cons_eq_ok {fs : FileSystem} {stage : Stage} {rest : List Stage}
    {g final : Generation} (h : runAll fs (stage :: rest) g = ⟨final, none⟩) :
    ∃ next, stage.run fs g = ⟨next, none⟩ ∧ runAll fs rest next = ⟨final, none⟩ := by
  rw [runAll_cons] at h
  split at h
  · next next hNext => exact ⟨next, hNext, h⟩
  · cases h

theorem pattern_eq_ok_iff {c : Configuration} {p : PatternLibrary.Compiled} :
    pattern c = .ok p ↔ PatternLibrary.compile? c.matching.pattern = some p := by
  unfold pattern
  split
  · next q hRead => simp [hRead]
  · next hRead => simp [hRead]

/-- A generation that was parsed and resolved, with the stream of its sources, its symbols, the file
of the skeleton and the handler class. -/
structure Resolved (fs : FileSystem) (c : Configuration) (sources : SourcesSection)
    (g : Generation) (stream : Preprocess.State) (s : SymbolTable) (file : Source.File)
    (handler : Class) : Prop where
  run : runAll fs Stage.checking (start c sources) = ⟨g, none⟩
  reads : Batch.runSteps (Preprocess.addRoot fs (readOptions sources)) (roots sources)
    (.initial (readOptions sources)) = .ok stream
  parsed : g.symbols = .ok s
  skeleton : g.skeletonFile = .ok file
  finds : handlerClass s file.id c.handler.className = .ok handler

theorem takeInventory_eq_ok {lints : List Lint} {g g' : Generation}
    (h : takeInventory lints g = ⟨g', none⟩) :
    ∃ i, g.buildInventory = .ok i ∧
      g' = { g.remark (lints.flatMap fun l => l.check i g.configuration) with inventory? := some i } := by
  rw [takeInventory, ofResult_eq_iff, bind_eq_ok] at h
  obtain ⟨i, hInventory, h⟩ := h
  cases h
  exact ⟨i, hInventory, rfl⟩

theorem sides_eq_ok_iff {g : Generation} {s : Sides} :
    g.sides = .ok s ↔
      ∃ file, s.configuration = g.configuration ∧ g.symbols? = some s.symbols ∧
        g.skeletonFile = .ok file ∧
        handlerClass s.symbols file.id g.configuration.handler.className = .ok s.handler ∧
        managerClass s.symbols g.configuration.manager.className = .ok s.manager ∧
        pattern g.configuration = .ok s.pattern := by
  simp only [sides, symbols, bind_eq_ok, require_eq_ok_iff]
  constructor
  · rintro ⟨symbols, hSymbols, file, hFile, handler, hHandler, manager, hManager, p, hPattern, h⟩
    cases h
    exact ⟨file, rfl, hSymbols, hFile, hHandler, hManager, hPattern⟩
  · rintro ⟨file, hConfiguration, hSymbols, hFile, hHandler, hManager, hPattern⟩
    refine ⟨_, hSymbols, file, hFile, _, hHandler, _, hManager, _, hPattern, ?_⟩
    rw [← hConfiguration]
    rfl

/-- The inventory lists the classes that methods are resolved against. -/
theorem buildInventory_eq_ok_iff {g : Generation} {i : Inventory} :
    g.buildInventory = .ok i ↔
      ∃ s, g.sides = .ok s ∧ i = .ofClasses s.configuration s.pattern s.handler s.manager := by
  simp only [buildInventory, sides, bind_eq_ok]
  constructor
  · rintro ⟨p, hPattern, symbols, hSymbols, file, hFile, handler, hHandler, manager, hManager, h⟩
    cases h
    exact ⟨_, ⟨symbols, hSymbols, file, hFile, handler, hHandler, manager, hManager, p, hPattern,
      rfl⟩, rfl⟩
  · rintro ⟨_, ⟨symbols, hSymbols, file, hFile, handler, hHandler, manager, hManager, p, hPattern,
      h⟩, rfl⟩
    cases h
    exact ⟨p, hPattern, symbols, hSymbols, file, hFile, handler, hHandler, manager, hManager, rfl⟩

theorem resolveHandler_eq_ok {g g' : Generation} (h : resolveHandler g = ⟨g', none⟩) :
    ∃ s, g.sides = .ok s ∧
      (s.resolveMethods s.handler.publicMethods .empty).2.filterMap (·.failure?) = [] ∧
      g' = { g.remark ((s.resolveMethods s.handler.publicMethods .empty).2.flatMap (·.remarks)) with
        resolution? := some
          ⟨(s.resolveMethods s.handler.publicMethods .empty).2.filterMap (·.plan?),
            (s.resolveMethods s.handler.publicMethods .empty).2.filterMap (·.skipped?),
            (s.resolveMethods s.handler.publicMethods .empty).1⟩ } := by
  unfold resolveHandler at h
  split at h
  · cases h
  · next s hSides =>
    simp only at h
    split at h
    · next hNone =>
      cases h
      exact ⟨s, hSides, hNone, rfl⟩
    · cases h

theorem resolveHandler_eq_failed {g g' : Generation} {f : GenerationFailure}
    (h : resolveHandler g = ⟨g', some f⟩) : ∃ remarks, g' = g.remark remarks := by
  unfold resolveHandler at h
  split at h
  · cases h
    exact ⟨[], by simp [remark]⟩
  · simp only at h
    split at h
    · cases h
    · cases h
      exact ⟨_, by simp only [remark, List.append_assoc]; rfl⟩

theorem plan_body {s : Sides} {m : Method} {stubs : StubTable} {plan : MethodPlan}
    (h : (s.resolveMethod m stubs).2.plan? = some plan) : m.body? = some plan.body := by
  unfold Sides.resolveMethod at h
  simp only at h
  split at h
  · cases h
  · cases h
  · split at h
    · cases h
    · next body hBody =>
      unfold Sides.planMethod at h
      split at h
      · cases h
      · cases h
        exact hBody

def planBraces (plans : List MethodPlan) : List Source.Span :=
  plans.flatMap fun plan => [plan.body.opening, plan.body.closing]

theorem planBraces_sublist (s : Sides) (ms : List Method) (stubs : StubTable) :
    (planBraces ((s.resolveMethods ms stubs).2.filterMap (·.plan?))).Sublist
      (ms.flatMap (·.braces)) := by
  induction ms generalizing stubs with
  | nil => exact .slnil
  | cons m ms ih =>
    have hRest := ih (s.resolveMethod m stubs).1
    rw [Sides.resolveMethods, List.filterMap_cons, List.flatMap_cons]
    cases hPlan : (s.resolveMethod m stubs).2.plan? with
    | none => exact List.sublist_append_of_sublist_right hRest
    | some plan =>
      have hBraces : m.braces = [plan.body.opening, plan.body.closing] := by
        rw [Method.braces, plan_body hPlan]
      rw [hBraces, planBraces, List.flatMap_cons]
      exact (List.Sublist.refl _).append hRest

/-- What a generation holds after all stages but the last: the inventory and the plans come from the
handler class, and that from the stream of the sources. -/
structure Prepared (fs : FileSystem) (c : Configuration) (sources : SourcesSection)
    (g : Generation) (stream : Preprocess.State) (s : SymbolTable) (file : Source.File)
    (handler : Class) (i : Inventory) (r : Resolution) : Prop where
  settings : g.configuration = c
  places : g.sources = sources
  reads : Batch.runSteps (Preprocess.addRoot fs (readOptions sources)) (roots sources)
    (.initial (readOptions sources)) = .ok stream
  files : s.files = stream.files
  declares : Declaration.read stream.files stream.tokens.toList = .ok s.declarations
  parsed : g.symbols = .ok s
  skeleton : g.skeletonFile = .ok file
  finds : handlerClass s file.id c.handler.className = .ok handler
  listed : g.inventory = .ok i
  named : i.handlerClass = handler.qualifiedName
  planned : g.resolution = .ok r
  bodies : (planBraces r.plans).Sublist (handler.methods.flatMap (·.braces))

theorem prepared_of_checking {fs : FileSystem} {c : Configuration} {sources : SourcesSection}
    {g : Generation} (h : runAll fs Stage.checking (start c sources) = ⟨g, none⟩) :
    ∃ stream s file handler i r, Prepared fs c sources g stream s file handler i r := by
  obtain ⟨g₁, hParse, h⟩ := runAll_cons_eq_ok h
  obtain ⟨g₂, hInventory, h⟩ := runAll_cons_eq_ok h
  obtain ⟨g₃, hResolve, h⟩ := runAll_cons_eq_ok h
  cases h
  obtain ⟨stream, declarations, skeleton, hStream, hDeclarations, rfl⟩ := readSymbols_eq_ok hParse
  obtain ⟨i, hBuild, rfl⟩ := takeInventory_eq_ok hInventory
  obtain ⟨⟨_, symbols, handler, _, _⟩, hSides, -, rfl⟩ := resolveHandler_eq_ok hResolve
  obtain ⟨file, -, hSymbols, hFile, hHandler, -⟩ := sides_eq_ok_iff.mp hSides
  cases hSymbols
  obtain ⟨s, hListed, rfl⟩ := buildInventory_eq_ok_iff.mp hBuild
  cases hSides.symm.trans hListed
  exact ⟨stream, _, file, _, _, _, {
    settings := rfl
    places := rfl
    reads := hStream
    files := rfl
    declares := hDeclarations
    parsed := rfl
    skeleton := hFile
    finds := hHandler
    listed := rfl
    named := rfl
    planned := rfl
    bodies := (planBraces_sublist _ _ _).trans (List.filter_sublist.flatMap _) }⟩

theorem Resolved.prepared {fs : FileSystem} {c : Configuration} {sources : SourcesSection}
    {g : Generation} {stream : Preprocess.State} {s : SymbolTable} {file : Source.File}
    {handler : Class} (h : Resolved fs c sources g stream s file handler) :
    ∃ i r, Prepared fs c sources g stream s file handler i r := by
  obtain ⟨stream', s', file', handler', i, r, hPrepared⟩ := prepared_of_checking h.run
  cases h.reads.symm.trans hPrepared.reads
  cases h.parsed.symm.trans hPrepared.parsed
  cases h.skeleton.symm.trans hPrepared.skeleton
  cases h.finds.symm.trans hPrepared.finds
  exact ⟨i, r, hPrepared⟩

end SkeletonWeave.Generation
