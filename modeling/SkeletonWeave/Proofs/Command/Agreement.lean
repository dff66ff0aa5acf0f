import SkeletonWeave.Command.Check
import SkeletonWeave.Command.Generate
import SkeletonWeave.Proofs.Generation.Resolution
import SkeletonWeave.Proofs.Generation.Server

/-!
# Checking and generating agree

A check runs all stages but the last, and is valid just when they succeed: no
stage that succeeds remarks an error. After them generating goes on with the
same plans. It fails only where the edits of the last stage collide, and breaks
off only at a body that ends inside of a character of the skeleton.
-/

set_option autoImplicit false

namespace SkeletonWeave

namespace Generation

open Bridge

def ErrorFree (remarks : List Diagnostic) : Prop :=
  ∀ d ∈ remarks, d.severity ≠ .error

namespace ErrorFree

theorem nil : ErrorFree [] := by
  simp [ErrorFree]

theorem append {first later : List Diagnostic} (h : ErrorFree first) (hLater : ErrorFree later) :
    ErrorFree (first ++ later) := by
  intro d hd
  rcases List.mem_append.mp hd with hd | hd
  · exact h d hd
  · exact hLater d hd

theorem flatMap {α : Type} {xs : List α} {f : α → List Diagnostic} (h : ∀ x ∈ xs, ErrorFree (f x)) :
    ErrorFree (xs.flatMap f) := by
  intro d hd
  obtain ⟨x, hx, hd⟩ := List.mem_flatMap.mp hd
  exact h x hx d hd

theorem map {α : Type} (xs : List α) {f : α → Diagnostic} (h : ∀ x, (f x).severity ≠ .error) :
    ErrorFree (xs.map f) := by
  intro d hd
  obtain ⟨x, -, rfl⟩ := List.mem_map.mp hd
  exact h x

theorem unresolvedRemark (unresolved : List String) :
    ErrorFree (Generation.unresolvedRemark unresolved) := by
  unfold Generation.unresolvedRemark
  split
  · exact .nil
  · simp [ErrorFree]

theorem usual (i : Inventory) (c : Configuration) :
    ErrorFree (Lint.usual.flatMap fun l => l.check i c) := by
  apply flatMap
  intro l hl
  simp only [Lint.usual, List.mem_cons, List.not_mem_nil, or_false] at hl
  rcases hl with rfl | rfl
  · exact .map _ fun name => by simp
  · exact .map _ fun name => by simp

theorem resolveMethods [PatternLibrary] (s : Sides) (ms : List Method) (stubs : StubTable) :
    ErrorFree ((s.resolveMethods ms stubs).2.flatMap (·.remarks)) := by
  rw [Sides.snd_resolveMethods, List.flatMap_map]
  refine flatMap fun m _ d hd => ?_
  obtain ⟨severity, message, hSeverity, rfl⟩ := Sides.exists_remarkOn hd
  exact hSeverity

end ErrorFree

section

variable [PatternLibrary]

theorem errorFree_of_checking {fs : FileSystem} {c : Configuration} {sources : SourcesSection}
    {g : Generation} (h : runAll fs Stage.checking (start c sources) = ⟨g, none⟩) :
    ErrorFree g.diagnostics := by
  obtain ⟨g₁, hParse, h⟩ := runAll_cons_eq_ok h
  obtain ⟨g₂, hInventory, h⟩ := runAll_cons_eq_ok h
  obtain ⟨g₃, hResolve, h⟩ := runAll_cons_eq_ok h
  cases h
  obtain ⟨stream, _, _, -, -, rfl⟩ := readSymbols_eq_ok hParse
  obtain ⟨i, -, rfl⟩ := takeInventory_eq_ok hInventory
  obtain ⟨s, -, -, rfl⟩ := resolveHandler_eq_ok hResolve
  have hRead : ErrorFree ([] ++ unresolvedRemark stream.unresolved) :=
    ErrorFree.nil.append (.unresolvedRemark _)
  exact (hRead.append (.usual i c)).append (.resolveMethods s _ _)

theorem runAll_append (fs : FileSystem) (first later : List Stage) (g : Generation) :
    runAll fs (first ++ later) g =
      match runAll fs first g with
      | ⟨next, none⟩ => runAll fs later next
      | ⟨next, some f⟩ => ⟨next, some f⟩ := by
  induction first generalizing g with
  | nil => rfl
  | cons stage rest ih =>
    rw [List.cons_append, runAll_cons, runAll_cons]
    rcases stage.run fs g with ⟨next, - | f⟩
    · exact ih next
    · rfl

theorem runAll_all (fs : FileSystem) (g : Generation) :
    runAll fs Stage.all g =
      match runAll fs Stage.checking g with
      | ⟨next, none⟩ => writeServer next
      | ⟨next, some f⟩ => ⟨next, some f⟩ := by
  have hParts := runAll_append fs Stage.checking [.emit] g
  rw [show Stage.checking ++ [.emit] = Stage.all from rfl] at hParts
  rw [hParts]
  rcases runAll fs Stage.checking g with ⟨next, - | f⟩
  · show runAll fs [.emit] next = writeServer next
    rw [runAll_cons]
    show (match writeServer next with
      | ⟨last, none⟩ => runAll fs [] last
      | ⟨last, some f⟩ => ⟨last, some f⟩) = writeServer next
    rcases writeServer next with ⟨last, - | f⟩
    · rfl
    · rfl
  · rfl

/-- Whether after all stages but the last a planned body ends at a position that lies inside of a
character of the skeleton. -/
def EndsInsideCharacter (fs : FileSystem) (c : Configuration) (sources : SourcesSection)
    (position : Nat) : Prop :=
  ∃ g stream s file handler r plan, Resolved fs c sources g stream s file handler ∧
    g.resolution = .ok r ∧ plan ∈ r.plans ∧ plan.body.closing.start = position ∧
    position < Text.byteLength file.text.toList ∧ ¬Text.IsBoundary file.text.toList position

end

/-- The handler is found by its qualified name, or something else of that name is. -/
theorem exists_classInFile? {s : SymbolTable} {file : Nat} {name : String} {handler : Class}
    (h : handlerClass s file name = .ok handler) :
    ∃ placed, s.classInFile? file handler.qualifiedName = some placed := by
  rw [handlerClass_eq_ok_iff] at h
  have hMem := List.mem_of_find?_eq_some h
  have hMatch := List.find?_some h
  simp only [Bool.and_eq_true, beq_iff_eq] at hMatch
  rw [← Option.isSome_iff_exists, SymbolTable.classInFile?, List.find?_isSome]
  exact ⟨handler, hMem, by simp [hMatch.1]⟩

end Generation

open Generation (ErrorFree runAll start)

namespace CheckReport

theorem errors_ofGeneration {path? : Option String} {g : Generation} (h : ErrorFree g.diagnostics) :
    (ofGeneration path? g none).errors = [] := by
  have hNone : g.diagnostics.filter (·.severity = .error) = [] := by
    rw [List.filter_eq_nil_iff]
    intro d hd
    simpa using h d hd
  simp [ofGeneration, messages, hNone]

theorem errors_ofGeneration_ne {path? : Option String} (g : Generation) (f : GenerationFailure) :
    (ofGeneration path? g (some f)).errors ≠ [] := by
  simp only [ofGeneration]
  cases hErrors : g.errors with
  | nil => simp
  | cons d errors =>
    have hSome : g.diagnostics.filter (·.severity = .error) = d :: errors := hErrors
    simp [messages, hSome]

variable [PatternLibrary]

theorem isValid_iff (fs : FileSystem) (job : Job) (r : CheckReport) :
    ofJob fs job = .ok r ∧ r.isValid = true ↔
      ∃ g, runAll fs Stage.checking (start job.configuration job.sources) = ⟨g, none⟩ ∧
        r = ofGeneration job.configurationPath? g none := by
  constructor
  · rintro ⟨hReport, hValid⟩
    rw [isValid, List.isEmpty_iff] at hValid
    unfold ofJob at hReport
    split at hReport
    · cases hReport
    · next g failure? _ hRun =>
      cases hReport
      cases failure? with
      | none => exact ⟨g, hRun, rfl⟩
      | some f => exact absurd hValid (errors_ofGeneration_ne g f)
  · rintro ⟨g, hRun, rfl⟩
    refine ⟨?_, ?_⟩
    · unfold ofJob
      rw [hRun]
    · rw [isValid, errors_ofGeneration (Generation.errorFree_of_checking hRun)]
      rfl

end CheckReport

namespace GenerateReport

def dryRun : GenerateOptions := ⟨true, false⟩

theorem finish_dryRun {fs : FileSystem} {job : Job} {g : Generation} {i : Bridge.Inventory}
    {r : Bridge.Resolution} (hInventory : g.inventory = .ok i) (hResolution : g.resolution = .ok r)
    (remarks : List Diagnostic) (edits : List Edit) (content : String) :
    ∃ report, (finish job dryRun (g.withSource remarks edits content) fs).2 = .ok report ∧
      report.bridged = r.plans.length := by
  have hInventory' : (g.withSource remarks edits content).inventory = .ok i := hInventory
  have hResolution' : (g.withSource remarks edits content).resolution = .ok r := hResolution
  refine ⟨⟨i.handlerClass, i.managerClass, r.plans.length, r.skipped, r.stubs.stubs.map (·.name),
    (g.withSource remarks edits content).warnings.map (·.describe),
    .preview g.sources.output content edits.length⟩, ?_, rfl⟩
  show ofResult (g.withSource remarks edits content) _ = _
  rw [ofResult, hResolution', hInventory']
  rfl

variable [PatternLibrary]

theorem ofJob_dryRun (fs : FileSystem) (job : Job) :
    (ofJob fs job dryRun).2 =
      match runAll fs Stage.checking (start job.configuration job.sources) with
      | ⟨_, some f⟩ => .error f
      | ⟨g, none⟩ =>
        match g.writeServer with
        | ⟨_, some f⟩ => .error f
        | ⟨next, none⟩ => (finish job dryRun next fs).2 := by
  unfold ofJob runJob
  rw [if_neg (by decide), Generation.runAll_all]
  rcases runAll fs Stage.checking (start job.configuration job.sources) with ⟨g, - | f⟩
  · simp only
    rcases g.writeServer with ⟨next, - | f⟩
    · rfl
    · rfl
  · rfl

theorem ofJob_eq_error {fs : FileSystem} {job : Job} {g next : Generation} {f : GenerationFailure}
    (hRun : runAll fs Stage.checking (start job.configuration job.sources) = ⟨g, none⟩)
    (hWritten : g.writeServer = ⟨next, some f⟩) : (ofJob fs job dryRun).2 = .error f := by
  rw [ofJob_dryRun, hRun]
  simp only [hWritten]

/-- After a successful check generating succeeds with the same plans, unless two edits collide or a
planned body ends inside of a character. -/
theorem ofJob_of_checking {fs : FileSystem} {job : Job} {g : Generation}
    (hRun : runAll fs Stage.checking (start job.configuration job.sources) = ⟨g, none⟩) :
    ∃ i r, g.inventory = .ok i ∧ g.resolution = .ok r ∧
      ((∃ report, (ofJob fs job dryRun).2 = .ok report ∧ report.bridged = r.plans.length) ∨
        (∃ collision, (ofJob fs job dryRun).2 = .error (.collision collision)) ∨
        ∃ position, (ofJob fs job dryRun).2 = .error (.aborted position) ∧
          Generation.EndsInsideCharacter fs job.configuration job.sources position) := by
  obtain ⟨stream, s, file, handler, i, r, hPrepared⟩ := Generation.prepared_of_checking hRun
  obtain ⟨placed, hPlaced⟩ := Generation.exists_classInFile? hPrepared.finds
  refine ⟨i, r, hPrepared.listed, hPrepared.planned, ?_⟩
  rw [ofJob_dryRun, hRun]
  by_cases hLines : ∀ plan ∈ r.plans, Generation.HasLine file plan
  · simp only [Generation.writeServer, hPrepared.withServer_eq hPlaced hLines]
    cases Edit.applyAll (Generation.serverEdits job.configuration s file placed r) file.text with
    | error collision => exact .inr (.inl ⟨collision, rfl⟩)
    | ok content => exact .inl (finish_dryRun hPrepared.listed hPrepared.planned _ _ content)
  · obtain ⟨plan, hPlan, hNone, hAborted⟩ := hPrepared.withServer_eq_aborted hPlaced hLines
    obtain ⟨hLt, hInside⟩ := Generation.lt_of_not_hasLine hNone
    simp only [Generation.writeServer, hAborted]
    exact .inr (.inr ⟨_, rfl, g, stream, s, file, handler, r, plan, hPrepared.resolved hRun,
      hPrepared.planned, hPlan, rfl, hLt, hInside⟩)

theorem ofJob_of_laidOut {fs : FileSystem} {job : Job}
    (h : Generation.LaidOut fs job.configuration job.sources) :
    ∃ report, (ofJob fs job dryRun).2 = .ok report := by
  obtain ⟨hName, g, stream, s, file, handler, hResolved, hLies, hNested, hMain⟩ := h
  obtain ⟨i, r, hPrepared⟩ := hResolved.prepared
  obtain ⟨placed, hLocated⟩ := hPrepared.exists_located hName hLies hNested
  obtain ⟨_, _, _, _, -, hWritten, -⟩ :=
    hPrepared.writeServer_eq hLocated (hLocated.stop_le_commentStart hMain)
  obtain ⟨report, hReport, -⟩ :=
    @finish_dryRun fs job g i r hPrepared.listed hPrepared.planned _ _ _
  refine ⟨report, ?_⟩
  rw [ofJob_dryRun, hResolved.run]
  simp only [hWritten]
  exact hReport

end GenerateReport

/-- A valid check tells how many methods generating bridges. After it generating has no server only
where two edits collide or a planned body ends inside of a character, which both need a skeleton that
is not laid out as expected. Where generating succeeds the check is valid and tells the same
number. -/
theorem check_agrees_with_generate [PatternLibrary] (fs : FileSystem) (job : Job) :
    (∀ r, CheckReport.ofJob fs job = .ok r → r.isValid = true →
      ∃ coverage n, r.coverage? = some coverage ∧ coverage.bridged? = some n ∧
        ((∃ report, (GenerateReport.ofJob fs job GenerateReport.dryRun).2 = .ok report ∧
            report.bridged = n) ∨
          ((∃ collision, (GenerateReport.ofJob fs job GenerateReport.dryRun).2 =
              .error (.collision collision)) ∨
            ∃ position, (GenerateReport.ofJob fs job GenerateReport.dryRun).2 =
                .error (.aborted position) ∧
              Generation.EndsInsideCharacter fs job.configuration job.sources position) ∧
            ¬Generation.LaidOut fs job.configuration job.sources)) ∧
    ∀ report, (GenerateReport.ofJob fs job GenerateReport.dryRun).2 = .ok report →
      ∃ r coverage, CheckReport.ofJob fs job = .ok r ∧ r.isValid = true ∧
        r.coverage? = some coverage ∧ coverage.bridged? = some report.bridged := by
  have hCoverage {g : Generation} {i : Bridge.Inventory} {r : Bridge.Resolution}
      (hInventory : g.inventory = .ok i) (hResolution : g.resolution = .ok r) :
      ∃ coverage, (CheckReport.ofGeneration job.configurationPath? g none).coverage? =
        some coverage ∧ coverage.bridged? = some r.plans.length := by
    have hInventory' := Generation.require_eq_ok_iff.mp hInventory
    have hResolution' := Generation.require_eq_ok_iff.mp hResolution
    simp only [CheckReport.ofGeneration, CheckReport.coverageOf, hInventory', hResolution',
      Option.map_some]
    exact ⟨_, rfl, rfl⟩
  constructor
  · intro r hReport hValid
    obtain ⟨g, hRun, rfl⟩ := (CheckReport.isValid_iff fs job r).mp ⟨hReport, hValid⟩
    obtain ⟨i, resolution, hInventory, hResolution, hGenerate⟩ := GenerateReport.ofJob_of_checking hRun
    obtain ⟨coverage, hSome, hBridged⟩ := hCoverage hInventory hResolution
    refine ⟨coverage, _, hSome, hBridged, hGenerate.imp_right fun hFails => ⟨hFails, fun hLaidOut => ?_⟩⟩
    obtain ⟨report, hReport⟩ := GenerateReport.ofJob_of_laidOut hLaidOut
    rcases hFails with ⟨collision, hCollides⟩ | ⟨position, hAborted, -⟩
    · cases hCollides.symm.trans hReport
    · cases hAborted.symm.trans hReport
  · intro report hGenerate
    rcases hRun : runAll fs Stage.checking (start job.configuration job.sources) with ⟨g, - | f⟩
    · obtain ⟨i, resolution, hInventory, hResolution, hSame⟩ := GenerateReport.ofJob_of_checking hRun
      obtain ⟨coverage, hSome, hBridged⟩ := hCoverage hInventory hResolution
      obtain ⟨hReport, hValid⟩ := (CheckReport.isValid_iff fs job _).mpr ⟨g, hRun, rfl⟩
      refine ⟨_, coverage, hReport, hValid, hSome, ?_⟩
      rcases hSame with ⟨report', hSame, hCount⟩ | ⟨collision, hSame⟩ | ⟨position, hSame, -⟩
      · cases hGenerate.symm.trans hSame
        rw [hBridged, hCount]
      · cases hGenerate.symm.trans hSame
      · cases hGenerate.symm.trans hSame
    · rw [GenerateReport.ofJob_dryRun, hRun] at hGenerate
      cases hGenerate

def smallJob : Job := ⟨Generation.smallConfiguration, Generation.twoSources, none, "/"⟩

theorem check_agrees_on_wholeSkeleton :
    ∃ r coverage report n,
      CheckReport.ofJob (Generation.twoFiles Generation.wholeSkeleton "") smallJob = .ok r ∧
      r.isValid = true ∧ r.coverage? = some coverage ∧ coverage.bridged? = some n ∧
      (GenerateReport.ofJob (Generation.twoFiles Generation.wholeSkeleton "") smallJob
        GenerateReport.dryRun).2 = .ok report ∧ report.bridged = n := by
  let fs := Generation.twoFiles Generation.wholeSkeleton ""
  obtain ⟨g, stream, s, file, handler, i, r, hRun, hPrepared, hTest⟩ :=
    Generation.exists_of_passes Generation.passes_wholeSkeleton
  obtain ⟨hLies, hNested, hMain⟩ := Generation.of_isWellPlaced hTest
  have hLaidOut : Generation.LaidOut fs smallJob.configuration smallJob.sources :=
    ⟨by decide, g, stream, s, file, handler, hPrepared.resolved hRun, hLies, hNested, fun _ => hMain⟩
  obtain ⟨report, hGenerate⟩ := GenerateReport.ofJob_of_laidOut hLaidOut
  obtain ⟨checked, _, hReport, hValid, -, -⟩ :=
    (check_agrees_with_generate fs smallJob).2 report hGenerate
  obtain ⟨coverage, n, hSome, hBridged, hSame⟩ :=
    (check_agrees_with_generate fs smallJob).1 checked hReport hValid
  rcases hSame with ⟨report', hSame, hCount⟩ | ⟨-, hSame⟩
  · exact ⟨checked, coverage, report', n, hReport, hValid, hSome, hBridged, hSame, hCount⟩
  · exact absurd hLaidOut hSame

def mainFirstSkeleton : String :=
  "struct M \x7b void G(int a); \x7d;\nint main() \x7b\n\x7d\n" ++
    "struct H \x7b\nvoid G(int a) \x7b\n\n\x7d\n\x7d;\n"

/-- Comments that start before the handler collide with the body of its method. -/
theorem check_valid_where_comments_collide :
    ∃ r, CheckReport.ofJob (Generation.twoFiles mainFirstSkeleton "") smallJob = .ok r ∧
      r.isValid = true ∧
      ∃ collision, (GenerateReport.ofJob (Generation.twoFiles mainFirstSkeleton "") smallJob
        GenerateReport.dryRun).2 = .error (.collision collision) := by
  have hPasses : Generation.passes (Generation.twoFiles mainFirstSkeleton "") smallJob.configuration
      (fun _ s file handler r =>
        (s.classInFile? file.id handler.qualifiedName).any fun placed =>
          let edits := Generation.serverEdits smallJob.configuration s file placed r
          decide (∀ e ∈ edits, e.Fits file.text.toList) &&
            !decide (edits.Pairwise fun a b => ¬a.Overlap b)) = true := by
    simp only [Generation.passes, Generation.runAll, Generation.runStages, Stage.checking, Stage.run,
      Generation.readSymbols, Generation.withSymbols, Batch.ofRoots, Generation.readOptions,
      Generation.roots, Batch.runSteps, Preprocess.addRoot, Preprocess.depthLimit,
      Preprocess.readFile, Generation.findFile?, Generation.start, Generation.twoSources,
      Generation.canonical?_twoFiles, Generation.readText?_twoFiles]
    decide +kernel
  obtain ⟨g, stream, s, file, handler, i, r, hRun, hPrepared, hTest⟩ :=
    Generation.exists_of_passes hPasses
  obtain ⟨placed, hPlaced⟩ := Generation.exists_classInFile? hPrepared.finds
  simp only [hPlaced, Option.any_some, Bool.and_eq_true, Bool.not_eq_true', decide_eq_true_eq,
    decide_eq_false_iff_not] at hTest
  obtain ⟨hReport, hValid⟩ := (CheckReport.isValid_iff _ smallJob _).mpr ⟨g, hRun, rfl⟩
  refine ⟨_, hReport, hValid, ?_⟩
  have hWritten := hPrepared.withServer_eq hPlaced (Generation.hasLines_of_fits hTest.1)
  cases hMade : Edit.applyAll (Generation.serverEdits smallJob.configuration s file placed r)
    file.text with
  | ok edited => exact absurd (Edit.compatible_of_applyAll hTest.1 hMade) hTest.2
  | error collision =>
    refine ⟨collision, @GenerateReport.ofJob_eq_error _ _ smallJob g g _ hRun ?_⟩
    rw [Generation.writeServer, hWritten, hMade]
    rfl

end SkeletonWeave
