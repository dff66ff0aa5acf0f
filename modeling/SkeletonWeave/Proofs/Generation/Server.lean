import SkeletonWeave.Pattern.Reader
import SkeletonWeave.Proofs.Generation.Edits

/-!
# The source of the server

The edits of the last stage lie one after the other in the skeleton where its
parts do. So they can all be made, and the source of the server is what they
make of each part. The one slip is the look-up of the class for the stubs.
-/

set_option autoImplicit false

namespace SkeletonWeave

open Text

namespace Generation

open Bridge
open Edit (Within splice splice_append_of_le)

variable {c : Configuration} {file : Source.File}

def serverEdits (c : Configuration) (s : SymbolTable) (file : Source.File) (placed : Class)
    (r : Resolution) : List Edit :=
  bannerEdits file.text c.emit.banner ++ stubEdits (.ofEmit c.emit) file placed r.stubs ++
    r.plans.map (plannedEdit c file) ++ (mainEdits c s file).1

def withSource (g : Generation) (remarks : List Diagnostic) (edits : List Edit)
    (content : String) : Generation :=
  { g.remark remarks with output? := some ⟨g.sources.output, edits, content⟩ }

variable {fs : FileSystem} {sources : SourcesSection} {g : Generation} {stream : Preprocess.State}
  {s : SymbolTable} {handler placed : Class} {i : Inventory} {r : Resolution}

theorem hasLines_of_fits (h : ∀ e ∈ serverEdits c s file placed r, e.Fits file.text.toList) :
    ∀ plan ∈ r.plans, HasLine file plan := by
  intro plan hPlan
  have hMem : plannedEdit c file plan ∈ serverEdits c s file placed r := by
    simp only [serverEdits, List.mem_append]
    exact .inl (.inr (List.mem_map_of_mem hPlan))
  exact hasLine_of_fits (h _ hMem)

theorem Prepared.handlerClass_eq (h : Prepared fs c sources g stream s file handler i r)
    (hPlaced : s.classInFile? file.id handler.qualifiedName = some placed) :
    handlerClass s file.id i.handlerClass = .ok placed := by
  rw [h.named, handlerClass_eq_ok_iff, hPlaced]

theorem Prepared.withServer_eq (h : Prepared fs c sources g stream s file handler i r)
    (hPlaced : s.classInFile? file.id handler.qualifiedName = some placed)
    (hLines : ∀ plan ∈ r.plans, HasLine file plan) :
    g.withServer =
      ((Edit.applyAll (serverEdits c s file placed r) file.text).mapError
        GenerationFailure.collision).map
          (g.withSource (mainEdits c s file).2 (serverEdits c s file placed r)) := by
  have hBodies : r.plans.mapM (bodyEdit c file) = .ok (r.plans.map (plannedEdit c file)) :=
    mapM_bodyEdit hLines
  rw [withServer, h.parsed, h.skeleton, h.listed, h.planned]
  simp only [Bind.bind, Except.bind, h.handlerClass_eq hPlaced, h.settings, hBodies]
  cases hMade : Edit.applyAll (serverEdits c s file placed r) file.text with
  | error collision =>
    rw [serverEdits] at hMade
    rw [hMade]
    rfl
  | ok content =>
    rw [serverEdits] at hMade
    rw [hMade]
    rfl

theorem Prepared.withServer_eq_aborted (h : Prepared fs c sources g stream s file handler i r)
    (hPlaced : s.classInFile? file.id handler.qualifiedName = some placed)
    (hLines : ¬∀ plan ∈ r.plans, HasLine file plan) :
    ∃ plan ∈ r.plans, ¬HasLine file plan ∧
      g.withServer = .error (.aborted plan.body.closing.start) := by
  obtain ⟨plan, hPlan, hNone, hAborted⟩ := @exists_aborted_of_mapM c _ _ hLines
  refine ⟨plan, hPlan, hNone, ?_⟩
  rw [withServer, h.parsed, h.skeleton, h.listed, h.planned]
  simp only [Bind.bind, Except.bind, h.handlerClass_eq hPlaced, h.settings, hAborted]

/-- The parts of the skeleton: the first comment where a banner replaces it, what stands before the
line of a class, what stands before the comments, and the rest. -/
structure Parts (c : Configuration) (s : SymbolTable) (file : Source.File) (placed : Class)
    (opening between core tail : List Char) : Prop where
  text : file.text.toList = opening ++ (between ++ (core ++ tail))
  lead : byteLength opening = bannerLength c file.text.toList
  head : byteLength (opening ++ between) = file.lineStart placed.headLine
  comments : byteLength (opening ++ (between ++ core)) = commentStart c s file

def serverText (c : Configuration) (file : Source.File) (placed : Class) (r : Resolution)
    (between core tail : List Char) : List Char :=
  (String.join (c.emit.banner.map (· ++ "\n"))).toList ++ between ++
    (r.stubs.render (.ofEmit c.emit)).toList ++
    splice (r.plans.map (plannedEdit c file)) (file.lineStart placed.headLine) core ++ commented tail

/-- Whether the bodies lie after the line of a class and before the comments. -/
structure Apart (c : Configuration) (s : SymbolTable) (file : Source.File) (placed : Class)
    (r : Resolution) : Prop where
  lead_le : bannerLength c file.text.toList ≤ file.lineStart placed.headLine
  head_le : file.lineStart placed.headLine ≤ commentStart c s file
  bodies : Within file.text.toList (file.lineStart placed.headLine) (commentStart c s file)
    (r.plans.map (plannedEdit c file))

theorem Located.apart (h : Located s file handler placed)
    (hBodies : (planBraces r.plans).Sublist (handler.methods.flatMap (·.braces)))
    (hMain : handler.span.stop ≤ commentStart c s file) : Apart c s file placed r := by
  have hLead := h.lead_le
  have hHead := h.head_le
  have hRange := h.start_le
  refine ⟨?_, by omega, (within_plannedEdits (h.braces.sublist hBodies)).mono hHead hMain⟩
  unfold bannerLength
  split
  · exact Nat.zero_le _
  · exact hLead

theorem isBoundary_commentStart (c : Configuration) (s : SymbolTable) (file : Source.File) :
    IsBoundary file.text.toList (commentStart c s file) := by
  obtain ⟨before, lines, hText, -, hBefore, -⟩ := exists_comments c s file
  exact ⟨before, lines.flatten, hText, hBefore⟩

theorem within_mainEdits (c : Configuration) (s : SymbolTable) (file : Source.File) :
    Within file.text.toList (commentStart c s file) (byteLength file.text.toList)
      (mainEdits c s file).1 := by
  obtain ⟨before, lines, hText, -, hBefore, hEdits⟩ := exists_comments c s file
  rw [hEdits, ← hBefore, hText]
  exact within_commentsAt before lines

theorem splice_mainEdits {before tail : List Char} (hText : file.text.toList = before ++ tail)
    (hBefore : byteLength before = commentStart c s file) :
    splice (mainEdits c s file).1 (commentStart c s file) tail = commented tail := by
  obtain ⟨before', lines, hText', hLines, hBefore', hEdits⟩ := exists_comments c s file
  obtain ⟨rfl, rfl⟩ := cut_unique (hText.symm.trans hText') (hBefore.trans hBefore'.symm)
  rw [hEdits, ← hBefore, splice_commentsAt, commented, hLines]

namespace Apart

theorem hasLines (h : Apart c s file placed r) : ∀ plan ∈ r.plans, HasLine file plan :=
  fun _ hPlan => hasLine_of_fits (h.bodies.fits _ (List.mem_map_of_mem hPlan))

theorem exists_parts (h : Apart c s file placed r) :
    ∃ opening between core tail, Parts c s file placed opening between core tail := by
  obtain ⟨opening, between, core, tail, hText, hLead, hHead, hComments⟩ :=
    Text.exists_parts (isBoundary_bannerLength c file.text.toList)
      (isBoundary_lineStart file placed.headLine) (isBoundary_commentStart c s file) h.lead_le h.head_le
  exact ⟨opening, between, core, tail, hText, hLead, hHead, hComments⟩

theorem within_later (h : Apart c s file placed r) :
    Within file.text.toList (file.lineStart placed.headLine) (byteLength file.text.toList)
      (stubEdits (.ofEmit c.emit) file placed r.stubs ++
        (r.plans.map (plannedEdit c file) ++ (mainEdits c s file).1)) := by
  have hEnd := (isBoundary_commentStart c s file).le_byteLength
  have hStubs := within_stubEdits (.ofEmit c.emit) file placed r.stubs
  exact hStubs.append (h.bodies.append (within_mainEdits c s file) h.head_le hEnd) (Nat.le_refl _)
    (Nat.le_trans h.head_le hEnd)

theorem within (h : Apart c s file placed r) :
    Within file.text.toList 0 (byteLength file.text.toList) (serverEdits c s file placed r) := by
  have hCut := (isBoundary_bannerLength c file.text.toList).le_byteLength
  have hAll := (within_bannerEdits c file.text).append
    (h.within_later.mono h.lead_le (Nat.le_refl _)) (Nat.zero_le _) hCut
  simpa only [serverEdits, List.append_assoc] using hAll

theorem splice_serverEdits (h : Apart c s file placed r) {opening between core tail : List Char}
    (hParts : Parts c s file placed opening between core tail) :
    splice (serverEdits c s file placed r) 0 file.text.toList =
      serverText c file placed r between core tail := by
  have hLength : bannerLength c file.text.toList + byteLength between =
      file.lineStart placed.headLine := by
    rw [← hParts.lead, ← hParts.head, byteLength_append]
  have hCore : file.lineStart placed.headLine + byteLength core = commentStart c s file := by
    rw [← hParts.head, ← hParts.comments, ← List.append_assoc opening, byteLength_append _ core]
  have hComments : splice (mainEdits c s file).1 (commentStart c s file) tail = commented tail := by
    refine splice_mainEdits ?_ hParts.comments
    rw [hParts.text]
    simp only [List.append_assoc]
  let head := file.lineStart placed.headLine
  let stubs := stubEdits (.ofEmit c.emit) file placed r.stubs
  let bodies := r.plans.map (plannedEdit c file)
  let comments := (mainEdits c s file).1
  have hStubs : Within file.text.toList head head stubs := within_stubEdits _ _ _ _
  have hBodies : Within file.text.toList head (byteLength file.text.toList) (bodies ++ comments) :=
    h.bodies.append (within_mainEdits c s file) h.head_le
      (isBoundary_commentStart c s file).le_byteLength
  calc splice (serverEdits c s file placed r) 0 file.text.toList
      = splice (bannerEdits file.text c.emit.banner ++ (stubs ++ (bodies ++ comments))) 0
          (opening ++ (between ++ (core ++ tail))) := by
        rw [← hParts.text, serverEdits, List.append_assoc, List.append_assoc]
    _ = splice (bannerEdits file.text c.emit.banner) 0 opening ++
          splice (stubs ++ (bodies ++ comments)) (bannerLength c file.text.toList)
            (between ++ (core ++ tail)) :=
        (within_bannerEdits c file.text).splice_append
          (h.within_later.mono h.lead_le (Nat.le_refl _)) (by rw [Nat.zero_add, hParts.lead]) _
    _ = splice (bannerEdits file.text c.emit.banner) 0 opening ++ (between ++
          splice (stubs ++ (bodies ++ comments)) head ([] ++ (core ++ tail))) := by
        rw [splice_append_of_le, hLength, List.nil_append]
        intro e he
        rw [hLength]
        exact (h.within_later.bounds e he).1
    _ = splice (bannerEdits file.text c.emit.banner) 0 opening ++ (between ++
          (splice stubs head [] ++ (splice bodies head core ++
            splice comments (commentStart c s file) tail))) := by
        rw [hStubs.splice_append hBodies (Nat.add_zero _),
          h.bodies.splice_append (within_mainEdits c s file) hCore]
    _ = serverText c file placed r between core tail := by
        rw [splice_bannerEdits hParts.lead, splice_stubEdits, hComments, serverText]
        simp only [List.append_assoc]
        rfl

end Apart

theorem Prepared.writeServer_eq (h : Prepared fs c sources g stream s file handler i r)
    (hLocated : Located s file handler placed) (hMain : handler.span.stop ≤ commentStart c s file) :
    ∃ opening between core tail, Parts c s file placed opening between core tail ∧
      writeServer g = ⟨g.withSource (mainEdits c s file).2 (serverEdits c s file placed r)
        (String.ofList (serverText c file placed r between core tail)), none⟩ ∧
      Edit.Compatible (serverEdits c s file placed r) := by
  have hApart := hLocated.apart h.bodies hMain
  obtain ⟨opening, between, core, tail, hParts⟩ := hApart.exists_parts
  have hMade := Edit.applyAll_of_compatible hApart.within.fits hApart.within.compatible
  refine ⟨opening, between, core, tail, hParts, ?_, hApart.within.compatible⟩
  rw [writeServer, h.withServer_eq hLocated.found hApart.hasLines, hMade,
    hApart.splice_serverEdits hParts]
  rfl

theorem mem_files_of_skeletonFile (hParsed : g.symbols = .ok s) (hFile : g.skeletonFile = .ok file) :
    file ∈ s.files := by
  rw [skeletonFile, bind_eq_ok] at hFile
  obtain ⟨id, -, hFile⟩ := hFile
  rw [bind_eq_ok] at hFile
  obtain ⟨s', hSymbols, hFile⟩ := hFile
  cases hParsed.symm.trans hSymbols
  split at hFile
  · next found hFound =>
    cases hFile
    exact List.mem_of_find?_eq_some hFound
  · cases hFile

theorem Prepared.exists_located (h : Prepared fs c sources g stream s file handler i r)
    (hName : c.handler.className ≠ "") (hLies : handler.LiesIn file.id stream.tokens.toList)
    (hNested : ∀ d ∈ s.classes, d.span.Inside handler.span → d.name ≠ "") :
    ∃ placed, Located s file handler placed := by
  have hFile : file ∈ stream.files := h.files ▸ mem_files_of_skeletonFile h.parsed h.skeleton
  exact Generation.exists_located (Batch.drawn_of_roots h.reads)
    (Declaration.found_of_read h.declares) hFile hName (handlerClass_eq_ok_iff.mp h.finds) hLies
    hNested

theorem Located.stop_le_commentStart (h : Located s file handler placed)
    (hMain : c.emit.commentOutMain = true → ∀ f, mainFunction? s file = some f →
      handler.span.stop ≤ file.lineStart (f.line - 1)) :
    handler.span.stop ≤ commentStart c s file := by
  unfold commentStart
  split
  · next f hFound =>
    split at hFound
    · next hOption => exact hMain hOption f hFound
    · cases hFound
  · exact h.stops.le_byteLength

/-- Whether the last stage finds the skeleton as it expects it: the tokens of the handler come from
it, all classes inside of the handler have names, and the comments start after it. -/
def LaidOut [PatternLibrary] (fs : FileSystem) (c : Configuration) (sources : SourcesSection) :
    Prop :=
  c.handler.className ≠ "" ∧ ∃ g stream s file handler,
    Resolved fs c sources g stream s file handler ∧
    handler.LiesIn file.id stream.tokens.toList ∧
    (∀ d ∈ s.classes, d.span.Inside handler.span → d.name ≠ "") ∧
    (c.emit.commentOutMain = true → ∀ f, mainFunction? s file = some f →
      handler.span.stop ≤ file.lineStart (f.line - 1))

/-- Where the tokens of the handler come from the skeleton, all classes inside of it have names, and
the comments start after it, the last stage writes the source of the server. The stubs stand before
the class that is found by the qualified name of the handler: this is the handler, or an anonymous
class of the same qualified name. -/
theorem writeServer_of_handler_in_skeleton [PatternLibrary]
    (h : Resolved fs c sources g stream s file handler) (hName : c.handler.className ≠ "")
    (hLies : handler.LiesIn file.id stream.tokens.toList)
    (hNested : ∀ d ∈ s.classes, d.span.Inside handler.span → d.name ≠ "")
    (hMain : c.emit.commentOutMain = true → ∀ f, mainFunction? s file = some f →
      handler.span.stop ≤ file.lineStart (f.line - 1)) :
    ∃ placed r opening between core tail,
      s.classInFile? file.id handler.qualifiedName = some placed ∧
      (placed = handler ∨ placed ∈ s.classes ∧ placed.span.file = file.id ∧ placed.name = "" ∧
        placed.qualifiedName = handler.qualifiedName) ∧
      g.resolution = .ok r ∧
      Parts c s file placed opening between core tail ∧
      writeServer g = ⟨g.withSource (mainEdits c s file).2 (serverEdits c s file placed r)
        (String.ofList (serverText c file placed r between core tail)), none⟩ ∧
      (serverEdits c s file placed r).Pairwise fun a b => ¬a.Overlap b := by
  obtain ⟨i, r, hPrepared⟩ := h.prepared
  obtain ⟨placed, hLocated⟩ := hPrepared.exists_located hName hLies hNested
  obtain ⟨opening, between, core, tail, hParts, hWritten, hCompatible⟩ :=
    hPrepared.writeServer_eq hLocated (hLocated.stop_le_commentStart hMain)
  exact ⟨placed, r, opening, between, core, tail, hLocated.found, hLocated.same, hPrepared.planned,
    hParts, hWritten, hCompatible⟩

def twoFiles (skeleton header : String) : FileSystem :=
  ⟨[(["s.cpp"], .file skeleton.toUTF8), (["m.h"], .file header.toUTF8)], []⟩

def twoSources : SourcesSection := ⟨"/s.cpp", "/o.cpp", "/m.h", [], [], []⟩

def smallConfiguration : Configuration where
  sources := twoSources
  handler := ⟨"H", "_return", "retval"⟩
  manager := ⟨"M", "Get", "mgr", []⟩
  matching := { MatchingSection.default with pattern := "(.*)_(.*)" }
  emit := { EmitSection.default with banner := ["// new"] }

theorem locate?_twoFiles (skeleton header : String) :
    (twoFiles skeleton header).locate? "/s.cpp" = some ["s.cpp"] ∧
      (twoFiles skeleton header).locate? "/m.h" = some ["m.h"] := by
  have hSkeleton : Path.isAbsolute "/s.cpp" = true ∧ Path.segments "/s.cpp" = ["", "s.cpp"] := by
    decide +kernel
  have hHeader : Path.isAbsolute "/m.h" = true ∧ Path.segments "/m.h" = ["", "m.h"] := by
    decide +kernel
  rw [FileSystem.locate?, FileSystem.locate?, hSkeleton.1, hSkeleton.2, hHeader.1, hHeader.2]
  simp [FileSystem.follow, FileSystem.isDirectoryAt, FileSystem.entry?, twoFiles,
    FileSystem.linkLimit, List.lookup_cons]

theorem canonical?_twoFiles (skeleton header : String) :
    (twoFiles skeleton header).canonical? "/s.cpp" = some "/s.cpp" ∧
      (twoFiles skeleton header).canonical? "/m.h" = some "/m.h" := by
  rw [FileSystem.canonical?, FileSystem.canonical?, (locate?_twoFiles skeleton header).1,
    (locate?_twoFiles skeleton header).2]
  decide +kernel

theorem readText?_twoFiles (skeleton header : String) :
    (twoFiles skeleton header).readText? "/s.cpp" = some skeleton ∧
      (twoFiles skeleton header).readText? "/m.h" = some header := by
  rw [FileSystem.readText?, FileSystem.readText?, FileSystem.read?, FileSystem.read?,
    (locate?_twoFiles skeleton header).1, (locate?_twoFiles skeleton header).2]
  simp [FileSystem.entry?, twoFiles, List.lookup_cons, String.fromUTF8?, String.isValidUTF8,
    String.fromUTF8]

/-- Whether all stages but the last succeed, and what they leave behind passes a test. -/
def passes (fs : FileSystem) (c : Configuration)
    (test : Preprocess.State → SymbolTable → Source.File → Class → Resolution → Bool) : Bool :=
  match Batch.runSteps (Preprocess.addRoot fs (readOptions twoSources)) (roots twoSources)
      (.initial (readOptions twoSources)), runAll fs Stage.checking (start c twoSources) with
  | .ok stream, ⟨g, none⟩ =>
    match g.symbols, g.skeletonFile, g.resolution with
    | .ok s, .ok file, .ok r =>
      match handlerClass s file.id c.handler.className with
      | .ok handler => test stream s file handler r
      | .error _ => false
    | _, _, _ => false
  | _, _ => false

theorem exists_of_passes
    {test : Preprocess.State → SymbolTable → Source.File → Class → Resolution → Bool}
    (h : passes fs c test = true) :
    ∃ g stream s file handler i r, runAll fs Stage.checking (start c twoSources) = ⟨g, none⟩ ∧
      Prepared fs c twoSources g stream s file handler i r ∧ test stream s file handler r = true := by
  unfold passes at h
  split at h
  · next g hStream hRun =>
    obtain ⟨stream, s, file, handler, i, r, hPrepared⟩ := prepared_of_checking hRun
    rw [hPrepared.parsed, hPrepared.skeleton, hPrepared.planned] at h
    simp only [hPrepared.finds] at h
    cases hStream.symm.trans hPrepared.reads
    exact ⟨g, _, s, file, handler, i, r, hRun, hPrepared, h⟩
  · cases h

theorem Prepared.resolved [PatternLibrary] (h : Prepared fs c sources g stream s file handler i r)
    (hRun : runAll fs Stage.checking (start c sources) = ⟨g, none⟩) :
    Resolved fs c sources g stream s file handler :=
  ⟨hRun, h.reads, h.parsed, h.skeleton, h.finds⟩

def isWellPlaced (stream : Preprocess.State) (s : SymbolTable) (file : Source.File)
    (handler : Class) : Bool :=
  stream.tokens.toList.all (·.span.file == file.id) &&
    s.classes.all (fun d => d.name != "" ||
      !(decide (handler.span.start < d.span.start) && decide (d.span.stop < handler.span.stop))) &&
    (mainFunction? s file).all fun f => decide (handler.span.stop ≤ file.lineStart (f.line - 1))

theorem of_isWellPlaced (h : isWellPlaced stream s file handler = true) :
    handler.LiesIn file.id stream.tokens.toList ∧
      (∀ d ∈ s.classes, d.span.Inside handler.span → d.name ≠ "") ∧
      ∀ f, mainFunction? s file = some f → handler.span.stop ≤ file.lineStart (f.line - 1) := by
  simp only [isWellPlaced, Bool.and_eq_true, List.all_eq_true, beq_iff_eq, Bool.or_eq_true,
    bne_iff_ne, Bool.not_eq_true', Bool.and_eq_false_iff, decide_eq_false_iff_not,
    Option.all_eq_true, decide_eq_true_eq] at h
  obtain ⟨⟨hTokens, hClasses⟩, hMain⟩ := h
  refine ⟨?_, ?_, fun f hf => hMain f hf⟩
  · intro extent hExtent _ t ht
    exact hTokens t (hExtent.subset ht)
  · rintro d hd ⟨-, hStart, hStop⟩
    have := hClasses d hd
    rcases this with hName | hStart' | hStop'
    · exact hName
    · exact absurd hStart hStart'
    · exact absurd hStop hStop'

def wholeSkeleton : String :=
  "// old\nstruct M \x7b void F(void (*pcallback)(int)); \x7d;\n" ++
    "struct H \x7b\nvoid F() \x7b\n\x7d\n\x7d;\n\nint main() \x7b\n\x7d\n"

theorem passes_wholeSkeleton :
    passes (twoFiles wholeSkeleton "") smallConfiguration
      (fun stream s file handler _ => isWellPlaced stream s file handler) = true := by
  simp only [passes, runAll, runStages, Stage.checking, Stage.run, readSymbols, withSymbols,
    Batch.ofRoots, readOptions, roots, Batch.runSteps, Preprocess.addRoot, Preprocess.depthLimit,
    Preprocess.readFile, findFile?, start, twoSources, canonical?_twoFiles, readText?_twoFiles]
  decide +kernel

theorem writeServer_of_wholeSkeleton :
    ∃ g stream s file handler,
      Resolved (twoFiles wholeSkeleton "") smallConfiguration twoSources g stream s file handler ∧
      ∃ next, writeServer g = ⟨next, none⟩ := by
  obtain ⟨g, stream, s, file, handler, i, r, hRun, hPrepared, hTest⟩ :=
    exists_of_passes passes_wholeSkeleton
  obtain ⟨hLies, hNested, hMain⟩ := of_isWellPlaced hTest
  have hResolved := hPrepared.resolved hRun
  obtain ⟨_, _, _, _, _, _, -, -, -, -, hWritten, -⟩ := writeServer_of_handler_in_skeleton hResolved
    (by decide) hLies hNested fun _ => hMain
  exact ⟨g, stream, s, file, handler, hResolved, _, hWritten⟩

def anonymousSkeleton : String :=
  "struct M \x7b void F(void (*pcallback)(int)); \x7d;\nnamespace A \x7b\nnamespace \x7b\n" ++
    "namespace H \x7b struct \x7b int n; \x7d s; \x7d\n\x7d\n" ++
    "struct H \x7b\nvoid F() \x7b\n\x7d\n\x7d;\n\x7d\n"

/-- The stubs stand before the line of the anonymous class, and not before that of the handler. -/
theorem stubs_before_anonymous_class :
    ∃ g stream s file handler next server stub,
      Resolved (twoFiles anonymousSkeleton "") smallConfiguration twoSources g stream s file handler ∧
      handler.LiesIn file.id stream.tokens.toList ∧
      (∀ d ∈ s.classes, d.span.Inside handler.span → d.name ≠ "") ∧
      (∀ f, mainFunction? s file = some f → handler.span.stop ≤ file.lineStart (f.line - 1)) ∧
      writeServer g = ⟨next, none⟩ ∧ next.output? = some server ∧ stub ∈ server.edits ∧
      stub.label = "callback stubs" ∧ stub.start = 72 ∧ file.lineStart handler.headLine = 111 := by
  have hPasses : passes (twoFiles anonymousSkeleton "") smallConfiguration
      (fun stream s file handler r => isWellPlaced stream s file handler &&
        file.lineStart handler.headLine == 111 && !r.stubs.stubs.isEmpty &&
        (s.classInFile? file.id handler.qualifiedName).any fun placed =>
          file.lineStart placed.headLine == 72) = true := by
    simp only [passes, runAll, runStages, Stage.checking, Stage.run, readSymbols, withSymbols,
      Batch.ofRoots, readOptions, roots, Batch.runSteps, Preprocess.addRoot, Preprocess.depthLimit,
      Preprocess.readFile, findFile?, start, twoSources, canonical?_twoFiles, readText?_twoFiles]
    decide +kernel
  obtain ⟨g, stream, s, file, handler, i, r, hRun, hPrepared, hTest⟩ := exists_of_passes hPasses
  simp only [Bool.and_eq_true, Bool.not_eq_true', beq_iff_eq] at hTest
  obtain ⟨⟨⟨hPlaced, hHead⟩, hStubs⟩, hLine⟩ := hTest
  obtain ⟨hLies, hNested, hMain⟩ := of_isWellPlaced hPlaced
  obtain ⟨placed, hLocated⟩ := hPrepared.exists_located (by decide) hLies hNested
  obtain ⟨_, _, _, _, -, hWritten, -⟩ :=
    hPrepared.writeServer_eq hLocated (hLocated.stop_le_commentStart fun _ => hMain)
  rw [hLocated.found, Option.any_some, beq_iff_eq] at hLine
  refine ⟨g, stream, s, file, handler, _, _, Edit.insertion (file.lineStart placed.headLine)
    (r.stubs.render (.ofEmit smallConfiguration.emit)) "callback stubs", hPrepared.resolved hRun, hLies,
    hNested, hMain, hWritten, rfl, ?_, rfl, hLine, hHead⟩
  simp [serverEdits, stubEdits, hStubs]

end Generation

end SkeletonWeave
