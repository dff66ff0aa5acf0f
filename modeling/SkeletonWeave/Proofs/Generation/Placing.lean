import SkeletonWeave.Proofs.Generation.Bodies
import SkeletonWeave.Proofs.Token.LineStarts

/-!
# Where the stubs stand

The stubs are inserted at the start of a line, that of the class which is found
by the qualified name of the handler. This is a place before the keyword of the
handler, and between whatever stands there, exactly if the line has the number
of that of the keyword and nothing that goes over a line feed ends on it.
-/

set_option autoImplicit false

namespace SkeletonWeave

open Text
open Token (Tiled charsOf ofLexemes hiddenBreaks Outside Settled)

/-- Whether a class begins with a keyword of a file, behind some lexemes. -/
structure Class.BeginsWith (c : Class) (file : Source.File) (passed : List Lexeme)
    (keyword : Lexeme) (more : List Lexeme) : Prop where
  tiled : Tiled true file.text.toList (passed ++ keyword :: more)
  start : byteLength (charsOf passed) = c.span.start
  line : c.headLine = 1 + (passed.map (·.lines)).sum
  word : ∃ t, keyword.toToken? file.id c.span.start c.headLine = some t ∧
    (t.text = "class" ∨ t.text = "struct" ∨ t.text = "union")

namespace Class.BeginsWith

variable {c : Class} {file : Source.File} {passed more : List Lexeme} {keyword : Lexeme}

theorem ne_newline (h : c.BeginsWith file passed keyword more) : keyword ≠ ⟨.newline, ['\n']⟩ := by
  rintro rfl
  obtain ⟨t, hToken, -⟩ := h.word
  cases hToken

theorem charsOf_eq (h : c.BeginsWith file passed keyword more) {before rest : List Char}
    (hText : file.text.toList = before ++ rest) (hStart : c.span.start = byteLength before) :
    charsOf passed = before := by
  have hCut : file.text.toList = charsOf (passed ++ keyword :: more) := h.tiled.flatMap_chars
  rw [Token.charsOf_append, hText] at hCut
  exact (cut_unique hCut (hStart.symm.trans h.start.symm)).1.symm

theorem headLine_add_hiddenBreaks (h : c.BeginsWith file passed keyword more) :
    c.headLine + ((ofLexemes file.id 0 1 passed).map hiddenBreaks).sum =
      1 + (charsOf passed).count '\n' := by
  have hSound : ∀ l ∈ passed, l.Sound := fun l hl =>
    (h.tiled.sound l (List.mem_append_left _ hl)).1
  have hCount := Token.sum_lines_add_sum_hiddenBreaks hSound file.id 0 1
  rw [h.line, Nat.add_assoc, hCount, charsOf]

theorem headLine_eq_iff (h : c.BeginsWith file passed keyword more) :
    c.headLine = 1 + (charsOf passed).count '\n' ↔
      ∀ t ∈ ofLexemes file.id 0 1 passed, hiddenBreaks t = 0 := by
  have hNone := @List.sum_eq_zero_iff_forall_eq_nat
    ((ofLexemes file.id 0 1 passed).map hiddenBreaks)
  rw [List.forall_mem_map] at hNone
  rw [← hNone, ← h.headLine_add_hiddenBreaks]
  omega

theorem headLine_le (h : c.BeginsWith file passed keyword more) :
    1 ≤ c.headLine ∧ c.headLine ≤ 1 + file.text.toList.count '\n' := by
  have hLine := h.line
  have hHidden := h.headLine_add_hiddenBreaks
  have hText : file.text.toList = charsOf (passed ++ keyword :: more) := h.tiled.flatMap_chars
  rw [hText, Token.charsOf_append, List.count_append]
  omega

end Class.BeginsWith

theorem Preprocess.Drawn.exists_beginsWith {first : Nat} {files : List Source.File}
    {ts : List Token} (hDrawn : Drawn first files ts) {classes : List Class}
    (hRead : Declaration.Found classes ts) {file : Source.File} (hFile : file ∈ files) {c : Class}
    (hc : c ∈ classes) (hOwn : c.span.file = file.id) :
    ∃ passed keyword more, c.BeginsWith file passed keyword more := by
  obtain ⟨t, inside, close, hTaken, hExtent⟩ := hRead.placed.standsIn c hc
  obtain ⟨hWord, hSpan, hHead, -⟩ := Declaration.spans_of_takenFrom hTaken
  rw [hSpan] at hOwn
  have ht : t ∈ ts := hExtent.subset List.mem_cons_self
  obtain ⟨lexed, hLex, hPart⟩ :=
    hDrawn.tokensOf_sublist hFile (List.singleton_sublist.mpr ht) (by simpa using hOwn)
  obtain ⟨ls, hTiled, rfl⟩ := Token.lex_eq_ok hLex
  obtain ⟨before, after, hTokens⟩ := List.append_of_mem (hPart.subset (List.mem_singleton_self t))
  obtain ⟨passed, keyword, more, rfl, -, hToken⟩ := Token.exists_of_ofLexemes hTokens
  obtain ⟨hPlace, hLine⟩ := Token.span_of_toToken? hToken
  have hStart : c.span.start = byteLength (charsOf passed) := by
    rw [hSpan, hPlace, Nat.zero_add]
    rfl
  have hNumber : c.headLine = 1 + (passed.map (·.lines)).sum := by rw [hHead, hLine]
  refine ⟨passed, keyword, more, hTiled, hStart.symm, hNumber, t, ?_, hWord⟩
  rw [hStart, hNumber]
  rwa [Nat.zero_add] at hToken

namespace Generation

open Bridge

variable {fs : FileSystem} {c : Configuration} {sources : SourcesSection}

/-- Whether a position stands before the keyword of a class on the same line, and inside of no
lexeme of the file. -/
def StandsBefore (file : Source.File) (passed : List Lexeme) (keyword : Lexeme)
    (more : List Lexeme) (position : Nat) : Prop :=
  SameLine file.text.toList position (byteLength (charsOf passed)) ∧
    Outside (passed ++ keyword :: more) position

theorem Prepared.exists_beginsWith {g : Generation} {stream : Preprocess.State} {s : SymbolTable}
    {file : Source.File} {handler found : Class} {i : Inventory} {r : Resolution} {name : String}
    (h : Prepared fs c sources g stream s file handler i r)
    (hFind : s.classInFile? file.id name = some found) :
    ∃ passed keyword more, found.BeginsWith file passed keyword more := by
  have hOwn := List.find?_some hFind
  rw [Bool.and_eq_true, beq_iff_eq] at hOwn
  have hFile : file ∈ stream.files := h.files ▸ mem_files_of_skeletonFile h.parsed h.skeleton
  exact (Batch.drawn_of_roots h.reads).exists_beginsWith (Declaration.found_of_read h.declares)
    hFile (List.mem_of_find?_eq_some hFind) hOwn.1

theorem standsBefore_lineStart_iff {file : Source.File} {handler placed : Class}
    {passed more passed' more' : List Lexeme} {keyword keyword' : Lexeme}
    (hHandler : handler.BeginsWith file passed keyword more)
    (hPlaced : placed.BeginsWith file passed' keyword' more') :
    StandsBefore file passed keyword more (file.lineStart placed.headLine) ↔
      placed.headLine = 1 + (charsOf passed).count '\n' ∧ Settled passed :=
  Token.lineStart_on_line_iff hHandler.tiled hHandler.ne_newline hPlaced.headLine_le.1
    hPlaced.headLine_le.2

theorem insertion_mem_serverEdits (c : Configuration) (s : SymbolTable) (file : Source.File)
    (placed : Class) {r : Resolution} (hStubs : r.stubs.stubs ≠ []) :
    Edit.insertion (file.lineStart placed.headLine) (r.stubs.render (.ofEmit c.emit))
      "callback stubs" ∈ serverEdits c s file placed r := by
  simp [serverEdits, stubEdits, hStubs]

/-- The stubs of a run are inserted at the start of the line of a class that has the qualified name
of the handler: the handler itself, or a class without name. That place stands before the keyword
of the handler, whose public methods were planned, exactly if the number of the line is right and
everything before the keyword that goes over a line feed is followed by another one. For the handler
itself the number is right exactly if no literal before the keyword goes over a line feed. -/
theorem stubs_stand_before_keyword_iff [PatternLibrary] {next : Generation}
    (h : runAll fs Stage.all (start c sources) = ⟨next, none⟩) :
    ∃ g stream s file handler placed r server passed keyword more,
      Resolved fs c sources g stream s file handler ∧ g.resolution = .ok r ∧
      next.output = .ok server ∧ server.edits = serverEdits c s file placed r ∧
      (∀ plan ∈ r.plans, ∃ m ∈ handler.publicMethods,
        plan.handler = m.name ∧ plan.line = m.line ∧ m.body? = some plan.body) ∧
      handler.BeginsWith file passed keyword more ∧
      s.classInFile? file.id handler.qualifiedName = some placed ∧
      (c.handler.className ≠ "" → placed = handler ∨ placed ∈ s.classes ∧
        placed.span.file = file.id ∧ placed.name = "" ∧
        placed.qualifiedName = handler.qualifiedName) ∧
      (r.stubs.stubs ≠ [] →
        Edit.insertion (file.lineStart placed.headLine) (r.stubs.render (.ofEmit c.emit))
          "callback stubs" ∈ server.edits) ∧
      (StandsBefore file passed keyword more (file.lineStart placed.headLine) ↔
        placed.headLine = 1 + (charsOf passed).count '\n' ∧ Settled passed) ∧
      (placed = handler →
        (placed.headLine = 1 + (charsOf passed).count '\n' ↔
          ∀ t ∈ ofLexemes file.id 0 1 passed, hiddenBreaks t = 0)) := by
  rw [runAll_all] at h
  split at h
  · next g hRun =>
    obtain ⟨stream, s, file, handler, i, r, hPrepared⟩ := prepared_of_checking hRun
    have hResolved := hPrepared.resolved hRun
    have hFind := handlerClass_eq_ok_iff.mp hPrepared.finds
    obtain ⟨placed, hPlaced⟩ := exists_classInFile? hPrepared.finds
    obtain ⟨-, content, -, rfl⟩ := hPrepared.writeServer_of_found hPlaced h
    obtain ⟨passed, keyword, more, hHandler⟩ := hPrepared.exists_beginsWith hFind
    obtain ⟨_, _, _, hOther⟩ := hPrepared.exists_beginsWith hPlaced
    refine ⟨g, stream, s, file, handler, placed, r, _, passed, keyword, more, hResolved,
      hPrepared.planned, rfl, rfl, ?_, hHandler, hPlaced, ?_, insertion_mem_serverEdits c s file placed,
      standsBefore_lineStart_iff hHandler hOther, ?_⟩
    · intro plan hPlan
      exact hResolved.mem_plans hPrepared.planned hPlan
    · intro hName
      obtain ⟨earlier, later, placed', hClasses, -, hPlaced', hSame⟩ :=
        SymbolTable.classInFile?_qualifiedName (Batch.drawn_of_roots hPrepared.reads)
          (Declaration.found_of_read hPrepared.declares).named hName hFind
      cases hPlaced.symm.trans hPlaced'
      refine hSame.imp_right fun ⟨hEarlier, hRest⟩ => ⟨?_, hRest⟩
      show placed ∈ s.classes
      rw [hClasses]
      exact List.mem_append_left _ hEarlier
    · rintro rfl
      exact hHandler.headLine_eq_iff
  · cases h

def writes (skeleton : String) (test : Class → Class → Bool) : Bool :=
  passes (twoFiles skeleton "") smallConfiguration fun _ s file handler r =>
    file.text == skeleton && !r.stubs.stubs.isEmpty &&
      (s.classInFile? file.id handler.qualifiedName).any fun placed =>
        let edits := serverEdits smallConfiguration s file placed r
        test handler placed && edits.all (fun e => decide (e.Fits file.text.toList)) &&
          decide (edits.Pairwise fun a b => a.stop ≤ b.start)

theorem exists_of_writes {skeleton : String} {test : Class → Class → Bool}
    (h : writes skeleton test = true) :
    ∃ next g stream s file handler placed i r server,
      runAll (twoFiles skeleton "") Stage.all (start smallConfiguration twoSources) =
        ⟨next, none⟩ ∧
      runAll (twoFiles skeleton "") Stage.checking (start smallConfiguration twoSources) =
        ⟨g, none⟩ ∧
      Prepared (twoFiles skeleton "") smallConfiguration twoSources g stream s file handler i r ∧
      s.classInFile? file.id handler.qualifiedName = some placed ∧ file.text = skeleton ∧
      r.stubs.stubs ≠ [] ∧ test handler placed = true ∧ next.output = .ok server ∧
      server.edits = serverEdits smallConfiguration s file placed r := by
  obtain ⟨g, stream, s, file, handler, i, r, hRun, hPrepared, hTest⟩ := exists_of_passes h
  simp only [Bool.and_eq_true, beq_iff_eq, Bool.not_eq_true', List.isEmpty_eq_false_iff] at hTest
  obtain ⟨⟨hText, hStubs⟩, hFound⟩ := hTest
  obtain ⟨placed, hPlaced⟩ := exists_classInFile? hPrepared.finds
  rw [hPlaced, Option.any_some] at hFound
  simp only [Bool.and_eq_true, List.all_eq_true, decide_eq_true_eq] at hFound
  obtain ⟨⟨hTest, hFits⟩, hSequence⟩ := hFound
  have hMade := Edit.applyAll_of_compatible hFits
    (Edit.InSequence.compatible (fun e he => (hFits e he).1) hSequence)
  have hWritten := hPrepared.withServer_eq hPlaced (hasLines_of_fits hFits)
  rw [hMade] at hWritten
  have hAll := runAll_all (twoFiles skeleton "") (start smallConfiguration twoSources)
  rw [hRun] at hAll
  simp only [writeServer, ofResult_eq_iff.mpr hWritten] at hAll
  exact ⟨_, g, stream, s, file, handler, placed, i, r, _, hAll, hRun, hPrepared, hPlaced, hText,
    hStubs, hTest, rfl, rfl⟩

def secondLineSkeleton : String :=
  "\nstruct H \x7b\nvoid F() \x7b\n\x7d\n\x7d;\n" ++
    "struct M \x7b void F(void (*pcallback)(int)); \x7d;\n"

/-- A skeleton with a class without name in a handler that stands in a scope. -/
def nestedSkeleton : String :=
  "struct M \x7b void F(void (*pcallback)(int)); \x7d;\nnamespace A \x7b\nstruct H \x7b\n" ++
    "struct \x7b int n; \x7d s;\nvoid F() \x7b\n\x7d\n\x7d;\n\x7d\n"

def commentSkeleton : String :=
  "/*\n*/ struct H \x7b\nvoid F() \x7b\n\x7d\n\x7d;\n" ++
    "struct M \x7b void F(void (*pcallback)(int)); \x7d;\n"

theorem writes_skeletons :
    writes secondLineSkeleton (fun handler placed =>
      handler.span.start == 1 && placed.headLine == 2) = true ∧
    writes nestedSkeleton (fun handler placed =>
      handler.span.start == 60 && placed.headLine == 4) = true ∧
    writes commentSkeleton (fun handler placed =>
      handler.span.start == 6 && placed.headLine == 2) = true := by
  simp only [writes, passes, runAll, runStages, Stage.checking, Stage.run, readSymbols, withSymbols,
    Batch.ofRoots, readOptions, roots, Batch.runSteps, Preprocess.addRoot, Preprocess.depthLimit,
    Preprocess.readFile, findFile?, start, twoSources, canonical?_twoFiles, readText?_twoFiles]
  decide +kernel

theorem stubs_stand_on_second_line :
    ∃ next g stream s file handler r server passed keyword more stub,
      runAll (twoFiles secondLineSkeleton "") Stage.all (start smallConfiguration twoSources) =
        ⟨next, none⟩ ∧
      Resolved (twoFiles secondLineSkeleton "") smallConfiguration twoSources g stream s file
        handler ∧
      g.resolution = .ok r ∧ next.output = .ok server ∧ stub ∈ server.edits ∧
      stub.label = "callback stubs" ∧ handler.BeginsWith file passed keyword more ∧
      StandsBefore file passed keyword more stub.start := by
  obtain ⟨next, g, stream, s, file, handler, placed, i, r, server, hAll, hRun, hPrepared, hPlaced,
    hText, hStubs, hTest, -⟩ := exists_of_writes writes_skeletons.1
  rw [Bool.and_eq_true, beq_iff_eq, beq_iff_eq] at hTest
  obtain ⟨g', stream', s', file', handler', placed', r', server, passed, keyword, more, hResolved,
    hPlanned, hOutput, -, -, hBegins, hPlaced', -, hStub, hExact, -⟩ :=
    stubs_stand_before_keyword_iff hAll
  cases hRun.symm.trans hResolved.run
  cases hPrepared.reads.symm.trans hResolved.reads
  cases hPrepared.parsed.symm.trans hResolved.parsed
  cases hPrepared.skeleton.symm.trans hResolved.skeleton
  cases hPrepared.finds.symm.trans hResolved.finds
  cases hPrepared.planned.symm.trans hPlanned
  cases hPlaced.symm.trans hPlaced'
  have hCut : file.text.toList = ['\n'] ++ secondLineSkeleton.toList.drop 1 := by
    rw [hText]
    decide +kernel
  have hChars : charsOf passed = ['\n'] := hBegins.charsOf_eq hCut hTest.1
  refine ⟨next, g, stream, s, file, handler, r, server, passed, keyword, more, _, hAll, hResolved,
    hPlanned, hOutput, hStub hStubs, rfl, hBegins, hExact.mpr ⟨?_, ?_⟩⟩
  · rw [hTest.2, hChars]
    rfl
  · -- what goes over a line feed has two characters at least
    rintro first l last rfl hSpreads
    have hTwo := List.length_pos_of_mem hSpreads
    have hOne := congrArg List.length hChars
    rw [Token.charsOf_append, Token.charsOf_cons, List.length_append, List.length_append] at hOne
    rw [List.length_dropLast] at hTwo
    simp only [List.length_cons, List.length_nil] at hOne
    omega

def Misplaces (skeleton : String) : Prop :=
  ∃ next g stream s file handler server passed keyword more stub,
    runAll (twoFiles skeleton "") Stage.all (start smallConfiguration twoSources) = ⟨next, none⟩ ∧
    Resolved (twoFiles skeleton "") smallConfiguration twoSources g stream s file handler ∧
    next.output = .ok server ∧ stub ∈ server.edits ∧ stub.label = "callback stubs" ∧
    handler.BeginsWith file passed keyword more ∧ ¬StandsBefore file passed keyword more stub.start

theorem misplaces_of_writes {skeleton : String} {test : Class → Class → Bool}
    (h : writes skeleton test = true)
    (hPlace : ∀ (file : Source.File) (handler placed : Class) (passed more : List Lexeme)
      (keyword : Lexeme), file.text = skeleton → test handler placed = true →
      handler.BeginsWith file passed keyword more →
      ¬StandsBefore file passed keyword more (file.lineStart placed.headLine)) :
    Misplaces skeleton := by
  obtain ⟨next, g, stream, s, file, handler, placed, i, r, server, hAll, hRun, hPrepared, -, hText,
    hStubs, hTest, hOutput, hEdits⟩ := exists_of_writes h
  obtain ⟨passed, keyword, more, hBegins⟩ :=
    hPrepared.exists_beginsWith (handlerClass_eq_ok_iff.mp hPrepared.finds)
  have hStub := insertion_mem_serverEdits smallConfiguration s file placed hStubs
  rw [← hEdits] at hStub
  exact ⟨next, g, stream, s, file, handler, server, passed, keyword, more, _, hAll,
    hPrepared.resolved hRun, hOutput, hStub, rfl, hBegins,
    hPlace file handler placed passed more keyword hText hTest hBegins⟩

/-- The stubs stand inside of the handler, before the class without name, and inside of the
comment. -/
theorem stubs_inside_handler_or_comment :
    Misplaces nestedSkeleton ∧ Misplaces commentSkeleton := by
  refine ⟨misplaces_of_writes writes_skeletons.2.1 ?_,
    misplaces_of_writes writes_skeletons.2.2 ?_⟩
  · intro file handler placed passed more keyword hText hTest hBegins hStands
    rw [Bool.and_eq_true, beq_iff_eq, beq_iff_eq] at hTest
    have hPosition : file.lineStart placed.headLine = 71 := by
      rw [hTest.2, Source.File.lineStart, hText]
      decide +kernel
    have hOrder := hStands.1.le
    rw [hBegins.start, hTest.1, hPosition] at hOrder
    omega
  · intro file handler placed passed more keyword hText hTest hBegins hStands
    rw [Bool.and_eq_true, beq_iff_eq, beq_iff_eq] at hTest
    have hPosition : file.lineStart placed.headLine = 3 := by
      rw [hTest.2, Source.File.lineStart, hText]
      decide +kernel
    have hCut : file.text.toList = '/' :: commentSkeleton.toList.drop 1 := by
      rw [hText]
      decide +kernel
    have hComment : (Lexeme.next true '/' (commentSkeleton.toList.drop 1)).toOption =
        some ⟨.comment, "/*\n*/".toList⟩ := by
      decide +kernel
    have hTiled := hBegins.tiled
    have hStart := hBegins.start
    rw [hCut] at hTiled
    rw [hTest.1] at hStart
    cases passed with
    | nil => cases hStart
    | cons m passed =>
      rw [List.cons_append] at hTiled
      cases hTiled with
      | step hRead _ _ =>
        obtain rfl := Except.ok.inj (hRead.symm.trans (eq_ok_of_toOption hComment))
        have hApart := hStands.2 [] _ (passed ++ keyword :: more) rfl
        rw [hPosition] at hApart
        revert hApart
        decide

end Generation

end SkeletonWeave
