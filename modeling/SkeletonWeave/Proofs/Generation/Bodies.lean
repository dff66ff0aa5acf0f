import SkeletonWeave.Proofs.Command.Agreement
import SkeletonWeave.Proofs.Declaration.Definition
import SkeletonWeave.Proofs.Preprocess.Calls

/-!
# The bodies that are replaced

A plan keeps the two braces of a method that the handler class defines. The
last stage replaces the text between their offsets in the skeleton. This is the
text of the body where both braces stand in the skeleton, and some other text
where a brace was included from another file.
-/

set_option autoImplicit false

namespace SkeletonWeave

open Text

theorem Token.exists_text_of_lex {file : Nat} {name text : String} {ts : List Token}
    (hLex : lex file name text = .ok ts) {t : Token} (ht : t ∈ ts) (hKind : t.kind ≠ .directive) :
    ∃ before after, text.toList = before ++ (t.text.toList ++ after) ∧
      t.span.start = byteLength before ∧
      t.span.stop = byteLength before + byteLength t.text.toList := by
  obtain ⟨earlier, later, rfl⟩ := List.append_of_mem ht
  obtain ⟨ls, hTiled, hTokens⟩ := lex_eq_ok hLex
  obtain ⟨passed, l, rest, rfl, -, hToken⟩ := exists_of_ofLexemes hTokens.symm
  obtain ⟨hSpan, -⟩ := span_of_toToken? hToken
  refine ⟨passed.flatMap (·.chars), rest.flatMap (·.chars), ?_, ?_, ?_⟩
  · rw [hTiled.flatMap_chars, List.flatMap_append, List.flatMap_cons,
      Lexeme.text_of_toToken? hToken hKind]
  · rw [hSpan, Nat.zero_add]
  · rw [hSpan, Nat.zero_add, Lexeme.text_of_toToken? hToken hKind]

theorem Preprocess.Drawn.exists_text_between {first : Nat} {files : List Source.File}
    {ts : List Token} {file : Source.File} (h : Drawn first files ts) (hFile : file ∈ files)
    {t u : Token} (hPair : [t, u].Sublist ts) (ht : t.span.file = file.id)
    (hu : u.span.file = file.id) (htKind : t.kind ≠ .directive) (huKind : u.kind ≠ .directive) :
    ∃ before between after,
      file.text.toList =
        before ++ (t.text.toList ++ (between ++ (u.text.toList ++ after))) ∧
      t.span.start = byteLength before ∧
      t.span.stop = byteLength (before ++ t.text.toList) ∧
      u.span.start = byteLength (before ++ t.text.toList) + byteLength between := by
  obtain ⟨lexed, hLex, hPart⟩ := h.tokensOf_sublist hFile hPair (by simp [ht, hu])
  have hOrder := List.rel_of_pairwise_cons ((Token.pairwise_of_lex hLex).sublist hPart)
    List.mem_cons_self
  obtain ⟨before, after, hText, hStart, hStop⟩ :=
    Token.exists_text_of_lex hLex (hPart.subset (by simp)) htKind
  obtain ⟨before', after', hText', hStart', -⟩ :=
    Token.exists_text_of_lex hLex (hPart.subset (by simp)) huKind
  rw [← byteLength_append] at hStop
  rw [← List.append_assoc] at hText
  have hBoundary : IsBoundary (before ++ t.text.toList ++ after) (byteLength before') := by
    rw [← hText]
    exact ⟨before', _, hText', rfl⟩
  obtain ⟨between, rest, rfl, hBetween⟩ := exists_between hBoundary (by omega)
  have hSame : before ++ t.text.toList ++ between ++ rest = before' ++ (u.text.toList ++ after') := by
    rw [← hText', hText, List.append_assoc _ between]
  obtain ⟨-, rfl⟩ := cut_unique hSame (by rw [byteLength_append]; omega)
  refine ⟨before, between, after', ?_, hStart, hStop, by omega⟩
  rw [hText, List.append_assoc]

namespace Generation

open Bridge

variable {fs : FileSystem} {c : Configuration} {sources : SourcesSection} {g : Generation}
  {stream : Preprocess.State} {s : SymbolTable} {file : Source.File} {handler : Class}
  {r : Resolution}

theorem Resolved.mem_plans [PatternLibrary] (h : Resolved fs c sources g stream s file handler)
    (hPlanned : g.resolution = .ok r) {plan : MethodPlan} (hPlan : plan ∈ r.plans) :
    ∃ m ∈ handler.publicMethods,
      plan.handler = m.name ∧ plan.line = m.line ∧ m.body? = some plan.body := by
  obtain ⟨g₁, hParse, hRun⟩ := runAll_cons_eq_ok h.run
  obtain ⟨g₂, hInventory, hRun⟩ := runAll_cons_eq_ok hRun
  obtain ⟨g₃, hResolve, hRun⟩ := runAll_cons_eq_ok hRun
  cases hRun
  obtain ⟨_, _, _, -, -, rfl⟩ := readSymbols_eq_ok hParse
  obtain ⟨_, -, rfl⟩ := takeInventory_eq_ok hInventory
  obtain ⟨sides, r', remarks, hSides, hResolves, rfl⟩ := exists_resolves hResolve
  obtain ⟨file', -, hSymbols, hFile, hHandler, -⟩ := sides_eq_ok_iff.mp hSides
  cases hSymbols.symm.trans (require_eq_ok_iff.mp h.parsed)
  cases hFile.symm.trans h.skeleton
  cases hHandler.symm.trans h.finds
  cases hPlanned
  obtain ⟨m, hm, hPlan⟩ := hResolves.mem_plans_iff.mp hPlan
  obtain ⟨-, hBody, -⟩ := hPlan
  exact ⟨m, hm, rfl, rfl, hBody⟩

theorem Prepared.writeServer_of_found {i : Inventory} {placed : Class}
    (h : Prepared fs c sources g stream s file handler i r)
    (hPlaced : s.classInFile? file.id handler.qualifiedName = some placed) {next : Generation}
    (hWritten : writeServer g = ⟨next, none⟩) :
    (∀ plan ∈ r.plans, HasLine file plan) ∧
      ∃ content, Edit.applyAll (serverEdits c s file placed r) file.text = .ok content ∧
        next = g.withSource (mainEdits c s file).2 (serverEdits c s file placed r) content := by
  rw [writeServer, ofResult_eq_iff] at hWritten
  by_cases hLines : ∀ plan ∈ r.plans, HasLine file plan
  · rw [h.withServer_eq hPlaced hLines] at hWritten
    obtain ⟨content, hMade, hNext⟩ := map_eq_ok hWritten
    exact ⟨hLines, content, mapError_eq_ok hMade, hNext.symm⟩
  · obtain ⟨plan, -, -, hAborted⟩ := h.withServer_eq_aborted hPlaced hLines
    cases hAborted.symm.trans hWritten

theorem Prepared.writeServer_eq_ok {i : Inventory}
    (h : Prepared fs c sources g stream s file handler i r) {next : Generation}
    (hWritten : writeServer g = ⟨next, none⟩) :
    (∀ plan ∈ r.plans, HasLine file plan) ∧
      ∃ placed content, Edit.applyAll (serverEdits c s file placed r) file.text = .ok content ∧
        next = g.withSource (mainEdits c s file).2 (serverEdits c s file placed r) content := by
  obtain ⟨placed, hPlaced⟩ := exists_classInFile? h.finds
  obtain ⟨hLines, content, hMade, hNext⟩ := h.writeServer_of_found hPlaced hWritten
  exact ⟨hLines, placed, content, hMade, hNext⟩

/-- Whether an edit of a file replaces what stands strictly between two braces of it. -/
def ReplacesBetween (e : Edit) (file : Source.File) (opening closing : Token) : Prop :=
  opening.span.file = file.id ∧ closing.span.file = file.id ∧
    ∃ before between after, file.text.toList = before ++ '\x7b' :: (between ++ '\x7d' :: after) ∧
      opening.span.start = byteLength before ∧
      e.start = byteLength before + 1 ∧ e.stop = byteLength before + 1 + byteLength between

theorem replacesBetween_iff {first : Nat} {files : List Source.File} {ts : List Token}
    (hDrawn : Preprocess.Drawn first files ts) (hFile : file ∈ files) {opening closing : Token}
    (hPair : [opening, closing].Sublist ts) (hOpen : opening.isPunctuation "\x7b" = true)
    (hClose : closing.isPunctuation "\x7d" = true) {plan : MethodPlan}
    (hBody : plan.body = ⟨opening.span, closing.span⟩) :
    ReplacesBetween (plannedEdit c file plan) file opening closing ↔
      opening.span.file = file.id ∧ closing.span.file = file.id := by
  constructor
  · rintro ⟨hOpening, hClosing, -⟩
    exact ⟨hOpening, hClosing⟩
  · rintro ⟨hOpening, hClosing⟩
    have hKind {t : Token} {text : String} (h : t.isPunctuation text = true) :
        t.kind ≠ .directive := by
      simp only [Token.isPunctuation, Bool.and_eq_true, beq_iff_eq] at h
      simp [h.1]
    obtain ⟨before, between, after, hText, hStart, hStop, hNext⟩ := hDrawn.exists_text_between hFile
      hPair hOpening hClosing (hKind hOpen) (hKind hClose)
    rw [Token.text_of_isPunctuation hOpen] at hText hStop hNext
    rw [Token.text_of_isPunctuation hClose] at hText
    have hBrace : byteLength (before ++ "\x7b".toList) = byteLength before + 1 := by
      rw [byteLength_append]
      rfl
    rw [hBrace] at hStop hNext
    refine ⟨hOpening, hClosing, before, between, after, hText, hStart, ?_, ?_⟩
    · rw [plannedEdit, hBody]
      exact hStop
    · rw [plannedEdit, hBody]
      exact hNext

/-- Each planned body is the body of a public method that the handler defines in the stream, and
what the last stage replaces is the text between its braces exactly where both stand in the
skeleton. -/
theorem bodies_replaced [PatternLibrary] {next : Generation}
    (h : runAll fs Stage.all (start c sources) = ⟨next, none⟩) :
    ∃ g stream s file handler r server,
      Resolved fs c sources g stream s file handler ∧ g.resolution = .ok r ∧
      next.output = .ok server ∧ Edit.applyAll server.edits file.text = .ok server.content ∧
      ∀ plan ∈ r.plans, ∃ m ∈ handler.publicMethods, ∃ head opening inside closing,
        plan.handler = m.name ∧ plan.line = m.line ∧ plan.body = ⟨opening.span, closing.span⟩ ∧
        m.TakenFrom head opening inside closing ∧
        head ++ opening :: (inside ++ [closing]) <:+: stream.tokens.toList ∧
        ∃ e ∈ server.edits, bodyEdit c file plan = .ok e ∧
          (ReplacesBetween e file opening closing ↔
            opening.span.file = file.id ∧ closing.span.file = file.id) := by
  rw [runAll_all] at h
  split at h
  · next g hRun =>
    obtain ⟨stream, s, file, handler, i, r, hPrepared⟩ := prepared_of_checking hRun
    have hResolved := hPrepared.resolved hRun
    obtain ⟨hLines, placed, content, hMade, rfl⟩ := hPrepared.writeServer_eq_ok h
    refine ⟨g, stream, s, file, handler, r, _, hResolved, hPrepared.planned, rfl, hMade, ?_⟩
    have hDrawn := Batch.drawn_of_roots hPrepared.reads
    have hFile : file ∈ stream.files :=
      hPrepared.files ▸ mem_files_of_skeletonFile hPrepared.parsed hPrepared.skeleton
    have hMem := List.mem_of_find?_eq_some (handlerClass_eq_ok_iff.mp hPrepared.finds)
    obtain ⟨keyword, extent, close, hTaken, hExtent⟩ :=
      (Declaration.found_of_read hPrepared.declares).placed.standsIn handler hMem
    intro plan hPlan
    obtain ⟨m, hm, hName, hLine, hBody⟩ := hResolved.mem_plans hPrepared.planned hPlan
    obtain ⟨head, opening, inside, closing, hWithin, hSpans, -, hFrom⟩ :=
      Declaration.definition_of_takenFrom hTaken (List.mem_filter.mp hm).1 hBody
    have hStream : head ++ opening :: (inside ++ [closing]) <:+: stream.tokens.toList := by
      refine hWithin.trans (List.IsInfix.trans ?_ hExtent)
      exact ⟨[keyword], [close], by simp⟩
    have hPair : [opening, closing].Sublist stream.tokens.toList := by
      refine List.Sublist.trans ?_ hStream.sublist
      refine List.sublist_append_of_sublist_right (List.Sublist.cons_cons opening ?_)
      exact List.sublist_append_right inside [closing]
    refine ⟨m, hm, head, opening, inside, closing, hName, hLine, hSpans, hFrom, hStream,
      plannedEdit c file plan, ?_, bodyEdit_of_hasLine (hLines plan hPlan),
      replacesBetween_iff hDrawn hFile hPair hFrom.1 hFrom.2.1 hSpans⟩
    simp only [serverEdits, List.mem_append]
    exact .inl (.inr (List.mem_map_of_mem hPlan))
  · cases h

theorem body_replaced_of_wholeSkeleton :
    ∃ next g stream s file handler r server plan opening closing e,
      runAll (twoFiles wholeSkeleton "") Stage.all (start smallConfiguration twoSources) =
        ⟨next, none⟩ ∧
      Resolved (twoFiles wholeSkeleton "") smallConfiguration twoSources g stream s file handler ∧
      g.resolution = .ok r ∧ next.output = .ok server ∧ plan ∈ r.plans ∧
      e ∈ server.edits ∧ bodyEdit smallConfiguration file plan = .ok e ∧
      ReplacesBetween e file opening closing := by
  have hPasses : passes (twoFiles wholeSkeleton "") smallConfiguration
      (fun stream s file handler r => isWellPlaced stream s file handler && !r.plans.isEmpty) =
        true := by
    simp only [passes, runAll, runStages, Stage.checking, Stage.run, readSymbols, withSymbols,
      Batch.ofRoots, readOptions, roots, Batch.runSteps, Preprocess.addRoot, Preprocess.depthLimit,
      Preprocess.readFile, findFile?, start, twoSources, canonical?_twoFiles, readText?_twoFiles]
    decide +kernel
  obtain ⟨g, stream, s, file, handler, i, r, hRun, hPrepared, hTest⟩ := exists_of_passes hPasses
  obtain ⟨hPlaced, hPlans⟩ := Bool.and_eq_true_iff.mp hTest
  obtain ⟨hLies, hNested, hMain⟩ := of_isWellPlaced hPlaced
  obtain ⟨placed, hLocated⟩ := hPrepared.exists_located (by decide) hLies hNested
  obtain ⟨_, _, _, _, -, hWritten, -⟩ :=
    hPrepared.writeServer_eq hLocated (hLocated.stop_le_commentStart fun _ => hMain)
  have hAll := runAll_all (twoFiles wholeSkeleton "") (start smallConfiguration twoSources)
  rw [hRun] at hAll
  simp only [hWritten] at hAll
  obtain ⟨g', stream', s', file', handler', r', server, hResolved, hPlanned, hOutput, -, hEach⟩ :=
    bodies_replaced hAll
  cases hRun.symm.trans hResolved.run
  cases hPrepared.parsed.symm.trans hResolved.parsed
  cases hPrepared.reads.symm.trans hResolved.reads
  cases hPrepared.skeleton.symm.trans hResolved.skeleton
  cases hPrepared.planned.symm.trans hPlanned
  obtain ⟨plan, hPlan⟩ := List.exists_mem_of_ne_nil r.plans (by simpa using hPlans)
  obtain ⟨m, -, head, opening, inside, closing, -, -, -, -, hStream, e, hEdit, hMade, hExact⟩ :=
    hEach plan hPlan
  have hOwn : ∀ t ∈ stream.tokens.toList, t.span.file = file.id := by
    simp only [isWellPlaced, Bool.and_eq_true, List.all_eq_true, beq_iff_eq] at hPlaced
    exact hPlaced.1.1
  exact ⟨_, g, stream, s, file, handler', r, server, plan, opening, closing, e, hAll, hResolved,
    hPlanned, hOutput, hPlan, hEdit, hMade,
    hExact.mpr ⟨hOwn opening (hStream.subset (by simp)), hOwn closing (hStream.subset (by simp))⟩⟩

end Generation

end SkeletonWeave
