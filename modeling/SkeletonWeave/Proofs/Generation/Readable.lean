import SkeletonWeave.Proofs.Declaration.Deciding
import SkeletonWeave.Proofs.Generation.Rereading

/-!
# The source of the server stays readable

Where the kept skeleton can be read by itself, and the edits cut it between its
tokens, the source of the server can be read in its place, and its handler has the
public methods that it had.
-/

set_option autoImplicit false

namespace SkeletonWeave

open Text

namespace Batch

open Preprocess (addRoot canonicalPath readFile)

theorem exists_text_of_root {fs : FileSystem} {options : ReadOptions} {first : String}
    {others : List String} {r : Preprocess.State}
    (h : runSteps (addRoot fs options) (first :: others) (.initial options) = .ok r) :
    ∃ text, fs.readText? first = some text := by
  unfold runSteps at h
  split at h
  · next next hNext =>
    rw [addRoot, Preprocess.depthLimit, readFile] at hNext
    cases hText : fs.readText? first with
    | some text => exact ⟨text, rfl⟩
    | none =>
      rw [hText] at hNext
      cases hNext
  · cases h

end Batch

theorem Token.ReadsAs.exists_lexemes {P : List Token → Prop} {text : String} (h : ReadsAs P text)
    {file : Nat} (hFile : file = 0) :
    ∃ ls, Tiled true text.toList ls ∧ P (ofLexemes file 0 1 ls) ∧
      ∀ name, lex file name text = .ok (ofLexemes file 0 1 ls) := by
  subst hFile
  obtain ⟨_, hLex, hContent⟩ := h
  obtain ⟨ls, hTiled, rfl⟩ := lex_eq_ok hLex
  refine ⟨ls, hTiled, hContent, fun name => ?_⟩
  have hAgain := lex_of_tiled hTiled 0 name
  rwa [String.ofList_toList] at hAgain

namespace Generation

open Bridge
open Preprocess (AddedBefore Contained canonicalPath)
open Token (Braced Fills IsStub ReadsAs Replaces Tiled ofLexemes)

variable {fs : FileSystem} {c : Configuration} {sources : SourcesSection} {g : Generation}
  {stream kept : Preprocess.State} {s : SymbolTable} {d : Declarations} {file : Source.File}
  {handler : Class} {r : Resolution} {w : Rewrite} {text : String}

theorem findFile?_first {fs' : FileSystem} {path canonical : String} {files : List Source.File}
    (h : canonicalPath fs' path = canonical) :
    findFile? fs' ⟨⟨0, canonical, text⟩ :: files, d⟩ path = some 0 := by
  have hSame : Path.same canonical canonical = true := Path.same_self canonical
  rw [findFile?, List.find?_cons_of_pos]
  · rfl
  · rw [Bool.or_eq_true]
    refine .inl ?_
    rw [← h] at hSame ⊢
    exact hSame

/-- The text that is read in the place of the skeleton is the first file. -/
theorem rereads_iff {old : String} (hOld : fs.readText? sources.skeleton = some old) :
    Rereads fs c sources text stream d handler ↔
      Batch.withFirst fs (readOptions sources) sources.skeleton text [sources.managerHeader] =
          .ok stream ∧
        Declaration.read stream.files stream.tokens.toList = .ok d ∧
        SymbolTable.classInFile? ⟨stream.files, d⟩ 0 c.handler.className = some handler := by
  have hExchanged := FileSystem.exchanged_withText text hOld
  have hRoots := Batch.runSteps_exchanged hExchanged (readOptions sources) [sources.managerHeader]
  have hCanonical : canonicalPath (fs.withText sources.skeleton text) sources.skeleton =
      canonicalPath fs sources.skeleton := by
    rw [canonicalPath, canonicalPath, hExchanged.canonical]
  constructor
  · rintro ⟨hReads, hDeclares, skeleton, hSkeleton, hClass⟩
    have hFirst := hRoots.symm.trans hReads
    obtain ⟨_, more, -, hFiles⟩ := Batch.exists_first hFirst
    rw [hFiles, findFile?_first hCanonical] at hSkeleton
    cases hSkeleton
    exact ⟨hFirst, hDeclares, handlerClass_eq_ok_iff.mp hClass⟩
  · rintro ⟨hFirst, hDeclares, hClass⟩
    obtain ⟨_, more, -, hFiles⟩ := Batch.exists_first hFirst
    refine ⟨hRoots.trans hFirst, hDeclares, 0, ?_, handlerClass_eq_ok_iff.mpr hClass⟩
    rw [hFiles, findFile?_first hCanonical]

theorem exists_extent {first : Nat} {files : List Source.File} {stream ts : List Token}
    (hDrawn : Preprocess.Drawn first files stream) (hRead : Declaration.read files stream = .ok d)
    (hFile : file ∈ files) (hLex : Token.lex file.id file.path file.text = .ok ts)
    (hClass : handler ∈ d.classes) (hLies : handler.LiesIn file.id stream) :
    ∃ keyword inside close, handler.TakenFrom (keyword :: (inside ++ [close])) ∧
      keyword :: (inside ++ [close]) <:+: stream ∧ (keyword :: (inside ++ [close])).Sublist ts := by
  obtain ⟨keyword, inside, close, hTaken, hExtent⟩ :=
    (Declaration.found_of_read hRead).placed.standsIn handler hClass
  obtain ⟨lexed, hLexed, hPart⟩ :=
    hDrawn.tokensOf_sublist hFile hExtent.sublist (hLies _ hExtent hTaken)
  cases hLex.symm.trans hLexed
  exact ⟨keyword, inside, close, hTaken, hExtent, hPart⟩

theorem exists_of_sublist {t : Token} {part ts : List Token} (h : (t :: part).Sublist ts) :
    ∃ before after, ts = before ++ t :: after ∧ part.Sublist after := by
  obtain ⟨before, rest, rfl, hMem, hPart⟩ := List.cons_sublist_iff.mp h
  obtain ⟨first, last, rfl⟩ := List.append_of_mem hMem
  exact ⟨first, last ++ rest, by simp, hPart.trans (List.sublist_append_right last rest)⟩

theorem insertsBefore {skeleton : Source.File} {ts : List Token} {head : Nat} {core : List Char}
    (hLex : Token.lex skeleton.id skeleton.path skeleton.text = .ok ts)
    {close : Token} {inside : List Token}
    (hPart : (w.keyword :: (inside ++ [close])).Sublist ts)
    (hTaken : handler.TakenFrom (w.keyword :: (inside ++ [close])))
    (hBodies : w.bodies = r.plans.map (·.body))
    (hPlans : ∀ plan ∈ r.plans, ∃ m ∈ handler.methods, m.body? = some plan.body)
    (hBraces : (planBraces r.plans).Sublist (handler.methods.flatMap (·.braces)))
    (hLine : ∃ blanks rest, core = blanks ++ rest ∧
      (∀ b ∈ blanks, Lexeme.isBlankInLine b = true) ∧
      w.keyword.span.start = head + byteLength blanks) :
    InsertsBefore w (r.plans.map (·.body)) head core ts := by
  obtain ⟨before, after, rfl, hRest⟩ := exists_of_sublist hPart
  have hInside : inside.Sublist (w.keyword :: after) :=
    ((List.sublist_append_left inside [close]).trans hRest).cons w.keyword
  have hBraced := braced_of_takenFrom hLex (List.sublist_append_right before _) hInside hTaken hBodies
    hPlans hBraces
  refine ⟨⟨before, after, rfl, fun t ht b hb hSpan => ?_, hBraced⟩, hLine⟩
  obtain ⟨u, hu, hOpening, -⟩ := hBraced.exists_opening b (hBodies ▸ hb)
  exact Token.precedes_of_lex hLex rfl ht hu (hSpan.trans hOpening.symm)

variable {placed : Class} {opening between core tail : List Char}

theorem Parts.toList_keptText (h : Parts c s file placed opening between core tail) :
    (keptText c s file).toList = opening ++ (between ++ core) := by
  have hText : file.text.toList = opening ++ (between ++ core) ++ tail := by
    rw [h.text]
    simp
  rw [keptText, String.toList_ofList, hText, ← h.comments, takeBytes_append]

theorem byteLength_keptText (c : Configuration) (s : SymbolTable) (file : Source.File) :
    byteLength (keptText c s file).toList = commentStart c s file := by
  obtain ⟨before, after, hText, hBefore⟩ := isBoundary_commentStart c s file
  rw [keptText, String.toList_ofList, hText, ← hBefore, takeBytes_append]

theorem Parts.exists_blanks (h : Parts c s file placed opening between core tail) {start : Nat}
    {blanks : List Char}
    (hBlanks : slice? file.text.toList (file.lineStart placed.headLine) start = some blanks)
    (hStart : start ≤ commentStart c s file) :
    ∃ rest, core = blanks ++ rest ∧ start = file.lineStart placed.headLine + byteLength blanks := by
  obtain ⟨before, after, hText, hBefore, hStop⟩ := exists_of_slice? hBlanks
  have hCut : opening ++ between ++ (core ++ tail) = before ++ (blanks ++ after) := by
    rw [← hText, h.text]
    simp
  obtain ⟨-, hRest⟩ := cut_unique hCut (h.head.trans hBefore.symm)
  have hCore : file.lineStart placed.headLine + byteLength core = commentStart c s file := by
    rw [← h.head, ← h.comments, ← List.append_assoc opening, byteLength_append _ core]
  rcases List.append_eq_append_iff.mp hRest with ⟨more, rfl, rfl⟩ | ⟨rest, rfl, -⟩
  · rw [byteLength_append] at hStop
    have hNone : more = [] := by
      cases more with
      | nil => rfl
      | cons d more =>
        have := d.utf8Size_pos
        rw [byteLength_cons] at hStop
        omega
    subst hNone
    exact ⟨[], by simp, by simpa using hStop.symm⟩
  · exact ⟨rest, rfl, hStop.symm⟩

/-- A rewriting of the kept skeleton: its keyword is the one that the handler starts with, and its
bodies are the planned ones. -/
structure Rewrites (w : Rewrite) (handler : Class) (r : Resolution) (inside : List Token) (close : Token)
    (kept ts : List Token) : Prop where
  taken : handler.TakenFrom (w.keyword :: (inside ++ [close]))
  stands : w.keyword :: (inside ++ [close]) <:+: kept
  lexed : (w.keyword :: (inside ++ [close])).Sublist ts
  bodies : w.bodies = r.plans.map (·.body)

theorem exists_rewrites {first : Nat} {files : List Source.File} {skeleton : Source.File}
    {stream ts : List Token} (hDrawn : Preprocess.Drawn first files stream)
    (hRead : Declaration.read files stream = .ok d) (hFile : skeleton ∈ files)
    (hLex : Token.lex skeleton.id skeleton.path skeleton.text = .ok ts) (hClass : handler ∈ d.classes)
    (hPlain : ∀ t ∈ stream, t.kind ≠ .directive) (hLies : handler.LiesIn skeleton.id stream)
    (r : Resolution) : ∃ w inside close, Rewrites w handler r inside close stream ts := by
  obtain ⟨keyword, inside, close, hTaken, hExtent, hPart⟩ :=
    exists_extent hDrawn hRead hFile hLex hClass hLies
  obtain ⟨hText, -⟩ := Declaration.spans_of_takenFrom hTaken
  have hWord := Token.isOneOf_of_text hLex (hPart.subset List.mem_cons_self)
    (hPlain _ (hExtent.subset List.mem_cons_self)) hText
  exact ⟨⟨keyword, r.plans.map (·.body), hWord⟩, inside, close, hTaken, hExtent, hPart, rfl⟩

theorem Rewrites.startsAt {inside kept ts : List Token} {close : Token}
    (h : Rewrites w handler r inside close kept ts) : handler.StartsAt w.keyword := by
  obtain ⟨-, hSpan, -⟩ := Declaration.spans_of_takenFrom h.taken
  rw [Class.StartsAt, hSpan]
  exact ⟨rfl, rfl⟩

theorem Rewrites.file_of_opening {inside kept ts : List Token} {close : Token}
    (h : Rewrites w handler r inside close kept ts)
    (hBraces : (planBraces r.plans).Sublist (handler.methods.flatMap (·.braces))) {file : Nat}
    (hOwn : ∀ t ∈ w.keyword :: (inside ++ [close]), t.span.file = file) :
    ∀ b ∈ w.bodies, b.opening.file = file := by
  intro b hb
  rw [h.bodies] at hb
  obtain ⟨plan, hPlan, rfl⟩ := List.mem_map.mp hb
  obtain ⟨-, -, -, hMethods⟩ := Declaration.spans_of_takenFrom h.taken
  have hOpening : plan.body.opening ∈ planBraces r.plans :=
    List.mem_flatMap.mpr ⟨plan, hPlan, List.mem_cons_self⟩
  obtain ⟨t, ht, hSpan⟩ := List.mem_map.mp (hMethods.subset (hBraces.subset hOpening))
  rw [← hSpan]
  exact hOwn t (by simp [ht])

theorem bodiesPlain_of_cuts {file : Nat} {name text : String} {ts : List Token}
    (hLex : Token.lex file name text = .ok ts)
    (hBodies : w.bodies = r.plans.map (·.body))
    (hCuts : ∀ t ∈ ts, t.kind = .directive → ∀ plan ∈ r.plans,
      ¬(plan.body.opening.stop ≤ t.span.start ∧ t.span.stop ≤ plan.body.closing.start)) :
    Preprocess.BodiesPlain w ts := by
  intro b hb opening inside closing hInfix hOpening hClosing t ht hKind
  rw [hBodies] at hb
  obtain ⟨plan, hPlan, rfl⟩ := List.mem_map.mp hb
  have hOrder := (Token.pairwise_of_lex hLex).sublist hInfix.sublist
  have hFirst := List.rel_of_pairwise_cons hOrder (List.mem_append_left [closing] ht)
  have hLast := (List.pairwise_append.mp hOrder.tail).2.2 t ht closing (by simp)
  rw [hOpening] at hFirst
  rw [hClosing] at hLast
  exact hCuts t (hInfix.subset (by simp [ht])) hKind plan hPlan ⟨hFirst, hLast⟩

theorem fills_mono {P Q : List Token → Prop} {cs : List Char} (h : Fills P cs) (hImp : ∀ ts, P ts → Q ts) :
    Fills Q cs := by
  obtain ⟨ls, hLeads, hContent⟩ := h
  exact ⟨ls, hLeads, fun offset line => hImp _ (hContent offset line)⟩

def AddedFor (r : Resolution) (ts : List Token) : Prop :=
  r.stubs.stubs ≠ [] ∧ IsStub ts

theorem Separable.replaces {inside kept : List Token} {close : Token} {ls : List Lexeme}
    (h : Separable c sources s file handler r kept) (hApart : Apart c s file handler r)
    (hParts : Parts c s file handler opening between core tail) (hFile : file.id = 0)
    (hStop : handler.span.stop ≤ commentStart c s file) (hStart : handler.span.start ≤ handler.span.stop)
    (hTiled : Tiled true (keptText c s file).toList ls)
    (hOpening : ∀ t ∈ ofLexemes file.id 0 1 ls, bannerLength c file.text.toList ≤ t.span.start)
    (hRewrites : Rewrites w handler r inside close kept (ofLexemes file.id 0 1 ls))
    (hPlans : ∀ plan ∈ r.plans, ∃ m ∈ handler.methods, m.body? = some plan.body)
    (hBraces : (planBraces r.plans).Sublist (handler.methods.flatMap (·.braces))) :
    Replaces w Contained (AddedBefore (readOptions sources) (AddedFor r)) true file.id 0 1 ls
      (serverText c file handler r between core tail) := by
  obtain ⟨hTaken, hExtent, hLexed, hBodies⟩ := hRewrites
  let skeleton : Source.File := ⟨file.id, "", keptText c s file⟩
  have hLex : Token.lex skeleton.id skeleton.path skeleton.text = .ok (ofLexemes file.id 0 1 ls) := by
    have hAgain := Token.lex_of_tiled hTiled file.id ""
    rwa [String.ofList_toList] at hAgain
  have hInside : inside.Sublist (ofLexemes file.id 0 1 ls) :=
    (List.sublist_append_left inside [close]).trans ((List.sublist_cons_self _ _).trans hLexed)
  obtain ⟨-, hSpan, -⟩ := Declaration.spans_of_takenFrom hTaken
  have hBegins : w.keyword.span.start = handler.span.start := by rw [hSpan]
  have hKeyword : w.keyword ∈ ofLexemes file.id 0 1 ls := hLexed.subset List.mem_cons_self
  have hSome : between ++ core ≠ [] := by
    intro hNone
    have hStands := Token.stands_of_lex hLex _ hKeyword
    have hLast := hStands.stops.le_byteLength
    have hWidth := hStands.start_lt_stop
    have hFirst := hOpening _ hKeyword
    change w.keyword.span.stop ≤ byteLength (keptText c s file).toList at hLast
    rw [hParts.toList_keptText, hNone, List.append_nil, hParts.lead] at hLast
    omega
  have hFills : ∀ plan ∈ r.plans, Fills Contained (plannedBody c file plan).toList :=
    fun plan hPlan => fills_plannedBody (h.lines plan hPlan)
  have hAdded : ∀ stub ∈ r.stubs.stubs, Fills (AddedBefore (readOptions sources) (AddedFor r))
      (stub.render (.ofEmit c.emit) ++ "\n").toList := by
    intro stub hStub
    refine fills_mono (fills_stub (h.stubs stub hStub)) fun ts hts => ?_
    exact ⟨hts.1, List.ne_nil_of_mem hStub, hts.2⟩
  have hStubs : r.stubs.stubs ≠ [] → InsertsBefore w (r.plans.map (·.body))
      (file.lineStart handler.headLine) core (ofLexemes file.id 0 1 ls) := by
    intro hSomeStub
    obtain ⟨blanks, hBlanks, hAll⟩ := h.head hSomeStub
    obtain ⟨rest, hCore, hLine⟩ := hParts.exists_blanks hBlanks (Nat.le_trans hStart hStop)
    exact insertsBefore hLex hLexed hTaken hBodies hPlans hBraces
      ⟨blanks, rest, hCore, hAll, hBegins.trans hLine⟩
  have hBraced := braced_of_takenFrom hLex (List.Sublist.refl _) hInside hTaken hBodies hPlans hBraces
  rw [hParts.toList_keptText] at hTiled
  rw [← hParts.lead] at hOpening
  exact replaces_server hApart hParts hFile hTiled h.banner hOpening hBraced hFills hStubs hAdded hSome

/-- Where the kept skeleton can be read by itself, with the handler that the skeleton has, and the
edits cut it between its tokens, the source of the server can be read in the place of the skeleton,
and the handler found there has the public methods that it had, up to their places. -/
theorem server_readable [PatternLibrary] (h : Resolved fs c sources g stream s file handler)
    (hPlanned : g.resolution = .ok r)
    (hFound : s.classInFile? file.id handler.qualifiedName = some handler)
    (hLies : handler.LiesIn file.id stream.tokens.toList)
    (hKept : Rereads fs c sources (keptText c s file) kept d handler)
    (hKeptLies : handler.LiesIn file.id kept.tokens.toList)
    (hSeparable : Separable c sources s file handler r kept.tokens.toList) :
    ∃ next server stream' d' handler', writeServer g = ⟨next, none⟩ ∧ next.output? = some server ∧
      Rereads fs c sources server.content stream' d' handler' ∧
      handler'.publicMethods.map Method.signature = handler.publicMethods.map Method.signature := by
  obtain ⟨i, r', hPrepared⟩ := h.prepared
  cases hPlanned.symm.trans hPrepared.planned
  have hPlans : ∀ plan ∈ r.plans, ∃ m ∈ handler.methods, m.body? = some plan.body := by
    intro plan hPlan
    obtain ⟨m, hm, -, -, hBody⟩ := h.mem_plans hPlanned hPlan
    exact ⟨m, (List.mem_filter.mp hm).1, hBody⟩
  obtain ⟨old, hOld⟩ := Batch.exists_text_of_root hPrepared.reads
  obtain ⟨hFirst, hDeclares, hClass⟩ := (rereads_iff hOld).mp hKept
  -- the skeleton is the first file, also where it is read as a whole
  have hOwn : handler.span.file = file.id := by
    have hMatch := List.find?_some (handlerClass_eq_ok_iff.mp hPrepared.finds)
    simp only [Bool.and_eq_true, beq_iff_eq] at hMatch
    exact hMatch.1
  have hFile : file.id = 0 := by
    have hMatch := List.find?_some hClass
    simp only [Bool.and_eq_true, beq_iff_eq] at hMatch
    exact hOwn.symm.trans hMatch.1
  have hMem : file ∈ stream.files :=
    hPrepared.files ▸ mem_files_of_skeletonFile hPrepared.parsed hPrepared.skeleton
  have hLocated : Located s file handler handler :=
    located_self (Batch.drawn_of_roots hPrepared.reads)
      (Declaration.found_of_read hPrepared.declares) hMem
      (List.mem_of_find?_eq_some hFound) hFound hLies
  obtain ⟨ls, hTiled, hCuts, hLex⟩ := hSeparable.cuts.exists_lexemes hFile
  let skeleton : Source.File := ⟨file.id, canonicalPath fs sources.skeleton, keptText c s file⟩
  have hSkeleton : skeleton ∈ kept.files := by
    obtain ⟨_, more, -, hFiles⟩ := Batch.exists_first hFirst
    rw [hFiles, ← hFile]
    exact List.mem_cons_self
  have hDrawn := Batch.drawn_of_roots hKept.reads
  have hSound := Batch.runSteps_sound (.initial _) hKept.reads
  have hHandler : handler ∈ d.classes := List.mem_of_find?_eq_some hClass
  obtain ⟨w, inside, close, hRewrites⟩ := exists_rewrites hDrawn hDeclares hSkeleton (hLex _) hHandler
    (fun t ht => (hSound.drawn t ht).1) hKeptLies r
  have hStop : handler.span.stop ≤ commentStart c s file := by
    have hRange := hDrawn.range_of_takenFrom hSkeleton hRewrites.stands.sublist
      (hKeptLies _ hRewrites.stands hRewrites.taken) hRewrites.taken
    rw [← byteLength_keptText]
    exact hRange.2.le_byteLength
  have hApart := hLocated.apart hPrepared.bodies hStop
  obtain ⟨opening, between, core, tail, hParts, hWritten, -⟩ := hPrepared.writeServer_eq hLocated hStop
  obtain ⟨us, hTiled', hRewritten⟩ := hSeparable.replaces hApart hParts hFile hStop hLocated.start_le
    hTiled (fun t ht => (hCuts t ht).1) hRewrites hPlans hPrepared.bodies
  have hAdmits : w.Admits (AddedFor r) kept.tokens.toList :=
    ⟨fun _ hAdded => hAdded.2, hSound.distinct, fun t hText hPair added hAdded =>
      hSeparable.typedefs hAdded.1 t w.keyword hPair hRewrites.startsAt hText⟩
  have hBodies : ∀ b ∈ w.bodies, ∃ m ∈ handler.methods, m.body? = some b := by
    rw [hRewrites.bodies]
    exact List.forall_mem_map.mpr hPlans
  have hPlain : Preprocess.BodiesPlain w (ofLexemes file.id 0 1 ls) :=
    bodiesPlain_of_cuts (hLex "") hRewrites.bodies fun t ht => (hCuts t ht).2
  have hKeyword := hSound.keeps _ (hRewrites.stands.subset List.mem_cons_self)
  have hOpenings := hRewrites.file_of_opening hPrepared.bodies
    (hKeptLies _ hRewrites.stands hRewrites.taken)
  rw [hFile] at hLex hPlain hOpenings hRewritten
  obtain ⟨stream', hReads, -, hStream⟩ := Batch.withFirst_rewritten hKeyword hOpenings (hLex _)
    (Token.lex_of_tiled hTiled' 0 _) (hRewritten 0 1) hPlain hFirst
  obtain ⟨d', hDeclares', hMatches⟩ := Declaration.read_rewritten hDeclares
    hHandler hRewrites.startsAt hBodies hAdmits hStream
  obtain ⟨handler', hClass', hSame⟩ :=
    SymbolTable.classInFile?_matches ⟨stream'.files, d'⟩ hMatches hClass
  refine ⟨_, _, stream', d', handler', hWritten, rfl,
    (rereads_iff hOld).mpr ⟨hReads, hDeclares', hClass'⟩, ?_⟩
  rw [Class.publicMethods_signature, Class.publicMethods_signature, hSame.methods hRewrites.startsAt]

instance (ts : List Token) : Decidable (Contained ts) :=
  inferInstanceAs (Decidable (_ ∧ _))

instance (options : ReadOptions) (Added : List Token → Prop) [DecidablePred Added] (ts : List Token) :
    Decidable (AddedBefore options Added ts) :=
  inferInstanceAs (Decidable (_ ∧ _))

instance (Content : List Token → Prop) [DecidablePred Content] (text : String) :
    Decidable (ReadsAs Content text) :=
  match h : Token.lex 0 "" text with
  | .ok ts => decidable_of_iff (Content ts)
      ⟨fun hContent => ⟨ts, h, hContent⟩, fun ⟨_, hLex, hContent⟩ => by
        cases h.symm.trans hLex
        exact hContent⟩
  | .error e => isFalse fun ⟨_, hLex, _⟩ => by cases h.symm.trans hLex

def isSeparable (c : Configuration) (s : SymbolTable) (file : Source.File) (handler : Class)
    (r : Resolution) (kept : List Token) : Bool :=
  decide (∀ line ∈ c.emit.banner, "//".toList <+: line.toList ∧ '\n' ∉ line.toList) &&
  decide (ReadsAs (fun ts => ∀ t ∈ ts, bannerLength c file.text.toList ≤ t.span.start ∧
    (t.kind = .directive → ∀ plan ∈ r.plans,
      ¬(plan.body.opening.stop ≤ t.span.start ∧ t.span.stop ≤ plan.body.closing.start)))
    (keptText c s file)) &&
  decide (∀ plan ∈ r.plans, ∀ line ∈ plan.call.bodyLines c, ReadsAs Contained (line ++ "\n")) &&
  decide (∀ stub ∈ r.stubs.stubs,
    ReadsAs (AddedBefore (readOptions twoSources) IsStub) (stub.render (.ofEmit c.emit))) &&
  (slice? file.text.toList (file.lineStart handler.headLine) handler.span.start).any
    (·.all Lexeme.isBlankInLine) &&
  kept.all fun t => t.text != "typedef"

def isReadable (fs : FileSystem) (c : Configuration) (s : SymbolTable) (file : Source.File)
    (handler : Class) (r : Resolution) : Bool :=
  match Batch.withFirst fs (readOptions twoSources) twoSources.skeleton (keptText c s file)
      [twoSources.managerHeader] with
  | .ok kept =>
    match Declaration.read kept.files kept.tokens.toList with
    | .ok d =>
      decide (SymbolTable.classInFile? ⟨kept.files, d⟩ 0 c.handler.className = some handler) &&
      decide (s.classInFile? file.id handler.qualifiedName = some handler) &&
      kept.tokens.toList.all (·.span.file == file.id) &&
      isSeparable c s file handler r kept.tokens.toList
    | .error _ => false
  | .error _ => false

theorem of_isReadable {old : String} (hOld : fs.readText? twoSources.skeleton = some old)
    (h : isReadable fs c s file handler r = true) :
    ∃ kept d, Rereads fs c twoSources (keptText c s file) kept d handler ∧
      s.classInFile? file.id handler.qualifiedName = some handler ∧
      handler.LiesIn file.id kept.tokens.toList ∧
      Separable c twoSources s file handler r kept.tokens.toList := by
  unfold isReadable at h
  split at h
  · next kept hReads =>
    split at h
    · next d hDeclares =>
      simp only [isSeparable, Bool.and_eq_true, decide_eq_true_eq, List.all_eq_true, beq_iff_eq,
        bne_iff_ne, Option.any_eq_true] at h
      obtain ⟨⟨⟨hClass, hFound⟩, hOwn⟩, ⟨⟨⟨⟨hBanner, hCuts⟩, hLines⟩, hStubs⟩, hHead⟩, hTypedefs⟩ := h
      refine ⟨kept, d, (rereads_iff hOld).mpr ⟨hReads, hDeclares, hClass⟩, hFound, ?_, hBanner, hCuts,
        hLines, hStubs, fun _ => hHead, ?_⟩
      · exact fun extent hExtent _ t ht => hOwn t (hExtent.subset ht)
      · exact fun _ t _ hPair _ => hTypedefs t (hPair.subset List.mem_cons_self)
    · cases h
  · cases h

theorem server_readable_of_wholeSkeleton :
    ∃ g stream s file handler r kept d,
      Resolved (twoFiles wholeSkeleton "") smallConfiguration twoSources g stream s file handler ∧
      g.resolution = .ok r ∧ s.classInFile? file.id handler.qualifiedName = some handler ∧
      handler.LiesIn file.id stream.tokens.toList ∧
      Rereads (twoFiles wholeSkeleton "") smallConfiguration twoSources
        (keptText smallConfiguration s file) kept d handler ∧
      handler.LiesIn file.id kept.tokens.toList ∧
      Separable smallConfiguration twoSources s file handler r kept.tokens.toList ∧
      ∃ next server stream' d' handler', writeServer g = ⟨next, none⟩ ∧
        next.output? = some server ∧
        Rereads (twoFiles wholeSkeleton "") smallConfiguration twoSources server.content stream' d'
          handler' ∧
        handler'.publicMethods.map Method.signature = handler.publicMethods.map Method.signature := by
  have hPasses : passes (twoFiles wholeSkeleton "") smallConfiguration
      (fun stream s file handler r => isWellPlaced stream s file handler &&
        isReadable (twoFiles wholeSkeleton "") smallConfiguration s file handler r) = true := by
    simp only [passes, runAll, runStages, Stage.checking, Stage.run, readSymbols, withSymbols,
      Batch.ofRoots, readOptions, roots, Batch.runSteps, Preprocess.addRoot, Preprocess.depthLimit,
      Preprocess.readFile, Preprocess.runText, Token.lex, findFile?, start, twoSources, isReadable,
      Batch.withFirst, keptText, String.toList_ofList, Preprocess.canonicalPath, canonical?_twoFiles,
      readText?_twoFiles]
    decide +kernel
  obtain ⟨g, stream, s, file, handler, i, r, hRun, hPrepared, hTest⟩ := exists_of_passes hPasses
  obtain ⟨hPlaced, hReadable⟩ := Bool.and_eq_true_iff.mp hTest
  obtain ⟨hLies, -, -⟩ := of_isWellPlaced hPlaced
  obtain ⟨kept, d, hKept, hFound, hKeptLies, hSeparable⟩ :=
    of_isReadable (readText?_twoFiles wholeSkeleton "").1 hReadable
  have hResolved := hPrepared.resolved hRun
  exact ⟨g, stream, s, file, handler, r, kept, d, hResolved, hPrepared.planned, hFound, hLies, hKept,
    hKeptLies, hSeparable,
    server_readable hResolved hPrepared.planned hFound hLies hKept hKeptLies hSeparable⟩

def Balanced (text : String) : Prop :=
  ∀ marks ∈ [('(', ')'), ('[', ']'), ('\x7b', '\x7d')],
    text.toList.count marks.1 = text.toList.count marks.2

instance (text : String) : Decidable (Balanced text) :=
  inferInstanceAs (Decidable (∀ marks ∈ _, _))

/-- A skeleton, the header of the manager, the name of the handler and the context expression. -/
structure ServerCase where
  skeleton : String
  header : String
  handler : String
  context : String

namespace ServerCase

def files (x : ServerCase) : FileSystem := twoFiles x.skeleton x.header

def configuration (x : ServerCase) : Configuration where
  sources := twoSources
  handler := ⟨x.handler, "_return", "retval"⟩
  manager := ⟨"M", "G", "m", []⟩
  matching := { MatchingSection.default with pattern := "(.*)_(.*)", contextExpression := x.context }
  emit := { EmitSection.default with lock := "l", banner := ["//"] }

def unreadable : List ServerCase :=
  -- the last brace of the handler stands on the line before that of the main function
  [⟨"struct H\x7b\nvoid F()\x7b\n\x7d\n\x7d;\nint main()\x7b\x7d\n", "struct M\x7bvoid F();\x7d;", "H",
    "this"⟩,
  -- a conditional starts in a body
  ⟨"struct H\x7b\nvoid F()\x7b\n#ifndef A\n\x7d\n#endif\n\x7d;\n", "struct M\x7bvoid F();\x7d;", "H",
    "this"⟩,
  -- the context expression makes its own brace a comment
  ⟨"struct H\x7b\nvoid F()\x7b\n\x7d\n\x7d;\n", "struct M\x7bvoid F(int context);\x7d;", "H",
    "\x7b //\x7d"⟩,
  -- a stub parts the class from its `typedef`
  ⟨"typedef\nstruct\x7b\nvoid F()\x7b\n\x7d\n\x7dH;\n", "struct M\x7bvoid F(int(*callback)());\x7d;",
    "H", "this"⟩,
  -- a stub parts the namespace around the class from its name
  ⟨"namespace\nA\x7bstruct H\x7b\nvoid F()\x7b\n\x7d\n\x7d;\x7d\n",
    "struct M\x7bvoid F(int(*callback)());\x7d;", "A::H", "this"⟩]

def readsHandler (x : ServerCase) (text : String) : Bool :=
  match Batch.withFirst x.files (readOptions twoSources) twoSources.skeleton text
      [twoSources.managerHeader] with
  | .ok stream =>
    match Declaration.read stream.files stream.tokens.toList with
    | .ok d => (SymbolTable.classInFile? ⟨stream.files, d⟩ 0 x.handler).isSome
    | .error _ => false
  | .error _ => false

def isUnreadable (x : ServerCase) : Bool :=
  passes x.files x.configuration fun _ s file handler r =>
    (s.classInFile? file.id handler.qualifiedName).any fun placed =>
      let edits := serverEdits x.configuration s file placed r
      decide (∀ e ∈ edits, e.Fits file.text.toList) &&
        decide (edits.Pairwise fun a b => ¬a.Overlap b) &&
        !x.readsHandler (String.ofList (Edit.splice edits 0 file.text.toList))

theorem unreadable_of_isUnreadable {x : ServerCase} (h : x.isUnreadable = true) :
    ∃ next server, runAll x.files Stage.all (start x.configuration twoSources) = ⟨next, none⟩ ∧
      next.output? = some server ∧ ∀ stream d handler,
        ¬Rereads x.files x.configuration twoSources server.content stream d handler := by
  obtain ⟨g, stream, s, file, handler, i, r, hRun, hPrepared, hTest⟩ := exists_of_passes h
  obtain ⟨placed, hPlaced, hTest⟩ := Option.any_eq_true _ _ |>.mp hTest
  simp only [Bool.and_eq_true, decide_eq_true_eq, Bool.not_eq_true'] at hTest
  obtain ⟨⟨hFits, hCompatible⟩, hNone⟩ := hTest
  have hMade := Edit.applyAll_of_compatible hFits hCompatible
  have hAll := runAll_all x.files (start x.configuration twoSources)
  rw [hRun] at hAll
  simp only [writeServer, hPrepared.withServer_eq hPlaced (hasLines_of_fits hFits), hMade] at hAll
  refine ⟨_, _, hAll, rfl, fun stream d handler hRereads => ?_⟩
  obtain ⟨hReads, hDeclares, hClass⟩ :=
    (rereads_iff (readText?_twoFiles x.skeleton x.header).1).mp hRereads
  rw [readsHandler, hReads] at hNone
  simp only [hDeclares] at hNone
  change SymbolTable.classInFile? _ 0 x.handler = some handler at hClass
  rw [hClass] at hNone
  cases hNone

end ServerCase

/-- The settings are well-formed and the servers are generated, but they cannot be read in the place of
the skeleton with the handler. -/
theorem servers_unreadable :
    ∀ x ∈ ServerCase.unreadable,
      (∀ line ∈ x.configuration.emit.banner, "//".toList <+: line.toList ∧ '\n' ∉ line.toList) ∧
      Balanced x.configuration.matching.contextExpression ∧
      (∀ conversion ∈ x.configuration.matching.conversions, Balanced conversion.2) ∧
      ∃ next server, runAll x.files Stage.all (start x.configuration twoSources) = ⟨next, none⟩ ∧
        next.output? = some server ∧ ∀ stream d handler,
          ¬Rereads x.files x.configuration twoSources server.content stream d handler := by
  have hAll : ServerCase.unreadable.all (·.isUnreadable) = true := by
    simp only [ServerCase.unreadable, List.all_cons, List.all_nil, ServerCase.isUnreadable,
      ServerCase.readsHandler, ServerCase.files, passes, runAll, runStages, Stage.checking, Stage.run,
      readSymbols, withSymbols, Batch.ofRoots, readOptions, roots, Batch.runSteps, Preprocess.addRoot,
      Preprocess.depthLimit, Preprocess.readFile, Preprocess.runText, Token.lex, findFile?, start,
      twoSources, Batch.withFirst, String.toList_ofList, Preprocess.canonicalPath,
      canonical?_twoFiles, readText?_twoFiles]
    decide +kernel
  have hSettings : ∀ x ∈ ServerCase.unreadable,
      (∀ line ∈ x.configuration.emit.banner, "//".toList <+: line.toList ∧ '\n' ∉ line.toList) ∧
      Balanced x.configuration.matching.contextExpression ∧
      ∀ conversion ∈ x.configuration.matching.conversions, Balanced conversion.2 := by
    decide +kernel
  intro x hx
  obtain ⟨hBanner, hContext, hConversions⟩ := hSettings x hx
  exact ⟨hBanner, hContext, hConversions,
    ServerCase.unreadable_of_isUnreadable (List.all_eq_true.mp hAll x hx)⟩

theorem server_not_always_readable :
    ¬∀ (fs : FileSystem) (c : Configuration) (sources : SourcesSection) (next : Generation)
        (server : ServerSource),
      (∀ line ∈ c.emit.banner, "//".toList <+: line.toList ∧ '\n' ∉ line.toList) →
      Balanced c.matching.contextExpression →
      (∀ conversion ∈ c.matching.conversions, Balanced conversion.2) →
      runAll fs Stage.all (start c sources) = ⟨next, none⟩ → next.output? = some server →
      ∃ stream d handler, Rereads fs c sources server.content stream d handler := by
  intro h
  obtain ⟨hBanner, hContext, hConversions, next, server, hRun, hOutput, hNone⟩ :=
    servers_unreadable _ List.mem_cons_self
  obtain ⟨stream, d, handler, hRereads⟩ := h _ _ _ next server hBanner hContext hConversions hRun hOutput
  exact hNone stream d handler hRereads

end Generation

end SkeletonWeave
