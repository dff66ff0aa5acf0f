import SkeletonWeave.Proofs.Generation.Rewriting
import SkeletonWeave.Proofs.Generation.Server
import SkeletonWeave.Proofs.Preprocess.Calls

/-!
# The source of the server in the place of the skeleton

The lexemes of the kept skeleton are cut where the edits cut its text: after the
first comment, before the line of the handler, and at the braces of the bodies.
So the source of the server is read in their place.
-/

set_option autoImplicit false

namespace SkeletonWeave

open Text

namespace Token

variable {w : Rewrite} {Content Added : List Token → Prop} {file offset line : Nat}

theorem ReplacesAnywhere.insertAll {texts : List (List Char)} {cs : List Char} {ls : List Lexeme}
    {ts : List Token} (hTokens : ofLexemes 0 offset line ls = w.keyword :: ts)
    (hTexts : ∀ text ∈ texts, Fills Added text)
    (h : ReplacesAnywhere w Content Added 0 offset line ls cs) :
    ReplacesAnywhere w Content Added 0 offset line ls (texts.flatten ++ cs) := by
  induction texts with
  | nil => exact h
  | cons text texts ih =>
    obtain ⟨new, hLeads, hAdded⟩ := hTexts text List.mem_cons_self
    rw [List.flatten_cons, List.append_assoc]
    exact .insert hTokens hLeads hAdded (ih fun other hOther => hTexts other (List.mem_cons_of_mem _ hOther))

end Token

namespace Generation

open Bridge
open Edit (splice splice_append_of_le)
open Token (Braced Fills Replaces ReplacesAnywhere Tiled charsOf lineStartAfter linesOf ofLexemes)

variable {c : Configuration} {s : SymbolTable} {file : Source.File} {placed : Class} {r : Resolution}
  {opening between core tail : List Char} {w : Rewrite} {Content Added : List Token → Prop}
  {ls : List Lexeme}

theorem exists_banner {banner : List String}
    (hBanner : ∀ line ∈ banner, "//".toList <+: line.toList ∧ '\n' ∉ line.toList) :
    ∃ new, Token.Silent new ∧ ∀ rest more, Tiled true rest more →
      Tiled true ((String.join (banner.map (· ++ "\n"))).toList ++ rest) (new ++ more) := by
  induction banner with
  | nil => exact ⟨[], by simp [Token.Silent], fun _ _ h => h⟩
  | cons line banner ih =>
    obtain ⟨new, hSilent, hTiled⟩ := ih fun other hOther => hBanner other (List.mem_cons_of_mem _ hOther)
    obtain ⟨⟨more, hLine⟩, hBreak⟩ := hBanner line List.mem_cons_self
    refine ⟨⟨.comment, '/' :: '/' :: more⟩ :: ⟨.newline, ['\n']⟩ :: new,
      (hSilent.cons fun _ _ _ => rfl).cons fun _ _ _ => rfl, fun rest later h => ?_⟩
    have hMore : '\n' ∉ more := by
      rw [← hLine] at hBreak
      exact fun hMem => hBreak (List.mem_append_right _ hMem)
    have hText : (String.join ((line :: banner).map (· ++ "\n"))).toList ++ rest =
        '/' :: '/' :: (more ++ '\n' :: ((String.join (banner.map (· ++ "\n"))).toList ++ rest)) := by
      simp [← hLine]
    rw [hText]
    exact .comment hMore (by simp) (.newline (hTiled rest later h))

theorem exists_opening {kept : List Char} (hText : file.text.toList = opening ++ (kept ++ tail))
    (hLead : byteLength opening = bannerLength c file.text.toList)
    (hTiled : Tiled true (opening ++ kept) ls) :
    ∃ passed later, ls = passed ++ later ∧ charsOf passed = opening := by
  unfold bannerLength at hLead
  split at hLead
  · have hNone : [] ++ (opening ++ kept) = opening ++ kept := List.nil_append _
    obtain ⟨rfl, -⟩ := cut_unique hNone hLead.symm
    exact ⟨[], ls, rfl, rfl⟩
  · let lines := linesWithBreaks file.text.toList
    let lead := lines.takeWhile isCommentLine
    let others := lines.dropWhile isCommentLine
    have hLines : lead ++ others = lines := List.takeWhile_append_dropWhile
    have hWhole : file.text.toList = lead.flatten ++ others.flatten := by
      rw [← List.flatten_append, hLines]
      exact (flatten_linesWithBreaks _).symm
    obtain ⟨rfl, hRest⟩ := cut_unique (hText.symm.trans hWhole) hLead
    have hLined : Lined (lead ++ linesWithBreaks kept) := by
      have hAll : Lined (lead ++ others) := hLines ▸ lined_linesWithBreaks _
      refine hAll.exchange (lined_linesWithBreaks kept) fun hNone => ?_
      rw [hNone, List.flatten_nil] at hRest
      rw [(List.append_eq_nil_iff.mp hRest).1]
      rfl
    have hComment : ∀ line ∈ lead, isCommentLine line = true := fun line hLine =>
      List.all_eq_true.mp List.all_takeWhile line hLine
    rw [← flatten_linesWithBreaks kept, ← List.flatten_append] at hTiled
    obtain ⟨passed, later, _, rfl, hChars, -, -⟩ := Token.passes_lead hLined hComment hTiled
    exact ⟨passed, later, rfl, hChars⟩

theorem silent_opening {passed later : List Lexeme} (hTiled : Tiled true (opening ++ core) (passed ++ later))
    (hChars : charsOf passed = opening)
    (hOpening : ∀ t ∈ ofLexemes file.id 0 1 (passed ++ later), byteLength opening ≤ t.span.start) :
    Token.Silent passed := by
  suffices hNone : ofLexemes file.id 0 1 passed = [] from Token.silent_of_ofLexemes hNone
  refine List.eq_nil_iff_forall_not_mem.mpr fun t ht => ?_
  have hStart := hOpening t (by rw [Token.ofLexemes_cut]; exact List.mem_append_left _ ht)
  obtain ⟨before, after, hTokens⟩ := List.append_of_mem ht
  obtain ⟨first, l, rest, rfl, -, hToken⟩ := Token.exists_of_ofLexemes hTokens
  obtain ⟨d, ds, hLexeme⟩ := List.exists_cons_of_ne_nil (hTiled.sound l (by simp)).2
  have hSize := d.utf8Size_pos
  rw [(Token.span_of_toToken? hToken).1, ← hChars] at hStart
  change byteLength _ ≤ 0 + byteLength (charsOf first) at hStart
  rw [Token.charsOf_append, Token.charsOf_cons, hLexeme, byteLength_append, byteLength_append,
    byteLength_cons] at hStart
  omega

/-- Where stubs are inserted: the keyword of the class is the first token of its line, and the bodies
stand after it. -/
structure InsertsBefore (w : Rewrite) (bs : List Source.Body) (head : Nat) (core : List Char)
    (ts : List Token) : Prop where
  tokens : ∃ before after, ts = before ++ w.keyword :: after ∧ Token.SparesBodies w before ∧
    Braced w bs (w.keyword :: after)
  line : ∃ blanks rest, core = blanks ++ rest ∧ (∀ b ∈ blanks, Lexeme.isBlankInLine b = true) ∧
    w.keyword.span.start = head + byteLength blanks

theorem exists_nameStart {l : Lexeme} {offset line : Nat}
    (h : l.toToken? file.id offset line = some w.keyword) :
    ∃ d ds, l.chars = d :: ds ∧ Lexeme.isNameStart d = true := by
  have hText := Lexeme.text_of_toToken? h (by rw [w.kind_keyword]; decide)
  have hWords : ∀ word ∈ ["class", "struct", "union"],
      (word.toList.head?.any Lexeme.isNameStart) = true := by decide +kernel
  have hHead := hWords _ w.text_keyword
  rw [hText] at hHead
  cases hLexeme : l.chars with
  | nil => simp [hLexeme] at hHead
  | cons d ds => exact ⟨d, ds, rfl, by simpa [hLexeme] using hHead⟩

theorem InsertsBefore.exists_cut {bs : List Source.Body} {offset line : Nat}
    (h : InsertsBefore w bs (offset + byteLength between) core (ofLexemes file.id offset line ls))
    (hTiled : Tiled true (between ++ core) ls) :
    ∃ first later blanks d rest after, ls = first ++ later ∧ charsOf first = between ∧
      core = blanks ++ d :: rest ∧ (∀ b ∈ blanks, Lexeme.isBlankInLine b = true) ∧
      Lexeme.isNameStart d = true ∧ Token.SparesBodies w (ofLexemes file.id offset line first) ∧
      ofLexemes file.id (offset + byteLength between) (line + linesOf first) later =
        w.keyword :: after ∧ Braced w bs (w.keyword :: after) ∧
      ∀ t ∈ after, offset + byteLength between + byteLength (blanks ++ [d]) ≤ t.span.start := by
  obtain ⟨⟨before, after, hTokens, hSpares, hBraced⟩, blanks, rest, rfl, hBlanks, hStart⟩ := h
  obtain ⟨passed, l, more, rfl, rfl, hKeyword, hAfter⟩ := Token.exists_lexeme hTokens
  have hChars : charsOf passed = between ++ blanks ∧ l.chars ++ charsOf more = rest := by
    have hText : charsOf passed ++ (l.chars ++ charsOf more) = between ++ blanks ++ rest := by
      rw [List.append_assoc, hTiled.flatMap_chars]
      simp [charsOf]
    refine cut_unique hText ?_
    rw [(Token.span_of_toToken? hKeyword).1] at hStart
    rw [byteLength_append]
    simp only at hStart
    omega
  obtain ⟨hPassed, rfl⟩ := hChars
  obtain ⟨d, ds, hLexeme, hName⟩ := exists_nameStart hKeyword
  have hOther : d ≠ '\n' := by
    rintro rfl
    exact absurd hName (by decide)
  have hCut : Tiled true (charsOf passed ++ d :: (ds ++ charsOf more)) (passed ++ l :: more) := by
    rw [hPassed, List.append_assoc, ← List.cons_append, ← hLexeme]
    exact hTiled
  obtain ⟨first, hFirst, hChars⟩ := hCut.exists_blanks hPassed hBlanks hOther
  have hSilent : Token.Silent (blanks.map fun b => (⟨.blank, [b]⟩ : Lexeme)) := by
    intro m hm
    obtain ⟨b, -, rfl⟩ := List.mem_map.mp hm
    exact fun _ _ _ => rfl
  generalize blanks.map (fun b => (⟨.blank, [b]⟩ : Lexeme)) = led at hFirst hSilent
  subst hFirst
  have hOwn : ofLexemes file.id offset line (first ++ led) = ofLexemes file.id offset line first := by
    rw [Token.ofLexemes_cut, hSilent.ofLexemes_eq, List.append_nil]
  rw [hOwn] at hTokens hSpares
  rw [List.append_assoc, Token.ofLexemes_cut, hChars] at hTokens
  refine ⟨first, led ++ l :: more, blanks, d, ds ++ charsOf more, after, List.append_assoc _ _ _,
    hChars, by rw [hLexeme, List.cons_append], hBlanks, hName, hSpares, List.append_cancel_left hTokens,
    hBraced, fun t ht => ?_⟩
  rw [hAfter] at ht
  have hLater := Token.le_start_of_mem_ofLexemes ht
  rw [hPassed, hLexeme] at hLater
  simp only [byteLength_append, byteLength_cons, byteLength_nil] at hLater ⊢
  omega

theorem replaces_handler {stubs : List (List Char)} {lines : List (List Char)} (hLined : Lined lines)
    (hFile : file.id = 0) {offset line : Nat} (hTiled : Tiled true (between ++ core) ls)
    (hInserts : InsertsBefore w (r.plans.map (·.body)) (offset + byteLength between) core
      (ofLexemes file.id offset line ls))
    (hBetween : between = [] ∨ between.getLast? = some '\n')
    (hStubs : ∀ stub ∈ stubs, Fills Added stub)
    (hFills : ∀ plan ∈ r.plans, Fills Content (plannedBody c file plan).toList)
    (hBreak : lines ≠ [] → core.getLast? = some '\n') :
    Replaces w Content Added true file.id offset line ls (between ++ (stubs.flatten ++
      (splice (r.plans.map (plannedEdit c file)) (offset + byteLength between) core ++
        commentedLines lines))) := by
  obtain ⟨first, later, blanks, d, rest, after, rfl, hFirst, rfl, hBlanks, hName, hSpares, hTokens,
    hBraced, hAfter⟩ := hInserts.exists_cut hTiled
  have hCore : Tiled (lineStartAfter true first) (blanks ++ d :: rest) later := by
    rw [← hFirst] at hTiled
    exact hTiled.cut_eq
  have hBodies := replaces_bodies Added hLined hFile hCore (hTokens ▸ hBraced) hFills hBreak
  have hKept : splice (r.plans.map (plannedEdit c file)) (offset + byteLength between)
      (blanks ++ d :: rest) = blanks ++ d :: splice (r.plans.map (plannedEdit c file))
        (offset + byteLength between + byteLength (blanks ++ [d])) rest := by
    rw [← List.singleton_append, ← List.append_assoc, splice_append_of_le]
    · simp
    · intro e he
      obtain ⟨plan, hPlan, rfl⟩ := List.mem_map.mp he
      obtain ⟨t, ht, hSpan, hOpen⟩ := hBraced.exists_opening plan.body (List.mem_map_of_mem hPlan)
      have hLater : t ∈ after := by
        refine (List.mem_cons.mp ht).resolve_left ?_
        rintro rfl
        rw [w.isPunctuation_keyword] at hOpen
        cases hOpen
      have hStart := hAfter t hLater
      have hWidth := Token.start_le_stop_of_mem_ofLexemes (hTokens ▸ ht)
      show _ ≤ plan.body.opening.stop
      rw [← hSpan]
      omega
  rw [hKept, List.append_assoc, List.cons_append] at hBodies ⊢
  obtain ⟨new, hNew, hRewritten⟩ := hBodies
  have hAnywhere : ReplacesAnywhere w Content Added 0 (offset + byteLength between) (line + linesOf first)
      later _ := ⟨new, fun st => hNew.anywhere hBlanks hName st, hFile ▸ hRewritten⟩
  have hStubbed := (hAnywhere.insertAll (hFile ▸ hTokens) hStubs).replaces (lineStartAfter true first)
  rw [← hFile, ← hFirst] at hStubbed
  rcases hBetween with hNone | hLast
  · obtain rfl : first = [] := by
      rw [hNone] at hFirst
      cases first with
      | nil => rfl
      | cons l first =>
        rw [Token.charsOf_cons, List.append_eq_nil_iff] at hFirst
        exact absurd hFirst.1 (hTiled.sound l (by simp)).2
    rw [hNone]
    exact hStubbed
  · rw [← hFirst] at hTiled hLast ⊢
    refine .keepLine hTiled hLast ?_ hSpares hStubbed
    cases blanks with
    | nil =>
      refine ⟨d, rfl, ?_⟩
      rintro rfl
      exact absurd hName (by decide)
    | cons b blanks =>
      refine ⟨b, rfl, ?_⟩
      rintro rfl
      exact absurd (hBlanks _ List.mem_cons_self) (by decide)

theorem eq_nil_or_getLast?_of_lineStart {before rest : List Char} {line : Nat}
    (h : byteLength before = lineStart (before ++ rest) line) (hSome : rest ≠ []) :
    before = [] ∨ before.getLast? = some '\n' := by
  let lines := linesWithBreaks (before ++ rest)
  have hLines : lines.take (line - 1) ++ lines.drop (line - 1) = lines := List.take_append_drop _ _
  have hText : before ++ rest = (lines.take (line - 1)).flatten ++ (lines.drop (line - 1)).flatten := by
    rw [← List.flatten_append, hLines]
    exact (flatten_linesWithBreaks _).symm
  rw [lineStart_eq_byteLength_take] at h
  obtain ⟨hBefore, hRest⟩ := cut_unique hText h
  rw [hBefore]
  refine Lined.flatten_eq_nil_or_getLast?
    (by rw [hLines]; exact lined_linesWithBreaks _) ?_
  intro hNone
  rw [hRest, hNone] at hSome
  exact hSome rfl

theorem getLast?_of_append {xs ys : List Char}
    (h : xs ++ ys = [] ∨ (xs ++ ys).getLast? = some '\n') (hSome : ys ≠ []) :
    ys.getLast? = some '\n' := by
  rcases h with hNone | hLast
  · exact absurd (List.append_eq_nil_iff.mp hNone).2 hSome
  · rw [List.getLast?_append, List.getLast?_eq_some_getLast hSome, Option.some_or] at hLast
    rw [List.getLast?_eq_some_getLast hSome, hLast]

theorem Parts.ends (h : Parts c s file placed opening between core tail) (hSome : tail ≠ []) :
    opening ++ (between ++ core) = [] ∨ (opening ++ (between ++ core)).getLast? = some '\n' := by
  have hText : file.text.toList = opening ++ (between ++ core) ++ tail := by
    rw [h.text]
    simp
  have hComments := h.comments
  unfold commentStart at hComments
  split at hComments
  · rw [Source.File.lineStart, hText] at hComments
    exact eq_nil_or_getLast?_of_lineStart hComments hSome
  · rw [hText, byteLength_append _ tail] at hComments
    have := byteLength_pos hSome
    omega

theorem toList_render (stubs : StubTable) (indent : Code.Indent) :
    (stubs.render indent).toList =
      (stubs.stubs.map fun stub => (stub.render indent ++ "\n").toList).flatten := by
  rw [StubTable.render, String.toList_join, List.flatMap_map, List.flatMap_def]

/-- The source of the server is read in the place of the kept skeleton. -/
theorem replaces_server (hApart : Apart c s file placed r)
    (hParts : Parts c s file placed opening between core tail) (hFile : file.id = 0)
    (hTiled : Tiled true (opening ++ (between ++ core)) ls)
    (hBanner : ∀ line ∈ c.emit.banner, "//".toList <+: line.toList ∧ '\n' ∉ line.toList)
    (hOpening : ∀ t ∈ ofLexemes file.id 0 1 ls, byteLength opening ≤ t.span.start)
    (hBraced : Braced w (r.plans.map (·.body)) (ofLexemes file.id 0 1 ls))
    (hFills : ∀ plan ∈ r.plans, Fills Content (plannedBody c file plan).toList)
    (hStubs : r.stubs.stubs ≠ [] →
      InsertsBefore w (r.plans.map (·.body)) (file.lineStart placed.headLine) core
        (ofLexemes file.id 0 1 ls))
    (hAdded : ∀ stub ∈ r.stubs.stubs, Fills Added (stub.render (.ofEmit c.emit) ++ "\n").toList)
    (hSome : between ++ core ≠ []) :
    Replaces w Content Added true file.id 0 1 ls (serverText c file placed r between core tail) := by
  obtain ⟨passed, later, rfl, hPassed⟩ := exists_opening (c := c)
    (by rw [hParts.text, List.append_assoc]) hParts.lead hTiled
  have hSilent := silent_opening hTiled hPassed hOpening
  obtain ⟨banner, hBannerSilent, hBannerTiled⟩ := exists_banner hBanner
  have hTokens : ofLexemes file.id 0 1 (passed ++ later) =
      ofLexemes file.id (0 + byteLength opening) (1 + linesOf passed) later := by
    rw [Token.ofLexemes_cut, hSilent.ofLexemes_eq, List.nil_append, hPassed]
  have hLater : Tiled true (between ++ core) later := by
    rw [← hPassed] at hTiled
    rw [← hSilent.lineStartAfter_eq]
    exact hTiled.cut_eq
  have hHead : file.lineStart placed.headLine = 0 + byteLength opening + byteLength between := by
    rw [← hParts.head, byteLength_append, Nat.zero_add]
  have hBreak : linesWithBreaks tail ≠ [] → (between ++ core).getLast? = some '\n' := by
    intro hLines
    refine getLast?_of_append (hParts.ends ?_) hSome
    rintro rfl
    exact hLines rfl
  rw [hTokens] at hBraced hStubs
  have hText : serverText c file placed r between core tail =
      (String.join (c.emit.banner.map (· ++ "\n"))).toList ++ (between ++
        ((r.stubs.stubs.map fun stub => (stub.render (.ofEmit c.emit) ++ "\n").toList).flatten ++
          (splice (r.plans.map (plannedEdit c file)) (0 + byteLength opening + byteLength between) core ++
            commentedLines (linesWithBreaks tail)))) := by
    rw [serverText, toList_render, hHead]
    simp only [List.append_assoc]
    rfl
  rw [hText]
  refine .lead hSilent hBannerSilent (hBannerTiled _) ?_
  rw [hPassed]
  by_cases hNone : r.stubs.stubs = []
  · have hBodies := replaces_bodies (c := c) Added (lined_linesWithBreaks tail) hFile hLater
      hBraced hFills hBreak
    have hKept : splice (r.plans.map (plannedEdit c file)) (0 + byteLength opening) (between ++ core) =
        between ++ splice (r.plans.map (plannedEdit c file))
          (0 + byteLength opening + byteLength between) core := by
      refine splice_append_of_le between core fun e he => ?_
      rw [← hHead]
      exact (hApart.bodies.bounds e he).1
    rw [hKept, List.append_assoc] at hBodies
    rw [hNone]
    exact hBodies
  · have hInserts := hStubs hNone
    rw [hHead] at hInserts
    have hCore : core ≠ [] := by
      obtain ⟨_, _, blanks, d, rest, _, -, -, rfl, -⟩ := hInserts.exists_cut hLater
      simp
    refine replaces_handler (lined_linesWithBreaks tail) hFile hLater hInserts ?_ ?_ hFills ?_
    · by_cases hEmpty : between = []
      · exact .inl hEmpty
      · have hText : file.text.toList = opening ++ between ++ (core ++ tail) := by
          rw [hParts.text]
          simp
        have hStart := hParts.head
        rw [Source.File.lineStart, hText] at hStart
        have hEnds := eq_nil_or_getLast?_of_lineStart hStart (by simp [hCore])
        exact .inr (getLast?_of_append hEnds hEmpty)
    · intro text hText
      obtain ⟨stub, hStub, rfl⟩ := List.mem_map.mp hText
      exact hAdded stub hStub
    · intro hLines
      exact getLast?_of_append (.inr (hBreak hLines)) hCore

end Generation

end SkeletonWeave
