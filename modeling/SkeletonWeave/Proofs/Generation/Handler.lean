import SkeletonWeave.Proofs.Declaration.Spans
import SkeletonWeave.Proofs.Generation.Stages
import SkeletonWeave.Proofs.Preprocess.Stream
import SkeletonWeave.Proofs.Token.Lead

/-!
# Where the handler stands

The last stage looks the handler up by its qualified name, which a class without
name can have too. What it finds starts after the first comment and before the
handler ends, and the braces of the handler stand in order inside of it.
-/

set_option autoImplicit false

namespace SkeletonWeave

theorem exists_of_intercalate (outer : List String) (name : String) :
    ∃ scope : List Char, ("::".intercalate (outer ++ [name])).toList = scope ++ name.toList ∧
      (scope = [] ∨ scope.getLast? = some ':') := by
  cases outer with
  | nil => exact ⟨[], by simp, .inl rfl⟩
  | cons first rest =>
    refine ⟨("::".intercalate (first :: rest) ++ "::").toList, ?_, .inr ?_⟩
    · rw [String.intercalate_append_of_ne_nil (by simp) (by simp), String.intercalate_singleton,
        String.toList_append]
    · rw [String.toList_append]
      simp

theorem eq_nil_of_getLast? {scope part : List Char}
    (hEnd : scope ++ part = [] ∨ (scope ++ part).getLast? = some ':') (hPart : ':' ∉ part) :
    part = [] := by
  apply Classical.byContradiction
  intro hSome
  rcases hEnd with hEmpty | hLast
  · exact hSome (List.append_eq_nil_iff.mp hEmpty).2
  · rw [List.getLast?_append, List.getLast?_eq_some_getLast hSome, Option.some_or] at hLast
    exact hPart (Option.some.inj hLast ▸ List.getLast_mem hSome)

theorem eq_of_intercalate_eq {outer outer' : List String} {name name' : String}
    (h : "::".intercalate (outer ++ [name]) = "::".intercalate (outer' ++ [name']))
    (hName : ':' ∉ name.toList) (hName' : ':' ∉ name'.toList) : name = name' := by
  obtain ⟨scope, hText, hEnd⟩ := exists_of_intercalate outer name
  obtain ⟨scope', hText', hEnd'⟩ := exists_of_intercalate outer' name'
  have hSame : scope ++ name.toList = scope' ++ name'.toList := by rw [← hText, ← hText', h]
  apply String.toList_inj.mp
  rcases List.append_eq_append_iff.mp hSame with ⟨part, rfl, hCut⟩ | ⟨part, rfl, hCut⟩
  · rw [hCut, List.mem_append, not_or] at hName
    rw [hCut, eq_nil_of_getLast? hEnd' hName.1, List.nil_append]
  · rw [hCut, List.mem_append, not_or] at hName'
    rw [hCut, eq_nil_of_getLast? hEnd hName'.1, List.nil_append]

theorem Preprocess.Drawn.exists_lexed {first : Nat} {files : List Source.File} {ts : List Token}
    (h : Drawn first files ts) {t : Token} (ht : t ∈ ts) :
    ∃ f ∈ files, ∃ lexed, Token.lex f.id f.path f.text = .ok lexed ∧ t ∈ lexed := by
  have hMem : t.span.file ∈ files.map (·.id) := by
    rw [h.numbered, List.mem_range'_1]
    exact h.home t ht
  obtain ⟨f, hf, hId⟩ := List.mem_map.mp hMem
  obtain ⟨lexed, hLex, hOrder⟩ := h.order f hf
  exact ⟨f, hf, lexed, hLex, hOrder.subset (List.mem_filter.mpr ⟨ht, by simp [hId]⟩)⟩

namespace Class

theorem NamedIn.noColon {first : Nat} {files : List Source.File} {ts : List Token} {c : Class}
    (hDrawn : Preprocess.Drawn first files ts) (h : c.NamedIn ts) : ':' ∉ c.name.toList := by
  rcases h with hEmpty | ⟨⟨t, ht, hKind, hText⟩, -⟩
  · simp [hEmpty]
  · obtain ⟨f, -, lexed, hLex, hMem⟩ := hDrawn.exists_lexed ht
    rw [← hText]
    intro hColon
    exact absurd (Token.isNamePart_of_lex hLex hMem hKind _ hColon) (by decide)

theorem NamedIn.exists_outer {ts : List Token} {c : Class} (h : c.NamedIn ts) (hName : c.name ≠ "") :
    ∃ outer, c.qualifiedName = "::".intercalate (outer ++ [c.name]) := by
  rcases h with hEmpty | ⟨-, hOuter⟩
  · exact absurd hEmpty hName
  · exact hOuter

theorem NamedIn.name_eq {first : Nat} {files : List Source.File} {ts : List Token} {c d : Class}
    (hDrawn : Preprocess.Drawn first files ts) (hc : c.NamedIn ts) (hd : d.NamedIn ts)
    (hName : c.name ≠ "") (hMatch : d.qualifiedName = c.qualifiedName ∨ d.name = c.qualifiedName) :
    d.name = c.name ∨ d.name = "" ∧ d.qualifiedName = c.qualifiedName := by
  obtain ⟨outer, hQualified⟩ := hc.exists_outer hName
  have hEq {outer' : List String}
      (h : "::".intercalate (outer' ++ [d.name]) = c.qualifiedName) : d.name = c.name :=
    eq_of_intercalate_eq (h.trans hQualified) (hd.noColon hDrawn) (hc.noColon hDrawn)
  rcases hMatch with hMatch | hMatch
  · by_cases hEmpty : d.name = ""
    · exact .inr ⟨hEmpty, hMatch⟩
    · obtain ⟨outer', hQualified'⟩ := hd.exists_outer hEmpty
      exact .inl (hEq (hQualified'.symm.trans hMatch))
  · refine .inl (@hEq [] ?_)
    rw [List.nil_append, String.intercalate_singleton, hMatch]

end Class

namespace SymbolTable

/-- The class that is found by the qualified name of a class is that class, or one without name that
was complete before it. -/
theorem classInFile?_qualifiedName {s : SymbolTable} {first : Nat} {files : List Source.File}
    {ts : List Token} (hDrawn : Preprocess.Drawn first files ts)
    (hNamed : ∀ d ∈ s.classes, d.NamedIn ts) {file : Nat} {name : String} {c : Class}
    (hName : name ≠ "") (hFind : s.classInFile? file name = some c) :
    ∃ earlier later placed, s.classes = earlier ++ c :: later ∧ c.span.file = file ∧
      s.classInFile? file c.qualifiedName = some placed ∧
      (placed = c ∨ placed ∈ earlier ∧ placed.span.file = file ∧ placed.name = "" ∧
        placed.qualifiedName = c.qualifiedName) := by
  obtain ⟨hMatch, earlier, later, hClasses, hEarlier⟩ :=
    List.find?_eq_some_iff_append.mp hFind
  simp only [Bool.and_eq_true, Bool.or_eq_true, beq_iff_eq] at hMatch
  refine ⟨earlier, later, ?_⟩
  rw [classInFile?, hClasses, List.find?_append]
  cases hFirst : earlier.find? fun d =>
      d.span.file == file && (d.qualifiedName == c.qualifiedName || d.name == c.qualifiedName) with
  | none =>
    refine ⟨c, rfl, hMatch.1, ?_, .inl rfl⟩
    rw [Option.none_or, List.find?_cons_of_pos]
    simp [hMatch.1]
  | some placed =>
    have hPlaced := List.mem_of_find?_eq_some hFirst
    have hFound := List.find?_some hFirst
    have hOther := hEarlier placed hPlaced
    simp only [Bool.and_eq_true, Bool.or_eq_true, beq_iff_eq] at hFound
    simp only [Bool.not_eq_true', Bool.and_eq_false_iff, Bool.or_eq_false_iff,
      beq_eq_false_iff_ne] at hOther
    have hUnlike : placed.qualifiedName ≠ name ∧ placed.name ≠ name :=
      hOther.resolve_left fun hFile => hFile hFound.1
    -- the name that was asked for is not the qualified name, by which `placed` would be found
    have hSelf : c.name = name := by
      refine hMatch.2.resolve_left ?_
      rintro rfl
      exact hFound.2.elim hUnlike.1 hUnlike.2
    have hIn (d : Class) (hd : d ∈ earlier ++ c :: later) : d.NamedIn ts :=
      hNamed d (hClasses ▸ hd)
    refine ⟨placed, rfl, hMatch.1, rfl, .inr ⟨hPlaced, hFound.1, ?_⟩⟩
    refine (Class.NamedIn.name_eq hDrawn (hIn c (by simp)) (hIn placed (by simp [hPlaced])) ?_
      hFound.2).resolve_left ?_
    · rw [hSelf]
      exact hName
    · rw [hSelf]
      exact hUnlike.2

end SymbolTable

/-- Whether all tokens that a class is read from come from one file. -/
def Class.LiesIn (c : Class) (file : Nat) (ts : List Token) : Prop :=
  ∀ extent, extent <:+: ts → c.TakenFrom extent → ∀ t ∈ extent, t.span.file = file

/-- Whether spans lie between two positions of a text, on boundaries and one after the other. -/
structure Source.Span.Ordered (text : List Char) (first last : Nat) (spans : List Source.Span) :
    Prop where
  fits : ∀ s ∈ spans, Text.IsBoundary text s.start ∧ Text.IsBoundary text s.stop
  bounds : ∀ s ∈ spans, first ≤ s.start ∧ s.start ≤ s.stop ∧ s.stop ≤ last
  pairwise : spans.Pairwise fun s t => s.stop ≤ t.start

theorem Source.Span.Ordered.sublist {text : List Char} {first last : Nat}
    {spans others : List Source.Span} (h : Ordered text first last spans)
    (hSublist : others.Sublist spans) : Ordered text first last others where
  fits := fun s hs => h.fits s (hSublist.subset hs)
  bounds := fun s hs => h.bounds s (hSublist.subset hs)
  pairwise := h.pairwise.sublist hSublist

namespace Preprocess.Drawn

variable {first : Nat} {files : List Source.File} {ts : List Token} {file : Source.File}

theorem tokensOf_sublist (h : Drawn first files ts) (hFile : file ∈ files) {part : List Token}
    (hPart : part.Sublist ts) (hOwn : ∀ t ∈ part, t.span.file = file.id) :
    ∃ lexed, Token.lex file.id file.path file.text = .ok lexed ∧ part.Sublist lexed := by
  obtain ⟨lexed, hLex, hOrder⟩ := h.order file hFile
  have hAll : (tokensOf file.id part).Sublist (tokensOf file.id ts) := hPart.filter _
  rw [tokensOf_eq_self hOwn] at hAll
  exact ⟨lexed, hLex, hAll.trans hOrder⟩

theorem stands (h : Drawn first files ts) (hFile : file ∈ files) {t : Token} (ht : t ∈ ts)
    (hOwn : t.span.file = file.id) : t.Stands file := by
  obtain ⟨lexed, hLex, hPart⟩ :=
    h.tokensOf_sublist hFile (List.singleton_sublist.mpr ht) (by simpa using hOwn)
  exact Token.stands_of_lex hLex t (hPart.subset (by simp))

theorem inOrder (h : Drawn first files ts) (hFile : file ∈ files) {part : List Token}
    (hPart : part.Sublist ts) (hOwn : ∀ t ∈ part, t.span.file = file.id) :
    Token.InOrder file.id part := by
  obtain ⟨lexed, hLex, hSublist⟩ := h.tokensOf_sublist hFile hPart hOwn
  exact (Token.inOrder_of_lex hLex).sublist hSublist

theorem lineStart_keyword (h : Drawn first files ts) (hFile : file ∈ files) {t : Token}
    (ht : t ∈ ts) (hOwn : t.span.file = file.id)
    (hKeyword : t.text = "class" ∨ t.text = "struct" ∨ t.text = "union") :
    Generation.leadingCommentLength file.text.toList ≤ file.lineStart t.line ∧
      file.lineStart t.line ≤ t.span.start := by
  obtain ⟨lexed, hLex, hPart⟩ :=
    h.tokensOf_sublist hFile (List.singleton_sublist.mpr ht) (by simpa using hOwn)
  have hWord : t.text.toList.length ≠ 1 := by
    rcases hKeyword with h | h | h <;> rw [h] <;> decide
  exact ⟨Token.leadingCommentLength_le hLex (hPart.subset (by simp)) hWord,
    (h.stands hFile ht hOwn).lineStart_le⟩

theorem start_lt_start (h : Drawn first files ts) (hFile : file ∈ files) {t u : Token}
    (hPair : [t, u].Sublist ts) (ht : t.span.file = file.id) (hu : u.span.file = file.id) :
    t.span.start < u.span.start := by
  have hOrder := h.inOrder hFile hPair (by simp [ht, hu])
  have hStop := List.rel_of_pairwise_cons hOrder.pairwise List.mem_cons_self
  have hWidth := hOrder.start_lt_stop t (by simp)
  omega

variable {c : Class} {keyword close : Token} {inside : List Token}

theorem range_of_takenFrom (h : Drawn first files ts) (hFile : file ∈ files)
    (hPart : (keyword :: (inside ++ [close])).Sublist ts)
    (hOwn : ∀ t ∈ keyword :: (inside ++ [close]), t.span.file = file.id)
    (hTaken : c.TakenFrom (keyword :: (inside ++ [close]))) :
    c.span.start ≤ c.span.stop ∧ Text.IsBoundary file.text.toList c.span.stop := by
  obtain ⟨-, hSpan, -, -⟩ := Declaration.spans_of_takenFrom hTaken
  have hClose := h.stands hFile (hPart.subset (by simp)) (hOwn close (by simp))
  have hPair : [keyword, close].Sublist ts := by
    refine List.Sublist.trans ?_ hPart
    exact (List.sublist_append_right inside [close]).cons_cons keyword
  have hOrder := h.start_lt_start hFile hPair (hOwn keyword (by simp)) (hOwn close (by simp))
  have hWidth := hClose.start_lt_stop
  rw [hSpan]
  refine ⟨?_, hClose.stops⟩
  show keyword.span.start ≤ close.span.stop
  omega

theorem ordered_braces (h : Drawn first files ts) (hFile : file ∈ files)
    (hPart : (keyword :: (inside ++ [close])).Sublist ts)
    (hOwn : ∀ t ∈ keyword :: (inside ++ [close]), t.span.file = file.id)
    (hTaken : c.TakenFrom (keyword :: (inside ++ [close]))) :
    Source.Span.Ordered file.text.toList c.span.start c.span.stop (c.methods.flatMap (·.braces)) := by
  obtain ⟨-, hSpan, -, hBraces⟩ := Declaration.spans_of_takenFrom hTaken
  have hOrder := h.inOrder hFile hPart hOwn
  have hInside : Source.Span.Ordered file.text.toList c.span.start c.span.stop
      (inside.map (·.span)) := by
    refine ⟨?_, ?_, ?_⟩
    · intro s hs
      obtain ⟨t, ht, rfl⟩ := List.mem_map.mp hs
      have hToken := h.stands hFile (hPart.subset (by simp [ht])) (hOwn t (by simp [ht]))
      exact ⟨hToken.starts, hToken.stops⟩
    · intro s hs
      obtain ⟨t, ht, rfl⟩ := List.mem_map.mp hs
      obtain ⟨hFirst, hLast⟩ := hOrder.between ht
      have hWidth := hOrder.start_lt_stop t (by simp [ht])
      rw [hSpan]
      exact ⟨Nat.le_of_lt hFirst, Nat.le_of_lt hWidth, Nat.le_of_lt hLast⟩
    · exact List.pairwise_map.mpr hOrder.inner.pairwise
  exact hInside.sublist hBraces

end Preprocess.Drawn

namespace Generation

/-- Where the last stage finds the handler, or what it takes for it, and what stands where in the
file of the skeleton. -/
structure Located (s : SymbolTable) (file : Source.File) (handler placed : Class) : Prop where
  found : s.classInFile? file.id handler.qualifiedName = some placed
  same : placed = handler ∨ placed ∈ s.classes ∧ placed.span.file = file.id ∧ placed.name = "" ∧
    placed.qualifiedName = handler.qualifiedName
  lead_le : leadingCommentLength file.text.toList ≤ file.lineStart placed.headLine
  head_le : file.lineStart placed.headLine ≤ handler.span.start
  start_le : handler.span.start ≤ handler.span.stop
  stops : Text.IsBoundary file.text.toList handler.span.stop
  braces : Source.Span.Ordered file.text.toList handler.span.start handler.span.stop
    (handler.methods.flatMap (·.braces))

theorem located_self {first : Nat} {s : SymbolTable} {files : List Source.File} {ts : List Token}
    (hDrawn : Preprocess.Drawn first files ts) (hRead : Declaration.Found s.classes ts)
    {file : Source.File} (hFile : file ∈ files) {handler : Class} (hClass : handler ∈ s.classes)
    (hFound : s.classInFile? file.id handler.qualifiedName = some handler)
    (hLies : handler.LiesIn file.id ts) : Located s file handler handler := by
  obtain ⟨keyword, inside, close, hTaken, hExtent⟩ := hRead.placed.standsIn handler hClass
  have hOwn := hLies _ hExtent hTaken
  obtain ⟨hKeyword, hSpan, hHead, -⟩ := Declaration.spans_of_takenFrom hTaken
  have hBraces := hDrawn.ordered_braces hFile hExtent.sublist hOwn hTaken
  obtain ⟨hRange, hStops⟩ := hDrawn.range_of_takenFrom hFile hExtent.sublist hOwn hTaken
  have hLine := hDrawn.lineStart_keyword hFile (hExtent.subset List.mem_cons_self)
    (hOwn keyword List.mem_cons_self) hKeyword
  have hStart : handler.span.start = keyword.span.start := by rw [hSpan]
  rw [← hHead, ← hStart] at hLine
  exact ⟨hFound, .inl rfl, hLine.1, hLine.2, hRange, hStops, hBraces⟩

theorem exists_located {first : Nat} {s : SymbolTable} {files : List Source.File} {ts : List Token}
    (hDrawn : Preprocess.Drawn first files ts) (hRead : Declaration.Found s.classes ts)
    {file : Source.File} (hFile : file ∈ files) {name : String} (hName : name ≠ "")
    {handler : Class} (hFind : s.classInFile? file.id name = some handler)
    (hLies : handler.LiesIn file.id ts)
    (hNested : ∀ d ∈ s.classes, d.span.Inside handler.span → d.name ≠ "") :
    ∃ placed, Located s file handler placed := by
  obtain ⟨earlier, later, placed, hClasses, -, hFound, hSame⟩ :=
    SymbolTable.classInFile?_qualifiedName hDrawn hRead.named hName hFind
  have hPlaced := hRead.placed
  rw [hClasses] at hPlaced
  obtain ⟨before, keyword, inside, close, after, rfl, hTaken, hEarlier⟩ := hPlaced.exists_extent
  have hExtent : keyword :: (inside ++ [close]) <:+: before ++ keyword :: (inside ++ close :: after) :=
    ⟨before, after, by simp⟩
  have hOwn := hLies _ hExtent hTaken
  have hKeywordOwn := hOwn keyword (by simp)
  obtain ⟨-, hSpan, -⟩ := Declaration.spans_of_takenFrom hTaken
  have hStart : handler.span.start = keyword.span.start := by rw [hSpan]
  have hBraces := hDrawn.ordered_braces hFile hExtent.sublist hOwn hTaken
  obtain ⟨hRange, hStops⟩ := hDrawn.range_of_takenFrom hFile hExtent.sublist hOwn hTaken
  rcases hSame with rfl | ⟨hMem, hPlacedOwn, hAnonymous, hQualified⟩
  · exact ⟨_, located_self hDrawn hRead hFile (by simp [hClasses]) hFound hLies⟩
  · -- what was complete before the handler stands before it, for all classes inside of it have names
    have hClass : placed ∈ s.classes := hClasses ▸ List.mem_append_left _ hMem
    have hAll : placed ∈ s.classes ∧ placed.span.file = file.id ∧ placed.name = "" ∧
        placed.qualifiedName = handler.qualifiedName := ⟨hClass, hPlacedOwn, hAnonymous, hQualified⟩
    rcases hEarlier placed hMem with ⟨k, middle, l, hTaken', hIn⟩ | ⟨k, middle, l, hTaken', hIn⟩
    · obtain ⟨hKeyword', hSpan', hHead', -⟩ := Declaration.spans_of_takenFrom hTaken'
      have hBefore : k ∈ before := hIn.subset (by simp)
      have hkOwn : k.span.file = file.id := by rwa [hSpan'] at hPlacedOwn
      have hPair : [k, keyword].Sublist (before ++ keyword :: (inside ++ close :: after)) :=
        (List.singleton_sublist.mpr hBefore).append (List.singleton_sublist.mpr (by simp))
      have hOrder := hDrawn.start_lt_start hFile hPair hkOwn hKeywordOwn
      have hLine := hDrawn.lineStart_keyword hFile (hPair.subset (by simp)) hkOwn hKeyword'
      rw [← hHead'] at hLine
      exact ⟨placed, hFound, .inr hAll, hLine.1, by omega, hRange, hStops, hBraces⟩
    · have hOrder := hDrawn.inOrder hFile hExtent.sublist hOwn
      have hInside := Declaration.inside_of_standsIn hOrder ⟨k, middle, l, hTaken', hIn⟩ hTaken
      exact absurd hAnonymous (hNested placed hClass hInside)

end Generation

end SkeletonWeave
