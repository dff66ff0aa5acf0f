import SkeletonWeave.Declaration.Batch
import SkeletonWeave.Proofs.Generation.Handler
import SkeletonWeave.Proofs.Preprocess.Calls

/-!
# Looking a class up by its own name

A class is listed when its closing brace is read, so a look-up that takes the
first match meets the classes inside of it before. Those with a name of their
own do not stand in the way of its qualified name. A class without name does:
its qualified name is that of the scope around it.
-/

set_option autoImplicit false

namespace SkeletonWeave

open Declaration (Scope Outline NameGiven)

theorem Text.suffix_of_dropPrefixes_ne {part cs : List Char} (h : dropPrefixes part cs ≠ cs) :
    part ++ dropPrefixes part cs <:+ cs := by
  fun_induction dropPrefixes part cs with
  | case1 cs hPrefix ih =>
    obtain ⟨rest, rfl⟩ := List.isPrefixOf_iff_prefix.mp hPrefix.1
    rw [List.drop_left] at ih ⊢
    by_cases hSame : dropPrefixes part rest = rest
    · simp only [hSame, List.suffix_rfl]
    · exact (ih hSame).trans (List.suffix_append part rest)
  | case2 cs _ => exact absurd rfl h

theorem find?_append_cons_eq_some {α : Type} {p : α → Bool} {xs ys : List α} {a : α} (hNot : a ∉ xs)
    (ha : p a = true) : (xs ++ a :: ys).find? p = some a ↔ ∀ x ∈ xs, p x = false := by
  rw [List.find?_append, List.find?_cons_of_pos ha]
  cases hFind : xs.find? p with
  | none =>
    simpa using hFind
  | some x =>
    have hx := List.mem_of_find?_eq_some hFind
    have hFound := List.find?_some hFind
    constructor
    · intro hSame
      cases hSame
      exact absurd hx hNot
    · intro hNone
      rw [hNone x hx] at hFound
      cases hFound

namespace Declaration.Outline

theorem nameless {scope : Scope} {cs : List (Scope × Class)} {ts : List Token}
    (h : Outline scope cs ts) (hNames : ∀ t ∈ ts, t.kind = .identifier → t.text ≠ "") :
    ∀ p ∈ cs, p.2.name = "" → p.2.qualifiedName = p.1.qualify "" := by
  induction h with
  | none => simp
  | pass us _ ih => exact ih fun t ht => hNames t (List.mem_append_left us ht)
  | space _ _ _ ihBefore ihInside =>
    intro p hp
    rcases List.mem_append.mp hp with hp | hp
    · exact ihBefore (fun t ht => hNames t (by simp [ht])) p hp
    · exact ihInside (fun t ht => hNames t (by simp [ht])) p hp
  | add _ _ _ hGiven ihBefore ihInside =>
    intro p hp hNameless
    rcases List.mem_append.mp hp with hp | hp
    · exact ihBefore (fun t ht => hNames t (by simp [ht])) p hp hNameless
    · rcases List.mem_append.mp hp with hp | hp
      · exact ihInside (fun t ht => hNames t (by simp [ht])) p hp hNameless
      · cases List.mem_singleton.mp hp
        rcases hGiven with ⟨hName, hQualified⟩ | ⟨-, t, ht, hKind, hName, -⟩
        · rw [hQualified, ← hName, hNameless]
        · exact absurd (hName.symm.trans hNameless) (hNames t (by simp [ht]) hKind)

end Declaration.Outline

namespace SymbolTable

variable {s : SymbolTable} {earlier later : List Class} {c : Class}

/-- Whether no other class that has a name has the qualified name of a class. -/
def Alone (c : Class) (others : List Class) : Prop :=
  c.name ≠ "" ∧ ∀ d ∈ others, d.name ≠ "" → d.qualifiedName ≠ c.qualifiedName

theorem Alone.not_mem (h : Alone c (earlier ++ later)) : c ∉ earlier :=
  fun hMem => h.2 c (List.mem_append_left later hMem) h.1 rfl

theorem Alone.nameless (h : Alone c (earlier ++ later)) {d : Class} (hd : d ∈ earlier)
    (hSame : d.qualifiedName = c.qualifiedName) : d.name = "" :=
  Classical.byContradiction fun hName => h.2 d (List.mem_append_left later hd) hName hSame

theorem endsInScope_bareName {name : String} (h : bareName name ≠ name) :
    endsInScope name (bareName name) = true := by
  have hChanged : Text.dropPrefixes "::".toList name.toList ≠ name.toList := by
    intro hSame
    apply h
    rw [bareName, hSame, String.ofList_toList]
  have hSuffix := Text.suffix_of_dropPrefixes_ne hChanged
  simpa [endsInScope, bareName] using hSuffix

/-- A class is found by its qualified name unless a class without name that has this name too was
complete before. A qualified name that starts with colons is looked up without them. -/
theorem class?_eq_some_iff (hClasses : s.classes = earlier ++ c :: later)
    (hAlone : Alone c (earlier ++ later)) :
    s.class? c.qualifiedName = some c ↔
      (∀ d ∈ earlier, d.name = "" → d.qualifiedName ≠ c.qualifiedName) ∧
      (bareName c.qualifiedName ≠ c.qualifiedName →
        (∀ d ∈ s.classes, d.qualifiedName ≠ bareName c.qualifiedName) ∧
        ∀ d ∈ earlier, endsInScope d.qualifiedName (bareName c.qualifiedName) = false) := by
  simp only [class?]
  by_cases hBare : bareName c.qualifiedName = c.qualifiedName
  · have hExact : s.classes.find? (·.qualifiedName == c.qualifiedName) = some c ↔
        ∀ d ∈ earlier, (d.qualifiedName == c.qualifiedName) = false := by
      rw [hClasses]
      exact find?_append_cons_eq_some hAlone.not_mem (by simp)
    have hSome : (s.classes.find? (·.qualifiedName == c.qualifiedName)).isSome = true := by
      rw [List.find?_isSome, hClasses]
      exact ⟨c, by simp, by simp⟩
    obtain ⟨found, hFound⟩ := Option.isSome_iff_exists.mp hSome
    simp only [hBare, ne_eq, not_true, false_imp_iff, and_true]
    rw [hFound]
    change some found = some c ↔ _
    rw [← hFound, hExact]
    constructor
    · intro hNone d hd _ hSame
      simpa [hSame] using hNone d hd
    · intro hNone d hd
      rw [beq_eq_false_iff_ne]
      intro hSame
      exact hNone d hd (hAlone.nameless hd hSame) hSame
  · cases hFind : s.classes.find? (·.qualifiedName == bareName c.qualifiedName) with
    | some found =>
      have hFound := List.find?_some hFind
      rw [beq_iff_eq] at hFound
      change some found = some c ↔ _
      constructor
      · intro hSame
        cases hSame
        exact absurd hFound.symm hBare
      · rintro ⟨-, hOthers⟩
        exact absurd hFound ((hOthers hBare).1 found (List.mem_of_find?_eq_some hFind))
    | none =>
      have hOthers : ∀ d ∈ s.classes, d.qualifiedName ≠ bareName c.qualifiedName := by
        simpa using hFind
      change s.classes.find? _ = some c ↔ _
      rw [hClasses, find?_append_cons_eq_some hAlone.not_mem (endsInScope_bareName hBare), ← hClasses]
      constructor
      · intro hNone
        refine ⟨?_, fun _ => ⟨hOthers, hNone⟩⟩
        intro d hd _ hSame
        have hEnds := hNone d hd
        rw [hSame, endsInScope_bareName hBare] at hEnds
        cases hEnds
      · rintro ⟨-, hBoth⟩
        exact (hBoth hBare).2

theorem classInFile?_eq_some_iff (hClasses : s.classes = earlier ++ c :: later)
    (hAlone : Alone c (earlier ++ later)) :
    s.classInFile? c.span.file c.qualifiedName = some c ↔
      ∀ d ∈ earlier, d.span.file = c.span.file →
        d.name ≠ c.qualifiedName ∧ (d.name = "" → d.qualifiedName ≠ c.qualifiedName) := by
  rw [classInFile?, hClasses, find?_append_cons_eq_some hAlone.not_mem (by simp)]
  simp only [Bool.and_eq_false_iff, Bool.or_eq_false_iff, beq_eq_false_iff_ne]
  constructor
  · intro hNone d hd hFile
    obtain ⟨hQualified, hName⟩ := (hNone d hd).resolve_left fun hOther => hOther hFile
    exact ⟨hName, fun _ => hQualified⟩
  · intro hNone d hd
    by_cases hFile : d.span.file = c.span.file
    · obtain ⟨hName, hNameless⟩ := hNone d hd hFile
      refine .inr ⟨?_, hName⟩
      intro hSame
      exact hNameless (hAlone.nameless hd hSame) hSame
    · exact .inl hFile

end SymbolTable

theorem Token.text_ne_of_lex {file : Nat} {name text : String} {ts : List Token}
    (hLex : lex file name text = .ok ts) {t : Token} (ht : t ∈ ts) (hKind : t.kind ≠ .directive) :
    t.text ≠ "" := by
  obtain ⟨before, after, rfl⟩ := List.append_of_mem ht
  obtain ⟨ls, hTiled, hTokens⟩ := lex_eq_ok hLex
  obtain ⟨passed, l, rest, rfl, -, hToken⟩ := exists_of_ofLexemes hTokens.symm
  intro hEmpty
  apply (hTiled.sound l (by simp)).2
  rw [← Lexeme.text_of_toToken? hToken hKind, hEmpty]
  rfl

namespace Batch

variable {fs : FileSystem} {options : ReadOptions} {roots : List String}
  {texts : List (String × String)} {b : Batch}

theorem drawn_of_texts {state : Preprocess.State}
    (h : runSteps (fun (path, text) => Preprocess.addSource fs options path text) texts
      (.initial options) = .ok state) : Preprocess.Drawn 0 state.files state.tokens.toList := by
  obtain ⟨files, ts, hFiles, hTokens, hDrawn⟩ := runSteps_extends (fun ⟨path, text⟩ s s' hStep => by
    have hSeen : Preprocess.Extends s { s with seen := path :: s.seen } := .of_same rfl rfl
    exact hSeen.trans
      (Preprocess.runText_extends (fun _ _ _ => Preprocess.readFile_extends) hStep)) h
  rw [hFiles, hTokens]
  exact hDrawn

theorem exists_stream (h : ofRoots fs options roots = .ok b ∨ ofTexts fs options texts = .ok b) :
    ∃ stream, Preprocess.Drawn 0 b.symbols.files stream ∧
      Declaration.read b.symbols.files stream = .ok b.symbols.declarations := by
  have hFinish {state : Preprocess.State}
      (hDrawn : Preprocess.Drawn 0 state.files state.tokens.toList) (h : finish state = .ok b) :
      ∃ stream, Preprocess.Drawn 0 b.symbols.files stream ∧
        Declaration.read b.symbols.files stream = .ok b.symbols.declarations := by
    rw [finish, bind_eq_ok] at h
    obtain ⟨declarations, hRead, h⟩ := h
    cases h
    exact ⟨state.tokens.toList, hDrawn, hRead⟩
  rcases h with h | h
  · rw [ofRoots, bind_eq_ok] at h
    obtain ⟨state, hSteps, h⟩ := h
    exact hFinish (drawn_of_roots hSteps) h
  · rw [ofTexts, bind_eq_ok] at h
    obtain ⟨state, hSteps, h⟩ := h
    exact hFinish (drawn_of_texts hSteps) h

/-- Each class of a batch stands in a scope, whose qualified name it has if it has no name itself.
A class that has a qualified name alone is found by it unless a class without name that was
complete before has this name too; in the skeleton an earlier class whose bare name it is comes
first as well. -/
theorem lookup_by_qualifiedName
    (h : ofRoots fs options roots = .ok b ∨ ofTexts fs options texts = .ok b) :
    ∃ stream outline, Declaration.read b.symbols.files stream = .ok b.symbols.declarations ∧
      b.symbols.classes = outline.map Prod.snd ∧ Outline [] outline stream ∧
      (∀ p ∈ outline, p.2.name = "" → p.2.qualifiedName = p.1.qualify "") ∧
      ∀ earlier c later, b.symbols.classes = earlier ++ c :: later →
        SymbolTable.Alone c (earlier ++ later) →
        (b.symbols.class? c.qualifiedName = some c ↔
          (∀ d ∈ earlier, d.name = "" → d.qualifiedName ≠ c.qualifiedName) ∧
          (SymbolTable.bareName c.qualifiedName ≠ c.qualifiedName →
            (∀ d ∈ b.symbols.classes,
              d.qualifiedName ≠ SymbolTable.bareName c.qualifiedName) ∧
            ∀ d ∈ earlier, SymbolTable.endsInScope d.qualifiedName
              (SymbolTable.bareName c.qualifiedName) = false)) ∧
        (Generation.handlerClass b.symbols c.span.file c.qualifiedName = .ok c ↔
          ∀ d ∈ earlier, d.span.file = c.span.file →
            d.name ≠ c.qualifiedName ∧ (d.name = "" → d.qualifiedName ≠ c.qualifiedName)) := by
  obtain ⟨stream, hDrawn, hRead⟩ := exists_stream h
  obtain ⟨outline, hClasses, hOutline⟩ := Declaration.outline_of_read hRead
  have hNames : ∀ t ∈ stream, t.kind = .identifier → t.text ≠ "" := by
    intro t ht hKind
    obtain ⟨f, -, lexed, hLex, hMem⟩ := hDrawn.exists_lexed ht
    exact Token.text_ne_of_lex hLex hMem (by simp [hKind])
  refine ⟨stream, outline, hRead, hClasses, hOutline, hOutline.nameless hNames, ?_⟩
  intro earlier c later hAll hAlone
  refine ⟨SymbolTable.class?_eq_some_iff hAll hAlone, ?_⟩
  rw [Generation.handlerClass_eq_ok_iff]
  exact SymbolTable.classInFile?_eq_some_iff hAll hAlone

def namesIn (text : String) : Option (List (String × String × Nat)) :=
  match ofTexts ⟨[], []⟩ ⟨[], [], []⟩ [("t.cpp", text)] with
  | .ok b => some (b.symbols.classes.map fun c => (c.name, c.qualifiedName, c.span.file))
  | .error _ => none

theorem exists_of_namesIn {text : String} {names : List (String × String × Nat)}
    (h : namesIn text = some names) :
    ∃ b, ofTexts ⟨[], []⟩ ⟨[], [], []⟩ [("t.cpp", text)] = .ok b ∧
      b.symbols.classes.map (fun c => (c.name, c.qualifiedName, c.span.file)) = names := by
  unfold namesIn at h
  split at h
  · next b hBatch => exact ⟨b, hBatch, Option.some.inj h⟩
  · cases h

theorem lookup_around_named_class :
    ∃ b c, ofTexts ⟨[], []⟩ ⟨[], [], []⟩
        [("t.cpp", "struct A \x7b struct B \x7b struct \x7b int n; \x7d s; \x7d; \x7d;")] = .ok b ∧
      c ∈ b.symbols.classes ∧ c.qualifiedName = "A" ∧ b.symbols.class? "A" = some c ∧
      Generation.handlerClass b.symbols c.span.file "A" = .ok c := by
  have hText : namesIn "struct A \x7b struct B \x7b struct \x7b int n; \x7d s; \x7d; \x7d;" =
      some [("", "A::B", 0), ("B", "A::B", 0), ("A", "A", 0)] := by
    decide +kernel
  obtain ⟨b, hBatch, hNames⟩ := exists_of_namesIn hText
  rcases hAll : b.symbols.classes with - | ⟨unnamed, - | ⟨inner, - | ⟨c, - | ⟨_, _⟩⟩⟩⟩ <;>
    simp only [hAll, List.map_cons, List.map_nil, List.cons.injEq, Prod.mk.injEq, reduceCtorEq,
      and_false, and_true] at hNames
  obtain ⟨⟨hUnnamed, hScope, -⟩, ⟨hInner, hInside, -⟩, hName, hQualified, -⟩ := hNames
  have hAlone : SymbolTable.Alone c ([unnamed, inner] ++ []) := by
    refine ⟨by simp [hName], ?_⟩
    simp [hScope, hInside, hQualified]
  have hBare : SymbolTable.bareName "A" = "A" := by decide +kernel
  obtain ⟨_, _, -, -, -, -, hLookups⟩ :=
    @lookup_by_qualifiedName _ _ [] _ b (.inr hBatch)
  obtain ⟨hClass, hHandler⟩ := hLookups [unnamed, inner] c [] hAll hAlone
  rw [hQualified] at hClass hHandler
  refine ⟨b, c, hBatch, by simp [hAll], hQualified, hClass.mpr ⟨?_, ?_⟩, hHandler.mpr ?_⟩
  · simp [hScope, hInside]
  · intro hOther
    exact absurd hBare hOther
  · simp [hUnnamed, hScope, hInner, hInside]

/-- A class with a member of a class without name is not found by its own name, although no other
class of a name has it. -/
theorem nameless_member_found_instead :
    ∃ b found c, ofTexts ⟨[], []⟩ ⟨[], [], []⟩
        [("t.cpp", "struct H \x7b struct \x7b int n; \x7d s; void F() \x7b\x7d \x7d;")] = .ok b ∧
      b.symbols.classes = [found, c] ∧ c.name = "H" ∧ SymbolTable.Alone c [found] ∧
      b.symbols.class? c.qualifiedName ≠ some c ∧
      Generation.handlerClass b.symbols c.span.file c.qualifiedName ≠ .ok c := by
  have hText : namesIn "struct H \x7b struct \x7b int n; \x7d s; void F() \x7b\x7d \x7d;" =
      some [("", "H", 0), ("H", "H", 0)] := by
    decide +kernel
  obtain ⟨b, hBatch, hNames⟩ := exists_of_namesIn hText
  rcases hAll : b.symbols.classes with - | ⟨found, - | ⟨c, - | ⟨_, _⟩⟩⟩ <;>
    simp only [hAll, List.map_cons, List.map_nil, List.cons.injEq, Prod.mk.injEq, reduceCtorEq,
      and_false, and_true] at hNames
  obtain ⟨⟨hNameless, hFound, hFile⟩, hName, hQualified, hFile'⟩ := hNames
  have hAlone : SymbolTable.Alone c [found] := by
    refine ⟨by simp [hName], ?_⟩
    simp [hNameless]
  have hSame : found.qualifiedName = c.qualifiedName := hFound.trans hQualified.symm
  refine ⟨b, found, c, hBatch, hAll, hName, hAlone, ?_, ?_⟩
  · rw [ne_eq, @SymbolTable.class?_eq_some_iff b.symbols [found] [] c hAll hAlone]
    rintro ⟨hNone, -⟩
    exact hNone found (by simp) hNameless hSame
  · rw [ne_eq, Generation.handlerClass_eq_ok_iff,
      @SymbolTable.classInFile?_eq_some_iff b.symbols [found] [] c hAll hAlone]
    intro hNone
    exact (hNone found (by simp) (hFile.trans hFile'.symm)).2 hNameless hSame

end Batch

end SkeletonWeave
