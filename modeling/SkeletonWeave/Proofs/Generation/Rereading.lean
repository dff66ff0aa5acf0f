import SkeletonWeave.Proofs.Declaration.RewrittenScopes
import SkeletonWeave.Proofs.Generation.Bodies
import SkeletonWeave.Proofs.Generation.Replacing
import SkeletonWeave.Proofs.Preprocess.Exchanged

/-!
# Reading the source of the server

The source of the server is read in the place of the skeleton. The tokens of its
first file are those of the kept skeleton with new bodies and stubs, so the
stream and the classes are, and the handler has the methods that it had.
-/

set_option autoImplicit false

namespace SkeletonWeave

open Text

namespace Preprocess.State.Sound

variable {options : ReadOptions} {s : State}

theorem start_lt_stop (h : s.Sound options) : ∀ t ∈ s.tokens.toList, t.span.start < t.span.stop := by
  intro t ht
  obtain ⟨-, -, f, -, hCut⟩ := h.drawn t ht
  exact hCut.start_lt_stop

theorem distinct (h : s.Sound options) : Token.Distinct s.tokens.toList := by
  refine h.ordered.imp_of_mem ?_
  rintro t u ht - hOrder ⟨hFile, hStart⟩
  have hWidth := h.start_lt_stop t ht
  have := hOrder hFile
  omega

theorem keeps (h : s.Sound options) : ∀ t ∈ s.tokens.toList, Preprocess.keeps options t = true := by
  intro t ht
  obtain ⟨-, hIgnored, -⟩ := h.drawn t ht
  rw [Preprocess.keeps, Bool.not_eq_true', Bool.eq_false_iff]
  intro hBoth
  exact hIgnored (by simpa using hBoth)

end Preprocess.State.Sound

namespace Batch

open Preprocess (addRoot canonicalPath readFile runText)

variable {fs : FileSystem} {options : ReadOptions}

theorem runSteps_sound {roots : List String} {s r : Preprocess.State} (hSound : s.Sound options)
    (h : runSteps (addRoot fs options) roots s = .ok r) : r.Sound options := by
  induction roots generalizing s with
  | nil =>
    cases h
    exact hSound
  | cons root roots ih =>
    unfold runSteps at h
    split at h
    · next next hNext =>
      refine ih ?_ h
      have hKept := (Preprocess.readFile_sound fs options (Preprocess.depthLimit fs) root s hSound).1
      change (addRoot fs options root s).state.Sound options at hKept
      rwa [hNext] at hKept
    · cases h

theorem exists_first {first text : String} {others : List String} {r : Preprocess.State}
    (h : withFirst fs options first text others = .ok r) :
    ∃ ts more, Token.lex 0 (canonicalPath fs first) text = .ok ts ∧
      r.files = ⟨0, canonicalPath fs first, text⟩ :: more := by
  unfold withFirst at h
  split at h
  · next next hNext =>
    obtain ⟨later, -, hLater, -⟩ := runSteps_extends (fun _ _ _ => Preprocess.readFile_extends) h
    simp only [runText] at hNext
    split at hNext
    · cases hNext
    · next ts hLex =>
      obtain ⟨included, _, hFiles, -⟩ := Preprocess.runTokens_continues
        (fun _ _ _ h => Preprocess.readFile_extends h) (by simp) (Token.file_of_lex hLex) hNext
      refine ⟨ts, included ++ later, hLex, ?_⟩
      rw [hLater, hFiles]
      simp [Preprocess.State.initial, Preprocess.State.see]
  · cases h

end Batch

theorem Method.isRegular_signature (m : Method) :
    (m.signature.isPublic && m.signature.isRegular) = (m.isPublic && m.isRegular) := (rfl)

theorem Class.publicMethods_signature (c : Class) :
    c.publicMethods.map Method.signature =
      (c.methods.map Method.signature).filter fun m => m.isPublic && m.isRegular := by
  rw [List.filter_map]
  exact congrArg (fun p => (c.methods.filter p).map Method.signature)
    (funext fun m => (Method.isRegular_signature m).symm)

theorem SymbolTable.classInFile?_matches {w : Rewrite} {s : SymbolTable} (s' : SymbolTable)
    (h : s.declarations.Matches w s'.declarations) {file : Nat} {name : String} {c : Class}
    (hFind : s.classInFile? file name = some c) :
    ∃ c', s'.classInFile? file name = some c' ∧ c.Matches w c' := by
  unfold classInFile? classes at hFind ⊢
  unfold Declarations.Matches at h
  generalize s.declarations.classes = cs at h hFind
  generalize s'.declarations.classes = cs' at h
  induction h with
  | nil => cases hFind
  | @cons d d' ds ds' hFirst _ ih =>
    rw [List.find?_cons] at hFind ⊢
    rw [← hFirst.file, ← hFirst.qualifiedName, ← hFirst.name]
    split at hFind
    · cases hFind
      exact ⟨d', rfl, hFirst⟩
    · exact ih hFind

namespace Token

theorem role_of_word {c : Char} {cs : List Char} {l : Lexeme} (h : Lexeme.word c cs = .ok l)
    (hQuote : l.chars.any Lexeme.isQuote = false) : l.role = .plain .identifier := by
  simp only [Lexeme.word] at h
  split at h
  · next quote rest _ =>
    split at h
    · next hMark =>
      obtain ⟨body, _, hChars, -, -⟩ := Lexeme.literal_eq_ok h
      rw [Bool.and_eq_true] at hMark
      exact absurd hMark.1 (List.any_eq_false.mp hQuote quote (by simp [hChars]))
    · cases h
      rfl
  · cases h
    rfl

theorem isOneOf_of_text {file : Nat} {name text : String} {ts : List Token}
    (hLex : lex file name text = .ok ts) {t : Token} (ht : t ∈ ts) (hKind : t.kind ≠ .directive)
    (hText : t.text = "class" ∨ t.text = "struct" ∨ t.text = "union") :
    t.isOneOf ["class", "struct", "union"] = true := by
  have hMem : t.text ∈ ["class", "struct", "union"] := by simpa using hText
  have hWords : ∀ word ∈ ["class", "struct", "union"],
      word.toList.head?.any Lexeme.isNameStart = true ∧ word.toList.any Lexeme.isQuote = false := by
    decide +kernel
  obtain ⟨hHead, hQuote⟩ := hWords _ hMem
  obtain ⟨before, after, rfl⟩ := List.append_of_mem ht
  obtain ⟨ls, hTiled, hTokens⟩ := lex_eq_ok hLex
  obtain ⟨passed, l, more, rfl, -, hToken⟩ := exists_of_ofLexemes hTokens.symm
  have hChars := Lexeme.text_of_toToken? hToken hKind
  rw [hChars] at hHead hQuote
  obtain ⟨rest, -, hRest⟩ := hTiled.cut_append
  have hRole : l.role = .plain .identifier := by
    cases hRest with
    | @step _ c cs _ _ _ hNext hCut _ =>
      obtain ⟨part, _, hFirst, -⟩ := (Lexeme.next_eq_ok hNext).1
      rw [hFirst] at hHead
      rw [Lexeme.next_name (by simpa using hHead)] at hNext
      exact role_of_word hNext hQuote
  have hIdentifier : t.kind = .identifier := by
    simp only [Lexeme.toToken?, hRole, Option.some.injEq] at hToken
    rw [← hToken]
  rw [isOneOf, hIdentifier, Bool.and_eq_true]
  exact ⟨rfl, by simpa using hText⟩

section Ordered

variable {file : Source.File} {ts : List Token}

theorem precedes_of_lex (hLex : lex file.id file.path file.text = .ok ts) {before after : List Token}
    (hCut : ts = before ++ after) {t u : Token} (ht : t ∈ before) (hu : u ∈ after) : t.span ≠ u.span := by
  intro hSame
  have hOrder := pairwise_of_lex hLex
  rw [hCut] at hOrder
  have hNext := (List.pairwise_append.mp hOrder).2.2 t ht u hu
  have hWidth := (stands_of_lex hLex t (hCut ▸ List.mem_append_left after ht)).start_lt_stop
  rw [hSame] at hNext hWidth
  omega

theorem eq_of_span_eq_of_lex (hLex : lex file.id file.path file.text = .ok ts) {t u : Token}
    (ht : t ∈ ts) (hu : u ∈ ts) (hSame : t.span = u.span) : t = u := by
  obtain ⟨before, after, hCut⟩ := List.append_of_mem ht
  rw [hCut] at hu
  rcases List.mem_append.mp hu with hu | hu
  · exact absurd hSame.symm (precedes_of_lex hLex hCut hu List.mem_cons_self)
  · rcases List.mem_cons.mp hu with rfl | hu
    · rfl
    · have hCut' : ts = before ++ [t] ++ after := by
        rw [hCut]
        simp
      exact absurd hSame (precedes_of_lex hLex hCut' (by simp) hu)

end Ordered

end Token

namespace Generation

open Bridge
open Preprocess (AddedBefore Contained canonicalPath)
open Token (Braced Fills IsStub ReadsAs Replaces Tiled ofLexemes)

variable {fs : FileSystem} {c : Configuration} {sources : SourcesSection} {g : Generation}
  {stream kept : Preprocess.State} {s : SymbolTable} {d : Declarations} {file : Source.File}
  {handler : Class} {r : Resolution} {w : Rewrite}

/-- The part of the skeleton before the lines that become comments. -/
def keptText (c : Configuration) (s : SymbolTable) (file : Source.File) : String :=
  String.ofList (takeBytes (commentStart c s file) file.text.toList)

/-- What is read where the skeleton has another text: the stream of the sources, what they declare,
and the handler class. -/
structure Rereads (fs : FileSystem) (c : Configuration) (sources : SourcesSection) (text : String)
    (stream : Preprocess.State) (d : Declarations) (handler : Class) : Prop where
  reads : Batch.runSteps (Preprocess.addRoot (fs.withText sources.skeleton text) (readOptions sources))
    (roots sources) (.initial (readOptions sources)) = .ok stream
  declares : Declaration.read stream.files stream.tokens.toList = .ok d
  finds : ∃ skeleton,
    findFile? (fs.withText sources.skeleton text) ⟨stream.files, d⟩ sources.skeleton = some skeleton ∧
      handlerClass ⟨stream.files, d⟩ skeleton c.handler.className = .ok handler

/-- Whether the edits cut the kept skeleton between its tokens, and what they put there can be read
by itself. Stubs need more: the keyword of the handler is the first token of its line, and no
`typedef` stands before it. -/
structure Separable (c : Configuration) (sources : SourcesSection) (s : SymbolTable)
    (file : Source.File) (handler : Class) (r : Resolution) (kept : List Token) : Prop where
  banner : ∀ line ∈ c.emit.banner, "//".toList <+: line.toList ∧ '\n' ∉ line.toList
  cuts : ReadsAs (fun ts => ∀ t ∈ ts, bannerLength c file.text.toList ≤ t.span.start ∧
    (t.kind = .directive → ∀ plan ∈ r.plans,
      ¬(plan.body.opening.stop ≤ t.span.start ∧ t.span.stop ≤ plan.body.closing.start)))
    (keptText c s file)
  lines : ∀ plan ∈ r.plans, ∀ line ∈ plan.call.bodyLines c, ReadsAs Contained (line ++ "\n")
  stubs : ∀ stub ∈ r.stubs.stubs,
    ReadsAs (AddedBefore (readOptions sources) IsStub) (stub.render (.ofEmit c.emit))
  head : r.stubs.stubs ≠ [] → ∃ blanks,
    slice? file.text.toList (file.lineStart handler.headLine) handler.span.start = some blanks ∧
      ∀ b ∈ blanks, Lexeme.isBlankInLine b = true
  typedefs : r.stubs.stubs ≠ [] → ∀ t keyword, [t, keyword] <:+: kept → handler.StartsAt keyword →
    t.text ≠ "typedef"

theorem braced_of_takenFrom {skeleton : Source.File} {ts us : List Token}
    (hLex : Token.lex skeleton.id skeleton.path skeleton.text = .ok ts) (hPart : us.Sublist ts)
    {keyword close : Token} {inside : List Token} (hInside : inside.Sublist us)
    (hTaken : handler.TakenFrom (keyword :: (inside ++ [close])))
    (hBodies : w.bodies = r.plans.map (·.body))
    (hPlans : ∀ plan ∈ r.plans, ∃ m ∈ handler.methods, m.body? = some plan.body)
    (hBraces : (planBraces r.plans).Sublist (handler.methods.flatMap (·.braces))) :
    Braced w (r.plans.map (·.body)) us := by
  obtain ⟨-, -, -, hMethods⟩ := Declaration.spans_of_takenFrom hTaken
  refine .of_sublist (fun b hb => hBodies ▸ hb) ((Token.pairwise_of_lex hLex).sublist hPart)
    (fun t ht => (Token.stands_of_lex hLex t (hPart.subset ht)).start_lt_stop) ?_ ?_
    fun t _ b hb _ => hBodies ▸ hb
  · rw [List.flatMap_map]
    exact (hBraces.trans hMethods).trans (hInside.map _)
  · intro b hb t ht
    obtain ⟨plan, hPlan, rfl⟩ := List.mem_map.mp hb
    obtain ⟨m, hm, hBody⟩ := hPlans plan hPlan
    obtain ⟨head, opening, within, closing, hWithin, hSpans, -, hOpen, hClose, -⟩ :=
      Declaration.definition_of_takenFrom hTaken hm hBody
    have hMem {u : Token} (hu : u ∈ head ++ opening :: (within ++ [closing])) : u ∈ ts :=
      hPart.subset (hInside.subset (hWithin.subset hu))
    rw [hSpans]
    refine ⟨fun hSame => ?_, fun hSame => ?_⟩
    · rw [Token.eq_of_span_eq_of_lex hLex (hPart.subset ht) (hMem (by simp)) hSame]
      exact hOpen
    · rw [Token.eq_of_span_eq_of_lex hLex (hPart.subset ht) (hMem (by simp)) hSame]
      exact hClose

end Generation

end SkeletonWeave
