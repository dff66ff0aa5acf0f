import SkeletonWeave.Proofs.Declaration.Nesting
import SkeletonWeave.Proofs.Preprocess.Rewritten
import SkeletonWeave.Proofs.Token.Lead
import SkeletonWeave.Proofs.Token.Replacing

/-!
# Texts that are put in others

A text that ends with its line and holds no directive is read in another text as
it is read by itself. White space can stand anywhere. So a text that is put
together from such parts has the tokens of its parts.
-/

set_option autoImplicit false

namespace SkeletonWeave

open Text

namespace Token

namespace Alike

theorem exists_append {ts vs us : List Token} (h : Alike (ts ++ vs) us) :
    ∃ us' us'', us = us' ++ us'' ∧ Alike ts us' ∧ Alike vs us'' := by
  rw [Alike, List.map_append] at h
  obtain ⟨us', us'', rfl, hFirst, hSecond⟩ := List.map_eq_append_iff.mp h.symm
  exact ⟨us', us'', rfl, hFirst.symm, hSecond.symm⟩

theorem exists_mem {ts us : List Token} (h : Alike ts us) {u : Token} (hu : u ∈ us) :
    ∃ t ∈ ts, t.unplaced = u.unplaced := by
  have hMem : u.unplaced ∈ ts.map unplaced := by
    rw [h]
    exact List.mem_map_of_mem hu
  exact List.mem_map.mp hMem

theorem filter {ts us : List Token} (h : Alike ts us) {p : Token → Bool}
    (hp : ∀ t, p t.unplaced = p t) : Alike (ts.filter p) (us.filter p) := by
  rw [Alike, ← filter_unplaced hp, ← filter_unplaced hp, h]

end Alike

theorem Nested.of_alike {ts us : List Token} (h : Nested ts) (hAlike : Alike ts us) : Nested us := by
  induction h generalizing us with
  | nil =>
    obtain rfl := hAlike.eq_nil
    exact .nil
  | @plain t ts hPlain _ ih =>
    obtain ⟨u, us, rfl, hToken, hRest⟩ := hAlike.exists_cons
    refine .plain ?_ (ih hRest)
    rw [isBracket] at hPlain ⊢
    simpa only [isPunctuation_of_alike hToken] using hPlain
  | @group opener close inside rest hText hOpen hClose _ _ ihInside ihRest =>
    obtain ⟨opener', us, rfl, hOpener, hTail⟩ := hAlike.exists_cons
    obtain ⟨inside', us, rfl, hInside, hTail⟩ := hTail.exists_append
    obtain ⟨close', rest', rfl, hCloser, hRest⟩ := hTail.exists_cons
    have hSame := text_of_alike hOpener
    refine .group ?_ ?_ ?_ (ihInside hInside) (ihRest hRest)
    · rwa [hSame]
    · rw [hSame, isPunctuation_of_alike hOpener, hOpen]
    · rw [hSame, isPunctuation_of_alike hCloser, hClose]

theorem IsStub.of_alike {ts us : List Token} (h : IsStub ts) (hAlike : Alike ts us) : IsStub us := by
  cases h with
  | @intro head first last opening closing hFirst hWord hNested hPlain hLast hParenthesis hOpen hClose =>
    obtain ⟨head', us, rfl, hHead, hTail⟩ := hAlike.exists_append
    obtain ⟨opening', us, rfl, hOpening, hTail⟩ := hTail.exists_cons
    obtain ⟨closing', us, rfl, hClosing, hNone⟩ := hTail.exists_cons
    obtain rfl := hNone.eq_nil
    have hFirst' : head'.head?.map unplaced = some first.unplaced := by
      rw [← List.head?_map, ← hHead, List.head?_map, hFirst]
      rfl
    have hLast' : head'.getLast?.map unplaced = some last.unplaced := by
      rw [← List.getLast?_map, ← hHead, List.getLast?_map, hLast]
      rfl
    obtain ⟨first', hFirst', hFirstToken⟩ := Option.map_eq_some_iff.mp hFirst'
    obtain ⟨last', hLast', hLastToken⟩ := Option.map_eq_some_iff.mp hLast'
    refine .intro hFirst' ?_ (hNested.of_alike hHead) ?_ hLast' ?_ ?_ ?_
    · rwa [text_of_alike hFirstToken.symm]
    · intro u hu
      obtain ⟨t, ht, hToken⟩ := hHead.exists_mem hu
      simpa only [isPunctuation_of_alike hToken] using hPlain t ht
    · rw [isPunctuation_of_alike hLastToken.symm, hParenthesis]
    · rw [isPunctuation_of_alike hOpening, hOpen]
    · rw [isPunctuation_of_alike hClosing, hClose]

end Token

namespace Preprocess

open Token (Alike Nested)

theorem Contained.of_alike {ts us : List Token} (h : Contained ts) (hAlike : Alike ts us) :
    Contained us := by
  refine ⟨h.1.of_alike hAlike, fun u hu => ?_⟩
  obtain ⟨t, ht, hToken⟩ := hAlike.exists_mem hu
  rw [Token.kind_of_alike hToken]
  exact h.2 t ht

theorem Contained.append {ts us : List Token} (h : Contained ts) (h' : Contained us) :
    Contained (ts ++ us) := by
  refine ⟨h.1.append h'.1, fun t ht => ?_⟩
  rcases List.mem_append.mp ht with ht | ht
  · exact h.2 t ht
  · exact h'.2 t ht

theorem AddedBefore.of_alike {options : ReadOptions} {Added : List Token → Prop}
    (hAdded : ∀ ts us, Added ts → Alike ts us → Added us) {ts us : List Token}
    (h : AddedBefore options Added ts) (hAlike : Alike ts us) : AddedBefore options Added us := by
  refine ⟨fun u hu => ?_, hAdded _ _ h.2 (hAlike.filter fun t => rfl)⟩
  obtain ⟨t, ht, hToken⟩ := hAlike.exists_mem hu
  rw [Token.kind_of_alike hToken]
  exact h.1 t ht

end Preprocess

namespace Token

open Preprocess (Contained)

def ReadsAs (Content : List Token → Prop) (text : String) : Prop :=
  ∃ ts, lex 0 "" text = .ok ts ∧ Content ts

/-- Whether a text is read as tokens of some sort wherever it stands in the first file. -/
def Fills (Content : List Token → Prop) (cs : List Char) : Prop :=
  ∃ ls, Leads cs ls ∧ ∀ offset line, Content (ofLexemes 0 offset line ls)

variable {Content : List Token → Prop}

theorem ReadsAs.fills {text : String} (h : ReadsAs Content text)
    (hBreak : text.toList.getLast? = some '\n')
    (hAlike : ∀ ts us, Content ts → Alike ts us → Content us)
    (hPlain : ∀ ts, Content ts → ∀ t ∈ ts, t.kind ≠ .directive) : Fills Content text.toList := by
  obtain ⟨ts, hLex, hContent⟩ := h
  obtain ⟨ls, hTiled, rfl⟩ := lex_eq_ok hLex
  refine ⟨ls, .of_line hTiled hBreak ?_, fun offset line =>
    hAlike _ _ hContent (alike_ofLexemes ls 0 _ _ _ _)⟩
  intro l hl directive hRole
  obtain ⟨passed, rest, rfl⟩ := List.append_of_mem hl
  have hToken (offset line : Nat) : ∃ t, l.toToken? 0 offset line = some t ∧ t.kind = .directive := by
    simp [Lexeme.toToken?, hRole]
  obtain ⟨t, ht, hKind⟩ := hToken (0 + byteLength (charsOf passed)) (1 + linesOf passed)
  refine hPlain _ hContent t ?_ hKind
  rw [ofLexemes_cut, ofLexemes, ht]
  simp

theorem fills_nil : Fills Contained [] :=
  ⟨[], .nil, fun _ _ => ⟨.nil, by simp [ofLexemes]⟩⟩

theorem Fills.append {cs ds : List Char} (h : Fills Contained cs) (h' : Fills Contained ds) :
    Fills Contained (cs ++ ds) := by
  obtain ⟨ls, hLeads, hContent⟩ := h
  obtain ⟨ms, hLeads', hContent'⟩ := h'
  refine ⟨ls ++ ms, hLeads.append hLeads', fun offset line => ?_⟩
  rw [ofLexemes_cut]
  exact (hContent _ _).append (hContent' _ _)

theorem Fills.newline {cs : List Char} (h : Fills Content cs) : Fills Content (cs ++ ['\n']) := by
  obtain ⟨ls, hLeads, hContent⟩ := h
  refine ⟨ls ++ [⟨.newline, ['\n']⟩], hLeads.append .newline, fun offset line => ?_⟩
  rw [ofLexemes_cut]
  simpa [ofLexemes, Lexeme.toToken?] using hContent offset line

theorem isBracket_of_isBlank {t : Token} {c : Char} (h : isBlank c = true)
    (hText : t.text = String.ofList [c]) : t.isBracket = false := by
  have hMarks : ∀ opener ∈ brackets, ∀ mark ∈ [opener, closer opener],
      mark.toList.all (fun d => !isBlank d) = true := by
    decide +kernel
  have hOther {mark : String} (hMark : mark.toList.all (fun d => !isBlank d) = true) :
      t.isPunctuation mark = false := by
    rw [Token.isPunctuation, hText, Bool.and_eq_false_iff, beq_eq_false_iff_ne, beq_eq_false_iff_ne]
    refine .inr ?_
    rintro rfl
    rw [String.toList_ofList, List.all_cons, h] at hMark
    cases hMark
  rw [isBracket, List.any_eq_false]
  intro opener hOpener
  have hFirst := hMarks opener hOpener opener (by simp)
  have hSecond := hMarks opener hOpener (closer opener) (by simp)
  rw [hOther hFirst, hOther hSecond]
  exact Bool.false_ne_true

theorem fills_of_isBlank {cs : List Char} (h : ∀ c ∈ cs, isBlank c = true) : Fills Contained cs := by
  induction cs with
  | nil => exact fills_nil
  | cons c cs ih =>
    rw [← List.singleton_append]
    refine Fills.append ?_ (ih fun d hd => h d (List.mem_cons_of_mem c hd))
    have hBlank := h c List.mem_cons_self
    by_cases hBreak : c = '\n'
    · rw [hBreak]
      exact fills_nil.newline
    · by_cases hInLine : Lexeme.isBlankInLine c = true
      · refine ⟨_, .blank hInLine, fun _ _ => ⟨?_, ?_⟩⟩
        · exact .nil
        · simp [ofLexemes, Lexeme.toToken?]
      · -- white space outside of ASCII is read as a mark
        have hNext (st : Bool) (rest : List Char) :
            Lexeme.next st c rest = .ok ⟨.plain .punctuation, [c]⟩ := by
          have hStarts : Lexeme.StartsToken c rest := by
            refine .of_unlike hBreak ?_ ?_ ?_ hInLine
            · rintro _ rfl
              exact absurd hBlank (by decide)
            · rintro _ rfl
              exact absurd hBlank (by decide)
            · rintro _ rfl
              exact absurd hBlank (by decide)
          have hHash : c ≠ '#' := Lexeme.ne_of_isBlank hBlank (by decide)
          rw [Lexeme.next_of_starts hStarts, if_neg (by simp [hHash]), Lexeme.token_of_isBlank hBlank]
        refine ⟨_, .of_next hNext rfl, fun offset line => ⟨.plain ?_ .nil, ?_⟩⟩
        · exact isBracket_of_isBlank hBlank rfl
        · simp [ofLexemes, Lexeme.toToken?]

end Token

end SkeletonWeave
