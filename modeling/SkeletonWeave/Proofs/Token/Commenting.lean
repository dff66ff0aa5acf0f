import SkeletonWeave.Proofs.Text.Lines
import SkeletonWeave.Proofs.Token.Lead
import SkeletonWeave.Proofs.Token.Replacing

/-!
# Lines as comments

Lines with slashes before them are read as nothing. So they can follow a text
that ends with its line, also one whose last directive goes on over its line
feed: the directive takes the first comment with it and stays what it was.
-/

set_option autoImplicit false

namespace SkeletonWeave

open Text

def Text.commentedLines (lines : List (List Char)) : List Char :=
  lines.flatMap ("// ".toList ++ ·)

namespace Token

open Lexeme (LooksLike)

variable {st : Bool} {cs rest : List Char} {ls : List Lexeme}

theorem Silent.lineStartAfter_eq (h : Silent ls) : lineStartAfter true ls = true := by
  induction ls with
  | nil => rfl
  | cons l ls ih =>
    have hKeeps : l.keepsLineStart true = true := by
      have hNone := h l List.mem_cons_self 0 0 0
      unfold Lexeme.toToken? at hNone
      unfold Lexeme.keepsLineStart
      split at hNone
      · cases hNone
      · cases hNone
      · next hPlain _ =>
        split
        · rfl
        · next kind hRole => exact absurd hRole (hPlain kind)
        · rfl
    rw [lineStartAfter_cons, hKeeps]
    exact ih fun m hm => h m (List.mem_cons_of_mem l hm)

theorem Silent.cons {l : Lexeme} (h : ∀ file offset line, l.toToken? file offset line = none)
    (h' : Silent ls) : Silent (l :: ls) :=
  List.forall_mem_cons.mpr ⟨h, h'⟩

theorem silent_of_ofLexemes {file offset line : Nat} {ls : List Lexeme}
    (h : ofLexemes file offset line ls = []) : Silent ls := by
  induction ls generalizing offset line with
  | nil => simp [Silent]
  | cons l ls ih =>
    rw [ofLexemes, List.append_eq_nil_iff, Option.toList_eq_nil_iff] at h
    refine Silent.cons (fun file' offset' line' => ?_) (ih h.2)
    have hSame := h.1
    unfold Lexeme.toToken? at hSame ⊢
    split at hSame
    · cases hSame
    · cases hSame
    · rfl

namespace Tiled

theorem newline (h : Tiled true rest ls) : Tiled st ('\n' :: rest) (⟨.newline, ['\n']⟩ :: ls) :=
  .step rfl rfl h

theorem comment {more : List Char} (hMore : '\n' ∉ more) (hEnd : ∀ c ∈ rest.head?, c = '\n')
    (h : Tiled st rest ls) :
    Tiled st ('/' :: '/' :: (more ++ rest)) (⟨.comment, '/' :: '/' :: more⟩ :: ls) :=
  .step (Lexeme.next_comment st hMore (by simpa [Option.all_eq_true] using hEnd)) rfl h

end Tiled

theorem exists_comment {lines : List (List Char)} (h : Lined lines) (hSome : lines ≠ []) :
    ∃ more after, commentedLines lines = '/' :: '/' :: (more ++ after) ∧ '\n' ∉ more ∧
      (∀ c ∈ after.head?, c = '\n') ∧ ∀ st, ∃ ls, Tiled st after ls ∧ Silent ls := by
  induction h with
  | none => exact absurd rfl hSome
  | @last line _ hLine =>
    refine ⟨' ' :: line, [], by simp [commentedLines], by simpa using hLine, by simp, fun st => ?_⟩
    exact ⟨[], .done st, by simp [Silent]⟩
  | @whole line lines hLine hLined ih =>
    refine ⟨' ' :: line, '\n' :: commentedLines lines, by simp [commentedLines], by simpa using hLine,
      by simp, fun st => ?_⟩
    have hRest : ∃ ls, Tiled true (commentedLines lines) ls ∧ Silent ls := by
      by_cases hNone : lines = []
      · exact ⟨[], by rw [hNone]; exact .done true, by simp [Silent]⟩
      · obtain ⟨more, after, hText, hMore, hEnd, hAfter⟩ := ih hNone
        obtain ⟨ls, hTiled, hSilent⟩ := hAfter true
        rw [hText]
        exact ⟨_, hTiled.comment hMore hEnd, hSilent.cons fun _ _ _ => rfl⟩
    obtain ⟨ls, hTiled, hSilent⟩ := hRest
    exact ⟨_, hTiled.newline, hSilent.cons fun _ _ _ => rfl⟩

theorem directiveLine_of_next {c : Char} {l : Lexeme} {text : List Char}
    (h : Lexeme.next st c cs = .ok l) (hRole : l.role = .directive text) :
    (c = '#' && st) = true ∧ Lexeme.StartsToken c cs ∧ Lexeme.directiveLine cs = .ok l := by
  by_cases hStarts : Lexeme.StartsToken c cs
  · rw [Lexeme.next_of_starts hStarts] at h
    split at h
    · next hMark => exact ⟨hMark, hStarts, h⟩
    · have hEnds := (Lexeme.token_cut hStarts.not_blank hStarts.not_break h).2 ['#']
      cases hEnds with
      | newline hLexeme => rw [hLexeme] at hRole; cases hRole
      | joint hLexeme => rw [hLexeme] at hRole; cases hRole
      | blank _ hLexeme => rw [hLexeme] at hRole; cases hRole
      | line hOther => rw [hOther] at hRole; cases hRole
      | block hOther => rw [hOther] at hRole; cases hRole
      | literal hOther => rw [hOther] at hRole; cases hRole
      | token hOther => rw [hOther] at hRole; cases hRole
      | directive _ hHead => exact absurd (hHead '#' rfl) (by decide)
  · unfold Lexeme.next at h
    split at h
    · cases h; cases hRole
    · cases h; cases hRole
    · cases h; cases hRole
    · split at h
      · cases h; cases hRole
      · cases h
    · next hBreak hJoint hLine hBlock =>
      split at h
      · cases h; cases hRole
      · next hBlank =>
        exact absurd (.of_unlike hBreak hJoint hLine hBlock hBlank) hStarts

theorem exists_directive_before_comment {l : Lexeme} {text : List Char} (h : Tiled st cs [l])
    (hRole : l.role = .directive text) (hBreak : cs.getLast? = some '\n') {more after : List Char}
    (hMore : '\n' ∉ more) (hEnd : ∀ c ∈ after.head?, c = '\n') :
    ∃ part, cs = '#' :: part ∧ l.chars = '#' :: part ∧
      Lexeme.next st '#' (part ++ '/' :: '/' :: (more ++ after)) =
        .ok ⟨.directive text, '#' :: part ++ '/' :: '/' :: more⟩ := by
  cases h with
  | @step _ c part rest _ _ hNext hCut hDone =>
    cases hDone
    rw [List.append_nil] at hCut
    obtain ⟨hMark, hStarts, hLine⟩ := directiveLine_of_next hNext hRole
    obtain ⟨rfl, hStart⟩ : c = '#' ∧ st = true := by simpa using hMark
    have hLast : part.getLast? = some '\n' := by
      cases part with
      | nil => exact absurd hBreak (by decide)
      | cons d part => simpa using hBreak
    refine ⟨part, rfl, hCut.symm, ?_⟩
    unfold Lexeme.directiveLine at hLine
    split at hLine
    · next taken logical hRead =>
      cases hLine
      change '#' :: part = taken.reverse at hCut
      have hTaken : taken = part.reverse ++ ['#'] := by
        rw [← List.reverse_reverse taken, ← hCut, List.reverse_cons]
      rw [hTaken] at hRead
      have hFirst : Lexeme.lineRest ('/' :: '/' :: (more ++ after)) = '/' :: '/' :: more :=
        @Lexeme.lineRest_append ('/' :: '/' :: more) after (by simpa using hMore) hEnd
      rw [Lexeme.next_of_starts (hStarts.looksLike (Lexeme.looksLike_of_break hLast _)), if_pos hMark,
        Lexeme.directiveLine, Lexeme.directiveRestOnto_before_comment hRead hLast, hFirst]
      cases hRole
      simp
    · cases hLine

namespace Replaces

variable {w : Rewrite} {Content Added : List Token → Prop} {file offset line : Nat}
  {more : List Lexeme}

theorem lead {passed new : List Lexeme} {added : List Char} (hPassed : Silent passed)
    (hNew : Silent new) (hTiled : ∀ more, Tiled true rest more → Tiled true (added ++ rest) (new ++ more))
    (h : Replaces w Content Added true file (offset + byteLength (charsOf passed))
      (line + linesOf passed) more rest) :
    Replaces w Content Added true file offset line (passed ++ more) (added ++ rest) := by
  obtain ⟨more', hMore, hRewritten⟩ := h
  refine ⟨new ++ more', hTiled more' hMore, fun offset' line' => ?_⟩
  rw [ofLexemes_cut, ofLexemes_cut, hPassed.ofLexemes_eq, hNew.ofLexemes_eq]
  exact hRewritten _ _

theorem of_alike {new : List Lexeme} (hTiled : Tiled st cs new)
    (hAlike : ∀ offset line offset' line',
      Alike (ofLexemes file offset line ls) (ofLexemes file offset' line' new))
    (hSpares : SparesBodies w (ofLexemes file offset line ls)) :
    Replaces w Content Added st file offset line ls cs :=
  ⟨new, hTiled, fun _ _ => rewritten_of_alike (hAlike _ _ _ _) hSpares⟩

theorem comments {lines : List (List Char)} (hLined : Lined lines) (h : Tiled st cs ls)
    (hBreak : lines ≠ [] → cs.getLast? = some '\n')
    (hSpares : SparesBodies w (ofLexemes file offset line ls)) :
    Replaces w Content Added st file offset line ls (cs ++ commentedLines lines) := by
  by_cases hSome : lines = []
  · rw [hSome, commentedLines, List.flatMap_nil, List.append_nil]
    exact same h hSpares
  · obtain ⟨more, after, hText, hMore, hEnd, hAfter⟩ := exists_comment hLined hSome
    replace hBreak := hBreak hSome
    have hChars : cs = charsOf ls := h.flatMap_chars
    rw [hText, hChars]
    rw [hChars] at h hBreak
    obtain ⟨init, last, rfl, hLast⟩ := Tiled.exists_last (by rw [hBreak]; simp)
      fun l hl => (h.sound l hl).2
    rw [hBreak] at hLast
    by_cases hDirective : ∃ text, last.role = .directive text
    · -- the last directive reads on through the first comment
      obtain ⟨text, hRole⟩ := hDirective
      have hInit : Tiled st (charsOf init ++ last.chars) (init ++ [last]) := by
        simpa using h
      obtain ⟨part, hPart, -, hNext⟩ :=
        exists_directive_before_comment hInit.cut_eq hRole hLast hMore hEnd
      obtain ⟨later, hLater, hSilent⟩ := hAfter (lineStartAfter st init)
      have hTail : Tiled (lineStartAfter st init) ('#' :: (part ++ '/' :: '/' :: (more ++ after)))
          (⟨.directive text, '#' :: part ++ '/' :: '/' :: more⟩ :: later) :=
        .step hNext (by simp) hLater
      rw [hPart] at hInit
      have hWhole := hInit.exchange (.of_cons (by decide) (by decide) _ _) hTail
      have hTiled : Tiled st (charsOf (init ++ [last]) ++ '/' :: '/' :: (more ++ after))
          (init ++ ⟨.directive text, '#' :: part ++ '/' :: '/' :: more⟩ :: later) := by
        simpa [hPart] using hWhole
      refine of_alike hTiled (fun offset line offset' line' => ?_) hSpares
      rw [ofLexemes_cut, ofLexemes_cut]
      refine (alike_ofLexemes init file _ _ _ _).append ?_
      rw [ofLexemes, ofLexemes, ofLexemes, hSilent.ofLexemes_eq, List.append_nil, List.append_nil]
      simp only [Lexeme.toToken?, hRole]
      rfl
    · obtain ⟨later, hLater, hSilent⟩ := hAfter (lineStartAfter st (init ++ [last]))
      have hWhole : Tiled st (charsOf (init ++ [last]) ++ '/' :: '/' :: (more ++ after))
          (init ++ [last] ++ ⟨.comment, '/' :: '/' :: more⟩ :: later) := by
        have hNone : Tiled st (charsOf (init ++ [last]) ++ []) (init ++ [last] ++ []) := by
          simpa using h
        refine hNone.exchange_after_break hBreak ?_ (hLater.comment hMore hEnd)
        intro l hl text hRole
        simp only [List.getLast?_append, List.getLast?_singleton, Option.some_or, Option.mem_def,
          Option.some.injEq] at hl
        exact absurd ⟨text, hl ▸ hRole⟩ hDirective
      have hNone : Silent (⟨.comment, '/' :: '/' :: more⟩ :: later) := hSilent.cons fun _ _ _ => rfl
      refine of_alike hWhole (fun offset line offset' line' => ?_) hSpares
      rw [ofLexemes_cut _ _ _ (init ++ [last]), hNone.ofLexemes_eq, List.append_nil]
      exact alike_ofLexemes _ file _ _ _ _

end Replaces

end Token

end SkeletonWeave
