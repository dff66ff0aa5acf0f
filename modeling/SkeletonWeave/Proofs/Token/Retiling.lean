import Mathlib.Data.List.Induction
import SkeletonWeave.Proofs.Token.Relexing

/-!
# Texts with other ends

The lexemes at the start of a text stay what they are when what follows them is
exchanged for what looks alike. After a line feed that no directive takes, any
other text may follow.
-/

set_option autoImplicit false

namespace SkeletonWeave

namespace Token

open Lexeme (LooksLike)
open Text

def lineStartAfter (atLineStart : Bool) (ls : List Lexeme) : Bool :=
  ls.foldl (fun st l => l.keepsLineStart st) atLineStart

def charsOf (ls : List Lexeme) : List Char := ls.flatMap (·.chars)

@[simp] theorem charsOf_nil : charsOf [] = [] := (rfl)

@[simp] theorem charsOf_cons (l : Lexeme) (ls : List Lexeme) :
    charsOf (l :: ls) = l.chars ++ charsOf ls := List.flatMap_cons

@[simp] theorem charsOf_append (ls more : List Lexeme) :
    charsOf (ls ++ more) = charsOf ls ++ charsOf more := List.flatMap_append

@[simp] theorem lineStartAfter_cons (atLineStart : Bool) (l : Lexeme) (ls : List Lexeme) :
    lineStartAfter atLineStart (l :: ls) = lineStartAfter (l.keepsLineStart atLineStart) ls := (rfl)

@[simp] theorem lineStartAfter_nil (atLineStart : Bool) : lineStartAfter atLineStart [] = atLineStart :=
  (rfl)

@[simp] theorem lineStartAfter_append (atLineStart : Bool) (ls more : List Lexeme) :
    lineStartAfter atLineStart (ls ++ more) = lineStartAfter (lineStartAfter atLineStart ls) more :=
  List.foldl_append

namespace Tiled

variable {atLineStart : Bool} {cs rest rest' : List Char} {l : Lexeme} {ls more more' : List Lexeme}

theorem cut_append (h : Tiled atLineStart cs (ls ++ more)) :
    ∃ rest, cs = charsOf ls ++ rest ∧ Tiled (lineStartAfter atLineStart ls) rest more := by
  induction ls generalizing atLineStart cs with
  | nil => exact ⟨cs, rfl, h⟩
  | cons l ls ih =>
    cases h with
    | step _ hCut hRest =>
      obtain ⟨rest, rfl, hMore⟩ := ih hRest
      exact ⟨rest, by rw [hCut, charsOf_cons, List.append_assoc], hMore⟩

theorem cut_eq (h : Tiled atLineStart (charsOf ls ++ rest) (ls ++ more)) :
    Tiled (lineStartAfter atLineStart ls) rest more := by
  obtain ⟨rest', hCut, hMore⟩ := h.cut_append
  rwa [List.append_cancel_left hCut]

theorem exists_step (h : Tiled atLineStart cs (l :: more)) :
    ∃ c part rest, l.chars = c :: part ∧ cs = c :: part ++ rest ∧ l.Ends rest ∧
      Tiled (l.keepsLineStart atLineStart) rest more ∧
      ∀ rest', LooksLike rest rest' → Lexeme.next atLineStart c (part ++ rest') = .ok l := by
  cases h with
  | @step _ c cs rest _ _ hNext hCut hRest =>
    obtain ⟨part, after, hChars, rfl, hEnds, hRead⟩ := Lexeme.next_cut hNext
    rw [hChars, List.cons_append, List.cons.injEq, List.append_cancel_left_eq] at hCut
    obtain ⟨-, rfl⟩ := hCut
    exact ⟨c, part, after, hChars, rfl, hEnds, hRest, hRead⟩

theorem exchange (h : Tiled atLineStart (charsOf ls ++ rest) (ls ++ more)) (hLike : LooksLike rest rest')
    (h' : Tiled (lineStartAfter atLineStart ls) rest' more') :
    Tiled atLineStart (charsOf ls ++ rest') (ls ++ more') := by
  induction ls generalizing atLineStart with
  | nil => exact h'
  | cons l ls ih =>
    obtain ⟨c, part, after, hChars, hCut, -, hRest, hRead⟩ := h.exists_step
    rw [charsOf_cons, hChars, List.append_assoc, List.append_cancel_left_eq] at hCut
    subst hCut
    have hLater := ih hRest h'
    rw [charsOf_cons, List.append_assoc, hChars]
    exact .step (hRead _ (hLike.append _)) (by rw [hChars]; rfl) hLater

theorem exists_last (hLast : (charsOf ls).getLast? ≠ none)
    (hNe : ∀ l ∈ ls, l.chars ≠ []) : ∃ init l, ls = init ++ [l] ∧
      l.chars.getLast? = (charsOf ls).getLast? := by
  rcases List.eq_nil_or_concat ls with rfl | ⟨init, l, rfl⟩
  · exact absurd rfl hLast
  · rw [List.concat_eq_append] at hNe ⊢
    refine ⟨init, l, rfl, ?_⟩
    have hSome := List.getLast?_eq_some_getLast (hNe l (by simp))
    rw [charsOf_append, charsOf_cons, charsOf_nil, List.append_nil, List.getLast?_append, hSome,
      Option.some_or]

theorem exchange_after_break (h : Tiled atLineStart (charsOf ls ++ rest) (ls ++ more))
    (hBreak : (charsOf ls).getLast? = some '\n')
    (hDirective : ∀ l ∈ ls.getLast?, ∀ text, l.role = .directive text → ∃ c ∈ rest.head?, c ≠ '\n')
    (h' : Tiled (lineStartAfter atLineStart ls) rest' more') :
    Tiled atLineStart (charsOf ls ++ rest') (ls ++ more') := by
  obtain ⟨init, l, rfl, hLast⟩ := exists_last (by rw [hBreak]; simp)
    fun l hl => (h.sound l (List.mem_append_left more hl)).2
  rw [hBreak] at hLast
  have hTail : Tiled (lineStartAfter atLineStart init) (l.chars ++ rest) (l :: more) := by
    rw [charsOf_append, List.append_assoc, List.append_assoc] at h
    simpa using h.cut_eq
  obtain ⟨c, part, after, hChars, hCut, hEnds, -, -⟩ := hTail.exists_step
  rw [hChars, List.append_cancel_left_eq] at hCut
  subst hCut
  have hClosed {c : Char} {part : List Char} (hRead : ∀ rest', Lexeme.next
      (lineStartAfter atLineStart init) c (part ++ rest') = .ok l) (hChars : l.chars = c :: part)
      (hPoint : c ≠ '.') (hReturn : c ≠ '\r') :
      Tiled atLineStart (charsOf (init ++ [l]) ++ rest') (init ++ [l] ++ more') := by
    have hStep : Tiled (lineStartAfter atLineStart init) (c :: part ++ rest') (l :: more') :=
      .step (hRead rest') (by rw [hChars]; rfl) (by simpa using h')
    rw [charsOf_append, charsOf_cons, charsOf_nil, List.append_nil, List.append_assoc,
      List.append_assoc, List.singleton_append, hChars] at h ⊢
    exact h.exchange (.of_cons hPoint hReturn _ _) hStep
  cases hEnds with
  | newline hLexeme =>
    rw [hLexeme] at hClosed ⊢
    exact hClosed (c := '\n') (fun _ => rfl) rfl (by decide) (by decide)
  | joint hLexeme =>
    rw [hLexeme] at hClosed ⊢
    exact hClosed (c := '\\') (fun _ => rfl) rfl (by decide) (by decide)
  | blank hBlank hLexeme =>
    rw [hLexeme, List.getLast?_singleton, Option.some.injEq] at hLast
    rw [hLast] at hBlank
    exact absurd hBlank (by decide)
  | line _ hLine => exact absurd (List.mem_of_getLast? hLast) hLine
  | block _ hSlash =>
    rw [hLast] at hSlash
    cases hSlash
  | literal _ hQuote hEnd =>
    rw [hLast, Option.some.injEq] at hEnd
    rw [← hEnd] at hQuote
    exact absurd hQuote (by decide)
  | token _ hPlain => exact absurd rfl (hPlain _ (List.mem_of_getLast? hLast)).2
  | directive hRole hHead =>
    obtain ⟨d, hd, hOther⟩ := hDirective l (by simp) _ hRole
    exact absurd (hHead d hd) hOther

theorem exists_blanks {before blanks : List Char} {c : Char}
    (h : Tiled atLineStart (charsOf ls ++ c :: rest) (ls ++ more)) (hChars : charsOf ls = before ++ blanks)
    (hBlanks : ∀ b ∈ blanks, Lexeme.isBlankInLine b = true) (hOther : c ≠ '\n') :
    ∃ first, ls = first ++ blanks.map (fun b => ⟨.blank, [b]⟩) ∧ charsOf first = before := by
  induction blanks using List.reverseRecOn generalizing ls more c rest with
  | nil => exact ⟨ls, by simp, by simpa using hChars⟩
  | append_singleton blanks b ih =>
    obtain ⟨init, l, rfl, hLast⟩ := exists_last (by rw [hChars]; simp)
      fun l hl => (h.sound l (List.mem_append_left more hl)).2
    have hBlank := hBlanks b (by simp)
    have hEnd : l.chars.getLast? = some b := by
      rw [hLast, hChars]
      simp
    have hTail : Tiled (lineStartAfter atLineStart init) (l.chars ++ c :: rest) (l :: more) := by
      rw [charsOf_append, List.append_assoc, List.append_assoc] at h
      simpa using h.cut_eq
    obtain ⟨d, part, after, hFirst, hCut, hEnds, -, -⟩ := hTail.exists_step
    rw [hFirst, List.append_cancel_left_eq] at hCut
    subst hCut
    have hLexeme : l = ⟨.blank, [b]⟩ := by
      have hNot {d : Char} (hd : Lexeme.isBlankInLine d = false) : l.chars.getLast? ≠ some d := by
        rw [hEnd]
        rintro ⟨⟩
        rw [hBlank] at hd
        cases hd
      cases hEnds with
      | newline hLexeme =>
        rw [hLexeme] at hNot
        exact absurd rfl (hNot (d := '\n') (by decide))
      | joint hLexeme =>
        rw [hLexeme] at hNot
        exact absurd rfl (hNot (d := '\n') (by decide))
      | blank _ hLexeme =>
        rw [hLexeme, List.getLast?_singleton, Option.some.injEq] at hEnd
        rw [hLexeme, hEnd]
      | line _ _ hHead => exact absurd (hHead c rfl) hOther
      | block _ hSlash => exact absurd hSlash (hNot (by decide))
      | @literal _ quote _ hQuote hLiteral =>
        refine absurd hLiteral (hNot ?_)
        simp only [Lexeme.isQuote, Bool.or_eq_true, beq_iff_eq] at hQuote
        rcases hQuote with rfl | rfl
        · decide
        · decide
      | token _ hPlain =>
        have hPlain := (hPlain b (List.mem_of_getLast? hEnd)).1
        rw [hBlank] at hPlain
        cases hPlain
      | directive _ hHead => exact absurd (hHead c rfl) hOther
    subst hLexeme
    have hInit : charsOf init = before ++ blanks := by
      rw [charsOf_append, charsOf_cons, charsOf_nil, List.append_nil, ← List.append_assoc] at hChars
      exact (List.append_inj' hChars rfl).1
    have hNext : b ≠ '\n' := by
      rintro rfl
      exact absurd hBlank (by decide)
    have hBefore : Tiled atLineStart (charsOf init ++ b :: c :: rest) (init ++ ⟨.blank, [b]⟩ :: more) := by
      simpa using h
    obtain ⟨first, rfl, hFirst⟩ := ih hBefore hInit (fun d hd => hBlanks d (by simp [hd])) hNext
    exact ⟨first, by simp, hFirst⟩

end Tiled

theorem next_of_plain {c : Char} {cs : List Char} {l : Lexeme} (h : Lexeme.next true c cs = .ok l)
    (hPlain : ∀ text, l.role ≠ .directive text) (atLineStart : Bool) :
    Lexeme.next atLineStart c cs = .ok l := by
  by_cases hStarts : Lexeme.StartsToken c cs
  · rw [Lexeme.next_of_starts hStarts] at h ⊢
    split at h
    · obtain ⟨_, _, -, -, -, ⟨text, hRole⟩, -⟩ := Lexeme.directiveLine_cut h
      exact absurd hRole (hPlain text)
    · next hHash =>
      have hMark : c ≠ '#' := by simpa using hHash
      rw [if_neg (by simp [hMark])]
      exact h
  · unfold Lexeme.next at h ⊢
    split at h
    · exact h
    · exact h
    · exact h
    · exact h
    · next hBreak hJoint hLine hBlock =>
      split at h
      · next hBlank =>
        rw [if_pos hBlank]
        exact h
      · next hBlank =>
        exact absurd (.of_unlike hBreak hJoint hLine hBlock hBlank) hStarts

/-- Without directives it does not matter where on its line a text starts. -/
theorem Tiled.of_plain {cs : List Char} {ls : List Lexeme} (h : Tiled true cs ls)
    (hPlain : ∀ l ∈ ls, ∀ text, l.role ≠ .directive text) (atLineStart : Bool) :
    Tiled atLineStart cs ls := by
  cases atLineStart with
  | true => exact h
  | false =>
    generalize hTrue : true = st at h
    induction h with
    | done => exact .done false
    | @step _ c cs rest l ls hNext hCut hRest ih =>
      subst hTrue
      refine .step (next_of_plain hNext (hPlain l List.mem_cons_self) false) hCut ?_
      cases hKeeps : l.keepsLineStart true with
      | false =>
        have hSame : l.keepsLineStart false = false := by
          unfold Lexeme.keepsLineStart at hKeeps ⊢
          split <;> simp_all
        rw [hSame]
        rwa [hKeeps] at hRest
      | true =>
        cases hOther : l.keepsLineStart false with
        | true => rwa [hKeeps] at hRest
        | false => exact ih (fun m hm => hPlain m (List.mem_cons_of_mem l hm)) hKeeps.symm

/-- Whether a text is read as some lexemes wherever a line goes on, before everything that is read
alike wherever a line goes on. -/
def Leads (cs : List Char) (ls : List Lexeme) : Prop :=
  ∀ rest more, (∀ st, Tiled st rest more) → ∀ st, Tiled st (cs ++ rest) (ls ++ more)

namespace Leads

variable {cs ds : List Char} {ls ms : List Lexeme}

theorem nil : Leads [] [] := fun _ _ h => h

theorem append (h : Leads cs ls) (h' : Leads ds ms) : Leads (cs ++ ds) (ls ++ ms) := by
  intro rest more hRest st
  rw [List.append_assoc, List.append_assoc]
  exact h _ _ (h' rest more hRest) st

theorem of_line (h : Tiled true cs ls) (hBreak : cs.getLast? = some '\n')
    (hPlain : ∀ l ∈ ls, ∀ text, l.role ≠ .directive text) : Leads cs ls := by
  intro rest more hRest st
  have hChars : cs = charsOf ls := h.flatMap_chars
  have hOwn : Tiled st (charsOf ls ++ []) (ls ++ []) := by
    rw [List.append_nil, List.append_nil, ← hChars]
    exact h.of_plain hPlain st
  rw [hChars] at hBreak ⊢
  refine hOwn.exchange_after_break hBreak ?_ (hRest _)
  intro l hl text hRole
  exact absurd hRole (hPlain l (List.mem_of_getLast? hl) text)

theorem of_next {c : Char} {l : Lexeme} (h : ∀ st cs, Lexeme.next st c cs = .ok l)
    (hChars : l.chars = [c]) : Leads [c] [l] := by
  intro rest more hRest st
  exact .step (h st rest) (by rw [hChars]; rfl) (hRest _)

theorem newline : Leads ['\n'] [⟨.newline, ['\n']⟩] :=
  of_next (fun _ _ => rfl) rfl

theorem blank {c : Char} (h : Lexeme.isBlankInLine c = true) : Leads [c] [⟨.blank, [c]⟩] :=
  of_next (Lexeme.next_blank h) rfl

end Leads

theorem next_brace {c : Char} (h : c = '\x7b' ∨ c = '\x7d') (atLineStart : Bool) (cs : List Char) :
    Lexeme.next atLineStart c cs = .ok ⟨.plain .punctuation, [c]⟩ := by
  rcases h with rfl | rfl
  · cases atLineStart <;> rfl
  · cases atLineStart <;> rfl

theorem lexOnto_of_tiled {atLineStart : Bool} {cs : List Char} {ls : List Lexeme}
    (h : Tiled atLineStart cs ls) (taken : List Token) (file offset line : Nat) :
    lexOnto taken file atLineStart offset line cs =
      .ok ((ofLexemes file offset line ls).reverse ++ taken) := by
  induction h generalizing taken offset line with
  | done => rw [lexOnto, ofLexemes]; rfl
  | @step atLineStart c cs rest l ls hNext hCut hRest ih =>
    obtain ⟨part, after, hChars, rfl⟩ := (Lexeme.next_eq_ok hNext).1
    rw [hChars, List.cons_append, List.cons.injEq, List.append_cancel_left_eq] at hCut
    obtain ⟨-, rfl⟩ := hCut
    have hOne : (l.toToken? file offset line).toList.reverse =
        (l.toToken? file offset line).toList := by
      cases l.toToken? file offset line <;> rfl
    have hDrop : (part ++ after).drop (l.chars.length - 1) = after := by
      rw [hChars, List.length_cons, Nat.add_sub_cancel, List.drop_left]
    rw [lexOnto, hNext]
    simp only
    rw [hDrop, ih, ofLexemes, List.reverse_append, hOne, List.append_assoc]

theorem lex_of_tiled {cs : List Char} {ls : List Lexeme} (h : Tiled true cs ls) (file : Nat)
    (name : String) : lex file name (String.ofList cs) = .ok (ofLexemes file 0 1 ls) := by
  rw [lex, lexChars, String.toList_ofList, lexOnto_of_tiled h, List.append_nil]
  show Except.mapError _ (Except.ok _) = _
  rw [List.reverse_reverse]
  rfl

end Token

end SkeletonWeave
