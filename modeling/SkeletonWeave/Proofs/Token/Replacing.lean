import SkeletonWeave.Proofs.Declaration.Rewriting
import SkeletonWeave.Proofs.Token.Retiling

/-!
# Texts in the place of others

A text stands in the place of some lexemes when its tokens are those of the
lexemes with bodies rewritten and functions inserted. Such texts are put
together from the end: a part is kept, a body gets another content, lines are
inserted, and lines at the end become comments.
-/

set_option autoImplicit false

namespace SkeletonWeave

namespace Token

open Lexeme (LooksLike)
open Text

variable {w : Rewrite} {Content Added : List Token → Prop}

def linesOf (ls : List Lexeme) : Nat := (ls.map (·.lines)).sum

theorem ofLexemes_cut (file offset line : Nat) (ls more : List Lexeme) :
    ofLexemes file offset line (ls ++ more) = ofLexemes file offset line ls ++
      ofLexemes file (offset + byteLength (charsOf ls)) (line + linesOf ls) more :=
  ofLexemes_append file offset line ls more

def Silent (ls : List Lexeme) : Prop :=
  ∀ l ∈ ls, ∀ file offset line, l.toToken? file offset line = none

theorem Silent.ofLexemes_eq {ls : List Lexeme} (h : Silent ls) (file offset line : Nat) :
    ofLexemes file offset line ls = [] := by
  induction ls generalizing offset line with
  | nil => rfl
  | cons l ls ih =>
    rw [ofLexemes, h l List.mem_cons_self, ih fun m hm => h m (List.mem_cons_of_mem l hm)]
    rfl

theorem toToken?_alike (l : Lexeme) (file offset line offset' line' : Nat) :
    (l.toToken? file offset line).map unplaced = (l.toToken? file offset' line').map unplaced := by
  unfold Lexeme.toToken?
  split <;> rfl

theorem alike_ofLexemes (ls : List Lexeme) (file offset line offset' line' : Nat) :
    Alike (ofLexemes file offset line ls) (ofLexemes file offset' line' ls) := by
  induction ls generalizing offset line offset' line' with
  | nil => exact .refl []
  | cons l ls ih =>
    have hToken := toToken?_alike l file offset line offset' line'
    rw [ofLexemes, ofLexemes]
    refine Alike.append ?_ (ih _ _ _ _)
    rw [Alike, ← Option.toList_map, ← Option.toList_map, hToken]

theorem rewritten_of_alike {ts us : List Token} (hAlike : Alike ts us)
    (hSpares : ∀ t ∈ ts, ∀ b ∈ w.bodies, t.span ≠ b.opening) : Rewritten w Content Added ts us := by
  induction ts generalizing us with
  | nil =>
    rw [Alike, List.map_nil, eq_comm, List.map_eq_nil_iff] at hAlike
    rw [hAlike]
    exact .nil
  | cons t ts ih =>
    cases us with
    | nil => cases hAlike
    | cons u us =>
      obtain ⟨hFirst, hRest⟩ := List.cons.inj hAlike
      exact .keep hFirst (hSpares t List.mem_cons_self)
        (ih hRest fun v hv => hSpares v (List.mem_cons_of_mem t hv))

/-- Whether a text can be read in the place of lexemes that stand at a position. -/
def Replaces (w : Rewrite) (Content Added : List Token → Prop) (atLineStart : Bool)
    (file offset line : Nat) (ls : List Lexeme) (cs : List Char) : Prop :=
  ∃ ls', Tiled atLineStart cs ls' ∧ ∀ offset' line', Rewritten w Content Added
    (ofLexemes file offset line ls) (ofLexemes file offset' line' ls')

def SparesBodies (w : Rewrite) (ts : List Token) : Prop :=
  ∀ t ∈ ts, ∀ b ∈ w.bodies, t.span ≠ b.opening

def brace (c : Char) : Lexeme := ⟨.plain .punctuation, [c]⟩

namespace Replaces

variable {st : Bool} {file offset line : Nat} {cs rest rest' : List Char} {ls more : List Lexeme}

theorem same (h : Tiled st cs ls) (hSpares : SparesBodies w (ofLexemes file offset line ls)) :
    Replaces w Content Added st file offset line ls cs :=
  ⟨ls, h, fun _ _ => rewritten_of_alike (alike_ofLexemes ls file _ _ _ _) hSpares⟩

theorem of_exchange
    (hTiled : ∀ more', Tiled (lineStartAfter st ls) rest' more' →
      Tiled st (charsOf ls ++ rest') (ls ++ more'))
    (hSpares : SparesBodies w (ofLexemes file offset line ls))
    (h : Replaces w Content Added (lineStartAfter st ls) file (offset + byteLength (charsOf ls))
      (line + linesOf ls) more rest') :
    Replaces w Content Added st file offset line (ls ++ more) (charsOf ls ++ rest') := by
  obtain ⟨more', hMore, hRewritten⟩ := h
  refine ⟨ls ++ more', hTiled more' hMore, fun offset' line' => ?_⟩
  rw [ofLexemes_cut, ofLexemes_cut]
  exact (rewritten_of_alike (alike_ofLexemes ls file _ _ _ _) hSpares).append (hRewritten _ _)

theorem keep (h : Tiled st (charsOf ls ++ rest) (ls ++ more)) (hLike : LooksLike rest rest')
    (hSpares : SparesBodies w (ofLexemes file offset line ls))
    (h' : Replaces w Content Added (lineStartAfter st ls) file (offset + byteLength (charsOf ls))
      (line + linesOf ls) more rest') :
    Replaces w Content Added st file offset line (ls ++ more) (charsOf ls ++ rest') :=
  of_exchange (fun _ hMore => h.exchange hLike hMore) hSpares h'

theorem keepLine (h : Tiled st (charsOf ls ++ rest) (ls ++ more))
    (hBreak : (charsOf ls).getLast? = some '\n') (hHead : ∃ c ∈ rest.head?, c ≠ '\n')
    (hSpares : SparesBodies w (ofLexemes file offset line ls))
    (h' : Replaces w Content Added (lineStartAfter st ls) file (offset + byteLength (charsOf ls))
      (line + linesOf ls) more rest') :
    Replaces w Content Added st file offset line (ls ++ more) (charsOf ls ++ rest') :=
  of_exchange (fun _ hMore => h.exchange_after_break hBreak (fun _ _ _ _ => hHead) hMore) hSpares h'

theorem body {b : Source.Body} {inside new : List Lexeme} {filling : List Char} (hb : b ∈ w.bodies)
    (hOpening : b.opening = ⟨file, offset, offset + 1⟩)
    (hClosing : b.closing = ⟨file, offset + 1 + byteLength (charsOf inside),
      offset + 1 + byteLength (charsOf inside) + 1⟩)
    (hLeads : Leads filling new) (hContent : ∀ offset line, Content (ofLexemes file offset line new))
    (h : Replaces w Content Added false file (offset + 1 + byteLength (charsOf inside) + 1)
      (line + linesOf inside) more rest') :
    Replaces w Content Added st file offset line
      (brace '\x7b' :: (inside ++ brace '\x7d' :: more)) ('\x7b' :: (filling ++ '\x7d' :: rest')) := by
  obtain ⟨more', hMore, hRewritten⟩ := h
  have hClose (st : Bool) : Tiled st ('\x7d' :: rest') (brace '\x7d' :: more') :=
    .step (next_brace (.inr rfl) st rest') rfl hMore
  refine ⟨brace '\x7b' :: (new ++ brace '\x7d' :: more'),
    .step (next_brace (.inl rfl) st _) rfl (hLeads _ _ hClose false), fun offset' line' => ?_⟩
  have hLines (c : Char) : (brace c).lines = 0 := rfl
  have hWidth (c : Char) (hc : c = '\x7b' ∨ c = '\x7d') : byteLength (brace c).chars = 1 := by
    rcases hc with rfl | rfl <;> rfl
  rw [ofLexemes, ofLexemes, ofLexemes_cut, ofLexemes_cut, ofLexemes, ofLexemes, hLines, hLines,
    hWidth _ (.inl rfl), hWidth _ (.inr rfl)]
  exact .body hb hOpening.symm hClosing.symm rfl rfl rfl rfl (hContent _ _) (hRewritten _ _)

end Replaces

def ReplacesAnywhere (w : Rewrite) (Content Added : List Token → Prop) (file offset line : Nat)
    (ls : List Lexeme) (cs : List Char) : Prop :=
  ∃ ls', (∀ st, Tiled st cs ls') ∧ ∀ offset' line', Rewritten w Content Added
    (ofLexemes file offset line ls) (ofLexemes file offset' line' ls')

namespace ReplacesAnywhere

variable {file offset line : Nat} {cs : List Char} {ls : List Lexeme}

theorem replaces (h : ReplacesAnywhere w Content Added file offset line ls cs) (st : Bool) :
    Replaces w Content Added st file offset line ls cs := by
  obtain ⟨ls', hTiled, hRewritten⟩ := h
  exact ⟨ls', hTiled st, hRewritten⟩

theorem insert {new : List Lexeme} {added : List Char} {ts : List Token}
    (hTokens : ofLexemes file offset line ls = w.keyword :: ts) (hLeads : Leads added new)
    (hAdded : ∀ offset line, Added (ofLexemes file offset line new))
    (h : ReplacesAnywhere w Content Added file offset line ls cs) :
    ReplacesAnywhere w Content Added file offset line ls (added ++ cs) := by
  obtain ⟨ls', hTiled, hRewritten⟩ := h
  refine ⟨new ++ ls', hLeads cs ls' hTiled, fun offset' line' => ?_⟩
  rw [ofLexemes_cut, hTokens]
  refine .insert (hAdded _ _) ?_
  rw [← hTokens]
  exact hRewritten _ _

end ReplacesAnywhere

theorem Tiled.anywhere {st : Bool} {blanks cs : List Char} {c : Char} {ls : List Lexeme}
    (h : Tiled st (blanks ++ c :: cs) ls) (hBlanks : ∀ b ∈ blanks, Lexeme.isBlankInLine b = true)
    (hStart : Lexeme.isNameStart c = true) (st' : Bool) : Tiled st' (blanks ++ c :: cs) ls := by
  induction blanks generalizing st st' ls with
  | nil =>
    cases h with
    | @step _ _ _ rest l ls hNext hCut hRest =>
      rw [Lexeme.next_name hStart] at hNext
      have hPlain (st : Bool) : l.keepsLineStart st = false := by
        rcases (Lexeme.word_eq_ok hNext).2 with rfl | hRole | hRole
        · rfl
        · simp [Lexeme.keepsLineStart, hRole]
        · simp [Lexeme.keepsLineStart, hRole]
      refine .step ((Lexeme.next_name hStart).trans hNext) hCut ?_
      rw [hPlain] at hRest ⊢
      exact hRest
  | cons b blanks ih =>
    have hBlank := hBlanks b List.mem_cons_self
    cases h with
    | @step _ _ _ rest l ls hNext hCut hRest =>
      rw [Lexeme.next_blank hBlank] at hNext
      cases hNext
      rw [List.singleton_append, List.cons.injEq] at hCut
      obtain ⟨-, rfl⟩ := hCut
      exact .step (Lexeme.next_blank hBlank st' _) rfl
        (ih hRest (fun d hd => hBlanks d (List.mem_cons_of_mem b hd)) _)

end Token

end SkeletonWeave
