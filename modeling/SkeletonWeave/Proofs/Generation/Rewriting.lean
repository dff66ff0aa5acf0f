import SkeletonWeave.Proofs.Generation.Edits
import SkeletonWeave.Proofs.Token.Bracing
import SkeletonWeave.Proofs.Token.Commenting
import SkeletonWeave.Proofs.Token.Filling

/-!
# The edits as a rewriting

The source of the server is read in the place of the kept part of the skeleton:
the banner for the first comment, the stubs before the keyword of the handler,
the new bodies between their braces, and the comments as nothing.
-/

set_option autoImplicit false

namespace SkeletonWeave

open Text

namespace Generation

open Bridge
open Edit (splice splice_append_of_le splice_cons splice_nil)
open Preprocess (AddedBefore Contained)
open Token (Braced Fills ReadsAs Replaces Tiled brace charsOf linesOf ofLexemes)

variable {c : Configuration} {file : Source.File} {w : Rewrite} {Content Added : List Token → Prop}

theorem isBlank_of_mem_unit {indent : Code.Indent} {b : Char} (h : b ∈ indent.unit.toList) :
    isBlank b = true := by
  cases indent with
  | tab =>
    obtain rfl : b = '\t' := by simpa [Code.Indent.unit] using h
    decide
  | spaces width =>
    rw [Code.Indent.unit, String.pushn_eq_repeat_push] at h
    induction width with
    | zero => simp [Nat.repeat] at h
    | succ width ih =>
      rw [Nat.repeat, String.toList_push, List.mem_append, List.mem_singleton] at h
      rcases h with h | rfl
      · exact ih h
      · decide

theorem fills_lines {lines : List String} (hLines : ∀ line ∈ lines, ReadsAs Contained (line ++ "\n"))
    {f : Code.Fragment} (h : Fills Contained f.text.toList) :
    Fills Contained (f.lines lines).text.toList := by
  induction lines generalizing f with
  | nil => exact h
  | cons line lines ih =>
    refine ih (fun other hOther => hLines other (List.mem_cons_of_mem _ hOther)) (f := f.line line) ?_
    have hLead : Fills Contained (String.join (List.replicate f.level f.indent.unit)).toList := by
      refine Token.fills_of_isBlank fun b hb => ?_
      simp only [String.toList_join, List.mem_flatMap, List.mem_replicate] at hb
      obtain ⟨_, ⟨-, rfl⟩, hb⟩ := hb
      exact isBlank_of_mem_unit hb
    have hLine : Fills Contained (line ++ "\n").toList :=
      (hLines line List.mem_cons_self).fills (by simp) (fun _ _ => Preprocess.Contained.of_alike)
        fun _ hContained => hContained.2
    have hText : (f.line line).text.toList = f.text.toList ++
        ((String.join (List.replicate f.level f.indent.unit)).toList ++ (line ++ "\n").toList) := by
      simp [Code.Fragment.line, Code.Fragment.raw]
    rw [hText]
    exact h.append (hLead.append hLine)

theorem isBlank_of_mem_indent {position : Nat} {indent : String}
    (h : indentBefore? file position = some indent) : ∀ b ∈ indent.toList, isBlank b = true := by
  obtain ⟨start, -, hLead⟩ := Option.bind_eq_some_iff.mp h
  obtain rfl := Option.some.inj hLead
  split
  · next hAll =>
    rw [String.toList_ofList]
    exact List.all_eq_true.mp hAll
  · simp

theorem fills_plannedBody {plan : MethodPlan}
    (h : ∀ line ∈ plan.call.bodyLines c, ReadsAs Contained (line ++ "\n")) :
    Fills Contained (plannedBody c file plan).toList := by
  have hBlank : Fills Contained (Code.Fragment.atLevel (.ofEmit c.emit) 1).blank.text.toList := by
    simpa [Code.Fragment.atLevel, Code.Fragment.blank, Code.Fragment.raw] using Token.fills_nil.newline
  have hIndent : ∀ b ∈ ((indentBefore? file plan.body.closing.start).getD "").toList,
      isBlank b = true := by
    cases hIndent : indentBefore? file plan.body.closing.start with
    | none => simp
    | some indent => exact isBlank_of_mem_indent hIndent
  simp only [plannedBody, replacementBody, Code.Fragment.raw, String.toList_append]
  exact (fills_lines h hBlank).append (Token.fills_of_isBlank hIndent)

theorem fills_stub {options : ReadOptions} {indent : Code.Indent} {stub : Stub}
    (h : ReadsAs (AddedBefore options Token.IsStub) (stub.render indent)) :
    Fills (AddedBefore options Token.IsStub) (stub.render indent ++ "\n").toList := by
  have hBreak : (stub.render indent).toList.getLast? = some '\n' := by
    simp [Stub.render, Code.Fragment.line, Code.Fragment.raw]
  have hFills := h.fills hBreak (fun _ _ => Preprocess.AddedBefore.of_alike fun _ _ => Token.IsStub.of_alike)
    fun _ hAdded => hAdded.1
  rw [String.toList_append]
  exact hFills.newline

theorem splice_plannedEdit {plan : MethodPlan} {plans : List MethodPlan} {offset : Nat}
    {before within after : List Char}
    (hOpening : plan.body.opening.stop = offset + byteLength before + 1)
    (hClosing : plan.body.closing.start = offset + byteLength before + 1 + byteLength within)
    (hLater : ∀ later ∈ plans, plan.body.closing.start + 1 ≤ later.body.opening.stop) :
    splice ((plan :: plans).map (plannedEdit c file)) offset
        (before ++ '\x7b' :: (within ++ '\x7d' :: after)) =
      before ++ '\x7b' :: ((plannedBody c file plan).toList ++
        '\x7d' :: splice (plans.map (plannedEdit c file)) (plan.body.closing.start + 1) after) := by
  have hFirst : (plannedEdit c file plan).start = offset + byteLength (before ++ ['\x7b']) := by
    rw [byteLength_append]
    exact hOpening
  have hRange : (plannedEdit c file plan).start + byteLength within = (plannedEdit c file plan).stop := by
    show plan.body.opening.stop + _ = plan.body.closing.start
    rw [hOpening, hClosing]
  have hEdits : ∀ e ∈ plans.map (plannedEdit c file), (plannedEdit c file plan).stop + 1 ≤ e.start := by
    intro e he
    obtain ⟨later, hMem, rfl⟩ := List.mem_map.mp he
    exact hLater later hMem
  have hAll : ∀ e ∈ (plan :: plans).map (plannedEdit c file),
      offset + byteLength (before ++ ['\x7b']) ≤ e.start := by
    refine List.forall_mem_cons.mpr ⟨Nat.le_of_eq hFirst.symm, fun e he => ?_⟩
    have := hEdits e he
    omega
  calc splice ((plan :: plans).map (plannedEdit c file)) offset
        (before ++ '\x7b' :: (within ++ '\x7d' :: after))
      = splice ((plan :: plans).map (plannedEdit c file)) offset
          (before ++ ['\x7b'] ++ (within ++ (['\x7d'] ++ after))) := by simp
    _ = before ++ ['\x7b'] ++ splice ((plan :: plans).map (plannedEdit c file)) (plannedEdit c file plan).start
          (within ++ (['\x7d'] ++ after)) := by rw [splice_append_of_le _ _ hAll, hFirst]
    _ = before ++ ['\x7b'] ++ ((plannedBody c file plan).toList ++
          splice (plans.map (plannedEdit c file)) (plannedEdit c file plan).stop (['\x7d'] ++ after)) := by
        rw [List.map_cons, splice_cons _ _ hRange fun e he => Nat.le_of_succ_le (hEdits e he)]
        rfl
    _ = before ++ ['\x7b'] ++ ((plannedBody c file plan).toList ++ (['\x7d'] ++
          splice (plans.map (plannedEdit c file)) (plan.body.closing.start + 1) after)) := by
        rw [splice_append_of_le _ _ hEdits]
        rfl
    _ = _ := by simp

/-- The new bodies are read in the place of the old ones, and comments after the last line. -/
theorem replaces_bodies (Added : List Token → Prop) {plans : List MethodPlan}
    {lines : List (List Char)} (hLined : Lined lines)
    (hFile : file.id = 0) {st : Bool} {cs : List Char} {ls : List Lexeme} {offset line : Nat} (h : Tiled st cs ls)
    (hBraced : Braced w (plans.map (·.body)) (ofLexemes file.id offset line ls))
    (hFills : ∀ plan ∈ plans, Fills Content (plannedBody c file plan).toList)
    (hBreak : lines ≠ [] → cs.getLast? = some '\n') :
    Replaces w Content Added st file.id offset line ls
      (splice (plans.map (plannedEdit c file)) offset cs ++ commentedLines lines) := by
  -- by induction on the plans, each of which takes the text up to its closing brace
  induction plans generalizing st cs ls offset line with
  | nil =>
    cases hBraced with
    | done hSpares =>
      rw [List.map_nil, splice_nil]
      exact .comments hLined h hBreak hSpares
  | cons plan plans ih =>
    generalize hTokens : ofLexemes file.id offset line ls = ts at hBraced
    cases hBraced with
    | @body _ _ before inside after opening closing hBody hOpening hClosing hOpen hClose hSpares hAfter =>
      obtain ⟨passed, within, more, rfl, rfl, hOpened, hClosed, rfl⟩ :=
        Token.exists_body hTokens hOpen hClose
      obtain ⟨new, hLeads, hContent⟩ := hFills plan List.mem_cons_self
      rw [hOpening] at hOpened
      rw [hClosing] at hClosed
      have hStart : plan.body.opening.stop = offset + byteLength (charsOf passed) + 1 := by
        rw [hOpened]
      have hStop : plan.body.closing.start =
          offset + byteLength (charsOf passed) + 1 + byteLength (charsOf within) := by
        rw [hClosed]
      have hChars : cs = charsOf passed ++ '\x7b' :: (charsOf within ++ '\x7d' :: charsOf more) := by
        rw [h.flatMap_chars]
        exact (Token.charsOf_append _ _).trans (by simp [brace])
      subst hChars
      have hMore : Tiled false (charsOf more) more := by
        have hWhole : Tiled st
            (charsOf (passed ++ brace '\x7b' :: (within ++ [brace '\x7d'])) ++ charsOf more)
            (passed ++ brace '\x7b' :: (within ++ [brace '\x7d']) ++ more) := by
          simpa [brace] using h
        simpa [Lexeme.keepsLineStart, brace] using hWhole.cut_eq
      have hLater : ∀ later ∈ plans, plan.body.closing.start + 1 ≤ later.body.opening.stop := by
        intro later hMem
        obtain ⟨t, ht, hSpan, -⟩ := hAfter.exists_opening later.body (List.mem_map_of_mem hMem)
        have hFirst := Token.le_start_of_mem_ofLexemes ht
        have hWidth := Token.start_le_stop_of_mem_ofLexemes ht
        rw [← hSpan, hStop]
        omega
      have hEnd : lines ≠ [] → (charsOf more).getLast? = some '\n' := by
        intro hLines
        have hLine := hBreak hLines
        have hCut : charsOf passed ++ '\x7b' :: (charsOf within ++ '\x7d' :: charsOf more) =
            charsOf passed ++ '\x7b' :: charsOf within ++ ['\x7d'] ++ charsOf more := by simp
        rw [hCut, List.getLast?_append] at hLine
        cases hLast : (charsOf more).getLast? with
        | none =>
          rw [hLast, Option.none_or, List.getLast?_concat, Option.some.injEq] at hLine
          exact absurd hLine (by decide)
        | some d => simpa [hLast] using hLine
      have hRest := ih hMore hAfter (fun later hMem => hFills later (List.mem_cons_of_mem _ hMem)) hEnd
      rw [splice_plannedEdit hStart hStop hLater, List.append_assoc, List.cons_append, List.append_assoc,
        List.cons_append, hStop]
      refine .keep h (.of_cons (by decide) (by decide) _ _) hSpares ?_
      exact .body hBody hOpened hClosed hLeads (fun _ _ => hFile ▸ hContent _ _) hRest

end Generation

end SkeletonWeave
