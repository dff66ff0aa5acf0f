import SkeletonWeave.Proofs.Edit.Splice
import SkeletonWeave.Proofs.Generation.Handler
import SkeletonWeave.Proofs.Generation.Stages

/-!
# The edits of the server

Each kind of edits lies in a part of the skeleton: the banner at its start, the
stubs before a line, the bodies between the braces of a class, and the comments
at the starts of lines. What the edits make of their part is told for each kind.
-/

set_option autoImplicit false

namespace SkeletonWeave

open Text

namespace Edit

structure Within (text : List Char) (first last : Nat) (edits : List Edit) : Prop where
  fits : ∀ e ∈ edits, e.Fits text
  bounds : ∀ e ∈ edits, first ≤ e.start ∧ e.stop ≤ last
  inSequence : InSequence edits

namespace Within

variable {text : List Char} {first middle last : Nat}

theorem nil (text : List Char) (first last : Nat) : Within text first last [] :=
  ⟨by simp, by simp, .nil⟩

theorem singleton {e : Edit} (hFits : e.Fits text) (hFirst : first ≤ e.start)
    (hLast : e.stop ≤ last) : Within text first last [e] where
  fits := by simpa using hFits
  bounds := by simpa using ⟨hFirst, hLast⟩
  inSequence := List.pairwise_singleton _ e

theorem append {edits later : List Edit} (h : Within text first middle edits)
    (hLater : Within text middle last later) (hFirst : first ≤ middle) (hLast : middle ≤ last) :
    Within text first last (edits ++ later) where
  fits := by
    intro e he
    rcases List.mem_append.mp he with he | he
    · exact h.fits e he
    · exact hLater.fits e he
  bounds := by
    intro e he
    rcases List.mem_append.mp he with he | he
    · have := h.bounds e he
      omega
    · have := hLater.bounds e he
      omega
  inSequence := by
    refine List.pairwise_append.mpr ⟨h.inSequence, hLater.inSequence, ?_⟩
    intro a ha b hb
    have := h.bounds a ha
    have := hLater.bounds b hb
    omega

theorem mono {edits : List Edit} {first' last' : Nat} (h : Within text first last edits)
    (hFirst : first' ≤ first) (hLast : last ≤ last') : Within text first' last' edits where
  fits := h.fits
  bounds := by
    intro e he
    have := h.bounds e he
    omega
  inSequence := h.inSequence

theorem compatible {edits : List Edit} (h : Within text first last edits) : Compatible edits :=
  h.inSequence.compatible fun e he => (h.fits e he).1

theorem splice_append {edits later : List Edit} {position : Nat} {part : List Char}
    (h : Within text first middle edits) (hLater : Within text middle last later)
    (hPart : position + byteLength part = middle) (rest : List Char) :
    splice (edits ++ later) position (part ++ rest) =
      splice edits position part ++ splice later middle rest := by
  subst hPart
  refine Edit.splice_append part rest ?_ fun e he => (hLater.bounds e he).1
  intro e he
  exact ⟨(h.fits e he).1, (h.bounds e he).2⟩

end Within

end Edit

namespace Generation

open Bridge
open Edit (Within splice splice_cons splice_nil splice_singleton splice_append_of_le)

variable {c : Configuration} {file : Source.File}

def bannerLength (c : Configuration) (text : List Char) : Nat :=
  if c.emit.banner.isEmpty then 0 else leadingCommentLength text

theorem isBoundary_bannerLength (c : Configuration) (text : List Char) :
    IsBoundary text (bannerLength c text) := by
  unfold bannerLength
  split
  · exact ⟨[], text, rfl, rfl⟩
  · refine ⟨((linesWithBreaks text).takeWhile isCommentLine).flatten,
      ((linesWithBreaks text).dropWhile isCommentLine).flatten, ?_, rfl⟩
    rw [← List.flatten_append, List.takeWhile_append_dropWhile, flatten_linesWithBreaks]

theorem within_bannerEdits (c : Configuration) (text : String) :
    Within text.toList 0 (bannerLength c text.toList) (bannerEdits text c.emit.banner) := by
  have hBoundary := isBoundary_bannerLength c text.toList
  unfold bannerLength at hBoundary ⊢
  unfold bannerEdits
  split
  · exact .nil _ _ _
  · next hSome =>
    rw [if_neg hSome] at hBoundary
    exact .singleton ⟨Nat.zero_le _, ⟨[], text.toList, rfl, rfl⟩, hBoundary⟩ (Nat.le_refl _)
      (Nat.le_refl _)

theorem splice_bannerEdits {text : String} {opening : List Char}
    (hLength : byteLength opening = bannerLength c text.toList) :
    splice (bannerEdits text c.emit.banner) 0 opening =
      (String.join (c.emit.banner.map (· ++ "\n"))).toList := by
  unfold bannerEdits
  unfold bannerLength at hLength
  split
  · next hNone =>
    rw [if_pos hNone] at hLength
    rw [splice_nil, List.isEmpty_iff.mp hNone]
    cases opening with
    | nil => rfl
    | cons c cs =>
      have := c.utf8Size_pos
      rw [byteLength_cons] at hLength
      omega
  · next hSome =>
    rw [if_neg hSome] at hLength
    apply splice_singleton opening
    rw [hLength, Nat.zero_add]

theorem isBoundary_lineStart (file : Source.File) (line : Nat) :
    IsBoundary file.text.toList (file.lineStart line) := by
  refine ⟨((linesWithBreaks file.text.toList).take (line - 1)).flatten,
    ((linesWithBreaks file.text.toList).drop (line - 1)).flatten, ?_, ?_⟩
  · rw [← List.flatten_append, List.take_append_drop, flatten_linesWithBreaks]
  · exact (lineStart_eq_byteLength_take _ line).symm

theorem within_stubEdits (indent : Code.Indent) (file : Source.File) (handler : Class)
    (stubs : StubTable) :
    Within file.text.toList (file.lineStart handler.headLine) (file.lineStart handler.headLine)
      (stubEdits indent file handler stubs) := by
  have hBoundary := isBoundary_lineStart file handler.headLine
  unfold stubEdits
  split
  · exact .nil _ _ _
  · exact .singleton ⟨Nat.le_refl _, hBoundary, hBoundary⟩ (Nat.le_refl _) (Nat.le_refl _)

theorem splice_stubEdits (indent : Code.Indent) (file : Source.File) (handler : Class)
    (stubs : StubTable) :
    splice (stubEdits indent file handler stubs) (file.lineStart handler.headLine) [] =
      (stubs.render indent).toList := by
  unfold stubEdits
  split
  · next hNone =>
    rw [splice_nil, StubTable.render, List.isEmpty_iff.mp hNone]
    rfl
  · exact splice_singleton [] rfl

/-- Whether the closing brace of a planned body has a line in a file: its offset does not lie inside
of a character. -/
def HasLine (file : Source.File) (plan : MethodPlan) : Prop :=
  IsBoundary file.text.toList (min plan.body.closing.start (byteLength file.text.toList))

theorem lt_of_not_hasLine {plan : MethodPlan} (h : ¬HasLine file plan) :
    plan.body.closing.start < byteLength file.text.toList ∧
      ¬IsBoundary file.text.toList plan.body.closing.start := by
  rw [HasLine] at h
  rcases Nat.lt_or_ge plan.body.closing.start (byteLength file.text.toList) with hLt | hGe
  · rw [Nat.min_eq_left (Nat.le_of_lt hLt)] at h
    exact ⟨hLt, h⟩
  · rw [Nat.min_eq_right hGe] at h
    exact absurd ⟨file.text.toList, [], (List.append_nil _).symm, rfl⟩ h

def plannedBody (c : Configuration) (file : Source.File) (plan : MethodPlan) : String :=
  replacementBody c plan ((indentBefore? file plan.body.closing.start).getD "")

def plannedEdit (c : Configuration) (file : Source.File) (plan : MethodPlan) : Edit :=
  ⟨plan.body.inner.start, plan.body.inner.stop, plannedBody c file plan, "body of " ++ plan.handler⟩

theorem isSome_indentBefore?_iff {plan : MethodPlan} :
    (indentBefore? file plan.body.closing.start).isSome = true ↔ HasLine file plan := by
  rw [HasLine, ← isSome_lineStartOf?_iff, indentBefore?, Source.File.lineStartOf?]
  cases lineStartOf? file.text.toList plan.body.closing.start with
  | none => rfl
  | some start => simp

theorem bodyEdit_of_hasLine {plan : MethodPlan} (h : HasLine file plan) :
    bodyEdit c file plan = .ok (plannedEdit c file plan) := by
  obtain ⟨indent, hIndent⟩ := Option.isSome_iff_exists.mp (isSome_indentBefore?_iff.mpr h)
  rw [bodyEdit, plannedEdit, plannedBody, hIndent]
  rfl

theorem bodyEdit_of_not_hasLine {plan : MethodPlan} (h : ¬HasLine file plan) :
    bodyEdit c file plan = .error (.aborted plan.body.closing.start) := by
  rw [← isSome_indentBefore?_iff, Bool.not_eq_true, Option.isSome_eq_false_iff,
    Option.isNone_iff_eq_none] at h
  rw [bodyEdit, h]

theorem mapM_bodyEdit {plans : List MethodPlan} (h : ∀ plan ∈ plans, HasLine file plan) :
    plans.mapM (bodyEdit c file) = .ok (plans.map (plannedEdit c file)) := by
  rw [mapM_eq_ok_iff, List.forall₂_map_right_iff, List.forall₂_same]
  exact fun plan hPlan => bodyEdit_of_hasLine (h plan hPlan)

theorem exists_aborted_of_mapM {plans : List MethodPlan} (h : ¬∀ plan ∈ plans, HasLine file plan) :
    ∃ plan ∈ plans, ¬HasLine file plan ∧
      plans.mapM (bodyEdit c file) = .error (.aborted plan.body.closing.start) := by
  induction plans with
  | nil => exact absurd (fun _ hNone => nomatch hNone) h
  | cons plan plans ih =>
    by_cases hLine : HasLine file plan
    · rw [List.forall_mem_cons, not_and] at h
      obtain ⟨other, hOther, hNone, hAborted⟩ := ih (h hLine)
      refine ⟨other, List.mem_cons_of_mem _ hOther, hNone, ?_⟩
      rw [List.mapM_cons, bodyEdit_of_hasLine hLine, hAborted]
      rfl
    · refine ⟨plan, List.mem_cons_self, hLine, ?_⟩
      rw [List.mapM_cons, bodyEdit_of_not_hasLine hLine]
      rfl

theorem eq_of_mapM_bodyEdit {plans : List MethodPlan} {bodies : List Edit}
    (h : plans.mapM (bodyEdit c file) = .ok bodies) :
    (∀ plan ∈ plans, HasLine file plan) ∧ bodies = plans.map (plannedEdit c file) := by
  by_cases hLines : ∀ plan ∈ plans, HasLine file plan
  · rw [mapM_bodyEdit hLines] at h
    exact ⟨hLines, (Except.ok.inj h).symm⟩
  · obtain ⟨plan, -, -, hAborted⟩ := @exists_aborted_of_mapM c _ _ hLines
    rw [hAborted] at h
    cases h

theorem planBraces_cons (plan : MethodPlan) (plans : List MethodPlan) :
    planBraces (plan :: plans) = plan.body.opening :: plan.body.closing :: planBraces plans := rfl

theorem within_plannedEdits {first last : Nat} {plans : List MethodPlan}
    (h : Source.Span.Ordered file.text.toList first last (planBraces plans)) :
    Within file.text.toList first last (plans.map (plannedEdit c file)) := by
  induction plans with
  | nil => exact .nil _ _ _
  | cons plan plans ih =>
    obtain ⟨hFits, hBounds, hPairwise⟩ := h
    rw [planBraces_cons] at hFits hBounds hPairwise
    have hRest := ih ⟨fun s hs => hFits s (by simp [hs]), fun s hs => hBounds s (by simp [hs]),
      hPairwise.tail.tail⟩
    have hBraces := List.rel_of_pairwise_cons hPairwise List.mem_cons_self
    have hOpening := hBounds plan.body.opening (by simp)
    have hClosing := hBounds plan.body.closing (by simp)
    have hFit : (plannedEdit c file plan).Fits file.text.toList :=
      ⟨hBraces, (hFits plan.body.opening (by simp)).2, (hFits plan.body.closing (by simp)).1⟩
    refine ⟨?_, ?_, ?_⟩
    · exact List.forall_mem_cons.mpr ⟨hFit, hRest.fits⟩
    · refine List.forall_mem_cons.mpr ⟨⟨?_, ?_⟩, hRest.bounds⟩
      · show first ≤ plan.body.opening.stop
        omega
      · show plan.body.closing.start ≤ last
        omega
    · refine List.pairwise_cons.mpr ⟨?_, hRest.inSequence⟩
      intro e he
      obtain ⟨later, hLater, rfl⟩ := List.mem_map.mp he
      have hMem : later.body.opening ∈ planBraces plans :=
        List.mem_flatMap.mpr ⟨later, hLater, by simp⟩
      have hNext := List.rel_of_pairwise_cons hPairwise.tail hMem
      have hWidth := hBounds later.body.opening (by simp [hMem])
      show plan.body.closing.start ≤ later.body.opening.stop
      omega

theorem hasLine_of_fits {plan : MethodPlan} (h : (plannedEdit c file plan).Fits file.text.toList) :
    HasLine file plan := by
  have hStop : IsBoundary file.text.toList plan.body.closing.start := h.2.2
  rwa [HasLine, Nat.min_eq_left hStop.le_byteLength]

/-- Where the lines start that become comments: before the main function, or at the end of the
text. -/
def commentStart (c : Configuration) (s : SymbolTable) (file : Source.File) : Nat :=
  match if c.emit.commentOutMain then mainFunction? s file else none with
  | some f => file.lineStart (f.line - 1)
  | none => byteLength file.text.toList

def commented (cs : List Char) : List Char :=
  (linesWithBreaks cs).flatMap ("// ".toList ++ ·)

def commentsAt (starts : List Nat) : List Edit :=
  starts.map fun start => Edit.insertion start "// " "main"

theorem within_commentsAt (before : List Char) (lines : List (List Char)) :
    Within (before ++ lines.flatten) (byteLength before) (byteLength (before ++ lines.flatten))
      (commentsAt (startsFrom (byteLength before) lines)) := by
  induction lines generalizing before with
  | nil => exact .nil _ _ _
  | cons line lines ih =>
    have hRest := ih (before ++ line)
    rw [List.append_assoc, ← List.flatten_cons] at hRest
    have hBoundary : IsBoundary (before ++ (line :: lines).flatten) (byteLength before) :=
      ⟨before, _, rfl, rfl⟩
    have hFirst : Within (before ++ (line :: lines).flatten) (byteLength before)
        (byteLength (before ++ line)) (commentsAt [byteLength before]) :=
      .singleton ⟨Nat.le_refl _, hBoundary, hBoundary⟩ (Nat.le_refl _)
        (by rw [byteLength_append]; exact Nat.le_add_right _ _)
    have hAll := hFirst.append hRest (by rw [byteLength_append]; exact Nat.le_add_right _ _)
      (by simp only [byteLength_append, List.flatten_cons]; omega)
    rw [startsFrom, ← byteLength_append]
    exact hAll

theorem splice_commentsAt (position : Nat) (lines : List (List Char)) :
    splice (commentsAt (startsFrom position lines)) position lines.flatten =
      lines.flatMap ("// ".toList ++ ·) := by
  induction lines generalizing position with
  | nil => rfl
  | cons line lines ih =>
    have hLater : ∀ e ∈ commentsAt (startsFrom (position + byteLength line) lines),
        position + byteLength line ≤ e.start := by
      intro e he
      obtain ⟨start, hStart, rfl⟩ := List.mem_map.mp he
      exact le_of_mem_startsFrom hStart
    have hFirst := @splice_cons (Edit.insertion position "// " "main")
      (commentsAt (startsFrom (position + byteLength line) lines)) [] (line ++ lines.flatten) rfl
      (fun e he => Nat.le_trans (Nat.le_add_right _ _) (hLater e he))
    rw [List.flatten_cons, List.flatMap_cons, ← ih (position + byteLength line), List.append_assoc,
      ← splice_append_of_le line _ hLater]
    exact hFirst

theorem exists_comments (c : Configuration) (s : SymbolTable) (file : Source.File) :
    ∃ before lines, file.text.toList = before ++ lines.flatten ∧
      linesWithBreaks lines.flatten = lines ∧ byteLength before = commentStart c s file ∧
      (mainEdits c s file).1 = commentsAt (startsFrom (byteLength before) lines) := by
  have hNone : ∃ before lines, file.text.toList = before ++ lines.flatten ∧
      linesWithBreaks lines.flatten = lines ∧ byteLength before = byteLength file.text.toList ∧
      [] = commentsAt (startsFrom (byteLength before) lines) :=
    ⟨file.text.toList, [], by simp, rfl, rfl, rfl⟩
  unfold mainEdits commentStart
  by_cases hOption : c.emit.commentOutMain = true
  · rw [if_pos hOption, if_pos hOption]
    cases mainFunction? s file with
    | none => exact hNone
    | some f =>
      have hLined := lined_linesWithBreaks file.text.toList
      have hStart := lineStart_eq_byteLength_take file.text.toList (f.line - 1)
      refine ⟨((linesWithBreaks file.text.toList).take (f.line - 1 - 1)).flatten,
        (linesWithBreaks file.text.toList).drop (f.line - 1 - 1), ?_, ?_, hStart.symm, ?_⟩
      · rw [← List.flatten_append, List.take_append_drop, flatten_linesWithBreaks]
      · exact (hLined.drop _).linesWithBreaks_flatten
      · show commentEdits file.text (f.line - 1) = _
        rw [commentEdits, lineStarts_eq_startsFrom, startsFrom_drop, Nat.zero_add]
        rfl
  · rw [if_neg hOption, if_neg hOption]
    exact hNone

end Generation

end SkeletonWeave
