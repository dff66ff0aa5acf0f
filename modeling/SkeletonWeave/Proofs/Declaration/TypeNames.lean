import Mathlib
import SkeletonWeave.Declaration.Table

/-!
# Types behind type names

A type name stands for a type, whose base may be a type name again. Where such a
row of names comes to an end within the number of steps that are made, the type
behind them has the base at the end, all the pointers of the row, and the marks
that any type of the row has.
-/

set_option autoImplicit false

namespace SkeletonWeave.SymbolTable

/-- Whether a type name is found under its own name and stands for the base of that name. -/
def IsOwnTarget (base : String) (name : Typedef) : Prop :=
  name.name = base ∧ name.target.base = base

instance (base : String) (name : Typedef) : Decidable (IsOwnTarget base name) :=
  inferInstanceAs (Decidable (name.name = base ∧ name.target.base = base))

/-- The row of type names from a base up to one that is no type name, or its own target. -/
inductive Leads (s : SymbolTable) : String → List Typedef → String → Prop
  | unnamed {base : String} : s.typedef? base = none → s.Leads base [] base
  | itself {base : String} {name : Typedef} :
    s.typedef? base = some name → IsOwnTarget base name → s.Leads base [] base
  | next {base last : String} {name : Typedef} {names : List Typedef} :
    s.typedef? base = some name → ¬IsOwnTarget base name → s.Leads name.target.base names last →
    s.Leads base (name :: names) last

def lastTarget (t : TypeExpr) (names : List Typedef) : TypeExpr :=
  (names.getLast?.map (·.target)).getD t

def follow (t : TypeExpr) (names : List Typedef) : TypeExpr :=
  names.foldl (fun t name => substitute t name.target) t

section

variable {s : SymbolTable} {t : TypeExpr} {base last : String} {name : Typedef}
  {names : List Typedef}

theorem Leads.ends (h : s.Leads base names last) : s.Leads last [] last := by
  induction h with
  | unnamed hNone => exact .unnamed hNone
  | itself hSome hOwn => exact .itself hSome hOwn
  | next _ _ _ ih => exact ih

theorem resolveWithin_next (hSome : s.typedef? t.base = some name)
    (hOwn : ¬IsOwnTarget t.base name) (steps : Nat) :
    s.resolveWithin (steps + 1) t = s.resolveWithin steps (substitute t name.target) := by
  have hGoesOn : (name.name == t.base && name.target.base == t.base) = false := by
    rw [Bool.eq_false_iff]
    simpa [IsOwnTarget] using hOwn
  simp only [resolveWithin, hSome, hGoesOn, Bool.false_eq_true, if_false]

theorem resolveWithin_ends (h : s.Leads t.base [] last) (steps : Nat) :
    s.resolveWithin steps t = t := by
  cases steps with
  | zero => rfl
  | succ steps =>
    generalize hBase : t.base = base at h
    cases h with
    | unnamed hNone => simp only [resolveWithin, hBase, hNone]
    | itself hSome hOwn => simp [resolveWithin, hBase, hSome, hOwn.1, hOwn.2]

theorem resolveWithin_leads (h : s.Leads t.base names last) {steps : Nat}
    (hSteps : names.length ≤ steps) : s.resolveWithin steps t = follow t names := by
  induction names generalizing t steps with
  | nil => exact resolveWithin_ends h steps
  | cons name names ih =>
    cases h with
    | next hSome hOwn hRest =>
      cases steps with
      | zero => cases hSteps
      | succ steps =>
        have hBase : (substitute t name.target).base = name.target.base := rfl
        rw [resolveWithin_next hSome hOwn, ih (hBase ▸ hRest) (Nat.le_of_succ_le_succ hSteps)]
        rfl

theorem resolve_leads (h : s.Leads t.base names last) (hSteps : names.length ≤ 16) :
    s.resolve t = follow t names :=
  resolveWithin_leads h hSteps

theorem resolve_unnamed (h : s.typedef? t.base = none) : s.resolve t = t :=
  resolve_leads (.unnamed h) (Nat.zero_le 16)

theorem base_follow (h : s.Leads t.base names last) : (follow t names).base = last := by
  induction names generalizing t with
  | nil =>
    generalize hBase : t.base = base at h
    cases h <;> exact hBase
  | cons name names ih =>
    cases h with
    | next _ _ hRest => exact ih hRest

theorem pointerDepth_follow
    (hDepth : t.pointerDepth + (names.map (·.target.pointerDepth)).sum ≤ TypeExpr.maxPointerDepth) :
    (follow t names).pointerDepth =
      t.pointerDepth + (names.map (·.target.pointerDepth)).sum := by
  induction names generalizing t with
  | nil => rfl
  | cons name names ih =>
    have hFirst : (substitute t name.target).pointerDepth =
        t.pointerDepth + name.target.pointerDepth := by
      simp only [List.map_cons, List.sum_cons] at hDepth
      rw [substitute, TypeExpr.addDepths, Nat.mod_eq_of_lt (by omega), Nat.add_comm]
    rw [List.map_cons, List.sum_cons, ← Nat.add_assoc, ← hFirst] at hDepth ⊢
    exact ih hDepth

theorem follow_marked (mark : TypeExpr → Bool)
    (hMark : ∀ outer target, mark (substitute outer target) = (mark target || mark outer))
    (t : TypeExpr) (names : List Typedef) :
    mark (follow t names) = true ↔ mark t = true ∨ ∃ name ∈ names, mark name.target = true := by
  induction names generalizing t with
  | nil => simp [follow]
  | cons name names ih =>
    have hFirst : mark (substitute t name.target) = true ↔
        mark t = true ∨ mark name.target = true := by
      rw [hMark, Bool.or_eq_true]
      exact or_comm
    simp only [List.mem_cons, exists_eq_or_imp]
    rw [← or_assoc, ← hFirst]
    exact ih _

theorem follow_eq_lastTarget {α : Type} (part : TypeExpr → α)
    (hPart : ∀ outer target, part (substitute outer target) = part target) (t : TypeExpr)
    (names : List Typedef) : part (follow t names) = part (lastTarget t names) := by
  induction names generalizing t with
  | nil => rfl
  | cons name names ih =>
    have hRest : part (follow t (name :: names)) = part (lastTarget (substitute t name.target) names) :=
      ih (substitute t name.target)
    rw [hRest]
    cases names with
    | nil => exact hPart t name.target
    | cons second names => rfl

/-- Where the row of type names from a type ends after at most sixteen of them, with pointers that
can be told apart, the type behind it is found, and nothing is behind that. -/
theorem resolve_of_leads (h : s.Leads t.base names last) (hSteps : names.length ≤ 16)
    (hDepth : t.pointerDepth + (names.map (·.target.pointerDepth)).sum ≤ 255) :
    (s.resolve t).base = last ∧
      (s.resolve t).pointerDepth = t.pointerDepth + (names.map (·.target.pointerDepth)).sum ∧
      ((s.resolve t).isConst = true ↔
        t.isConst = true ∨ ∃ name ∈ names, name.target.isConst = true) ∧
      ((s.resolve t).isReference = true ↔
        t.isReference = true ∨ ∃ name ∈ names, name.target.isReference = true) ∧
      (s.resolve t).arguments = (lastTarget t names).arguments ∧
      (s.resolve t).signature = (lastTarget t names).signature ∧
      s.resolve (s.resolve t) = s.resolve t := by
  have hBase : (follow t names).base = last := base_follow h
  have hAgain : s.resolve (follow t names) = follow t names := by
    have hEnds : s.Leads (follow t names).base [] last := hBase ▸ h.ends
    exact resolve_leads hEnds (Nat.zero_le 16)
  rw [resolve_leads h hSteps]
  refine ⟨hBase, pointerDepth_follow hDepth, ?_, ?_, ?_, ?_, hAgain⟩
  · exact follow_marked TypeExpr.isConst (fun _ _ => rfl) t names
  · exact follow_marked TypeExpr.isReference (fun _ _ => rfl) t names
  · exact follow_eq_lastTarget TypeExpr.arguments (fun _ _ => rfl) t names
  · exact follow_eq_lastTarget TypeExpr.signature (fun _ _ => rfl) t names

end

theorem resolve_of_two_names :
    let byte : Typedef := ⟨"byte", "N::byte", ⟨"V<int>*", "V<int>", false, 1, false,
      [TypeExpr.named "int"], none⟩⟩
    let view : Typedef := ⟨"view", "N::view", ⟨"const byte&", "byte", true, 0, true, [], none⟩⟩
    let s : SymbolTable := ⟨[], ⟨[], [byte, view], []⟩⟩
    let t : TypeExpr := ⟨"N::view*", "N::view", false, 1, false, [], none⟩
    s.Leads t.base [view, byte] "V<int>" ∧ (s.resolve t).base = "V<int>" ∧
      (s.resolve t).pointerDepth = 2 ∧ (s.resolve t).isConst = true ∧
      (s.resolve t).arguments = [TypeExpr.named "int"] ∧
      s.resolve (s.resolve t) = s.resolve t := by
  intro byte view s t
  have hLeads : s.Leads t.base [view, byte] "V<int>" := by
    have hView : s.typedef? "N::view" = some view := by cbv
    have hByte : s.typedef? "byte" = some byte := by cbv
    have hNone : s.typedef? "V<int>" = none := by cbv
    exact .next hView (by decide) (.next hByte (by decide) (.unnamed hNone))
  obtain ⟨hBase, hDepth, hConst, -, hArguments, -, hAgain⟩ :=
    resolve_of_leads hLeads (by decide) (by decide)
  exact ⟨hLeads, hBase, hDepth, hConst.mpr (.inr ⟨view, by simp, rfl⟩), hArguments, hAgain⟩

end SkeletonWeave.SymbolTable
