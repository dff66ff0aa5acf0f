import SkeletonWeave.Proofs.Declaration.TypeNames
import SkeletonWeave.Proofs.Text.Splitting

/-!
# Element sizes of wrapped types

The element size of a type is that of the number it designates. It does not change
with the marks and the spelling of the type, nor where a type name or a container
stands around it, as long as rows of type names and containers come to an end
within the number of steps that are made.
-/

set_option autoImplicit false

namespace SkeletonWeave

/-- Whether types differ in marks and spelling only. -/
structure TypeExpr.SameCore (t u : TypeExpr) : Prop where
  base : t.base = u.base
  arguments : t.arguments = u.arguments
  signature : t.signature = u.signature

namespace SymbolTable

variable {s : SymbolTable} {t u : TypeExpr} {name : Typedef}

def contained? (t : TypeExpr) : Option TypeExpr :=
  if containers.contains t.baseName then t.arguments.head? else none

theorem elementWithin_succ (steps : Nat) (t : TypeExpr) :
    s.elementWithin (steps + 1) t =
      match contained? t with
      | some inner => s.elementWithin steps (s.resolve inner)
      | none => t := by
  rw [elementWithin, contained?]
  cases t.arguments with
  | nil => simp
  | cons first rest =>
    simp only [List.head?_cons]
    split <;> rfl

theorem sameCore_substitute (outer t : TypeExpr) : (substitute outer t).SameCore t :=
  ⟨rfl, rfl, rfl⟩

theorem sameCore_resolveWithin (h : t.SameCore u) (steps : Nat) :
    (s.resolveWithin steps t).SameCore (s.resolveWithin steps u) := by
  induction steps generalizing t u with
  | zero => exact h
  | succ steps ih =>
    simp only [resolveWithin, h.base]
    split
    · exact h
    · split
      · exact h
      · exact ih ⟨rfl, rfl, rfl⟩

theorem sameCore_elementWithin (h : t.SameCore u) (steps : Nat) :
    (s.elementWithin steps t).SameCore (s.elementWithin steps u) := by
  cases steps with
  | zero => exact h
  | succ steps =>
    have hSame : contained? t = contained? u := by
      rw [contained?, contained?, TypeExpr.baseName, TypeExpr.baseName, h.base, h.arguments]
    rw [elementWithin_succ, elementWithin_succ, hSame]
    split
    · exact ⟨rfl, rfl, rfl⟩
    · exact h

theorem elementSize?_of_resolve (h : (s.resolve t).SameCore (s.resolve u)) :
    s.elementSize? t = s.elementSize? u := by
  have hElement := sameCore_elementWithin (s := s) h resolutionLimit
  simp only [elementSize?, TypeExpr.isFunctionPointer, hElement.base, hElement.signature]
  rfl

theorem elementSize?_of_name (hSome : s.typedef? u.base = some name)
    (hOwn : ¬IsOwnTarget u.base name) {names : List Typedef} {last : String}
    (hLeads : s.Leads u.base names last) (hSteps : names.length ≤ 16) :
    s.elementSize? u = s.elementSize? name.target := by
  cases hLeads with
  | unnamed hNone => cases hSome.symm.trans hNone
  | itself hFound hStops =>
    cases hSome.symm.trans hFound
    exact absurd hStops hOwn
  | @next _ _ _ rest hFound _ hRest =>
    cases hSome.symm.trans hFound
    have hLess : rest.length ≤ 15 := Nat.le_of_succ_le_succ hSteps
    have hTarget : s.resolve name.target = s.resolveWithin 15 name.target :=
      (resolve_leads hRest (Nat.le_succ_of_le hLess)).trans (resolveWithin_leads hRest hLess).symm
    apply elementSize?_of_resolve
    rw [hTarget, resolve, resolutionLimit, resolveWithin_next hSome hOwn]
    exact sameCore_resolveWithin (sameCore_substitute u name.target) 15

def IsContainer (base : String) : Prop :=
  ∃ scope name arguments, base.toList = scope ++ name.toList ++ arguments ∧ name ∈ containers ∧
    '<' ∉ scope ∧ (scope = [] ∨ "::".toList <:+ scope) ∧
    (arguments = [] ∨ arguments.head? = some '<')

theorem baseName_of_isContainer (h : IsContainer t.base) : t.baseName ∈ containers := by
  obtain ⟨scope, name, arguments, hBase, hName, hAngle, hScope, hArguments⟩ := h
  have hAll : ∀ name ∈ containers,
      '<' ∉ name.toList ∧ ':' ∉ name.toList ∧ Text.trim name.toList = name.toList := by decide
  obtain ⟨hAngle', hColon, hTrim⟩ := hAll name hName
  have hTake : t.base.toList.takeWhile (· ≠ '<') = scope ++ name.toList := by
    have hPlain : ∀ c ∈ scope ++ name.toList, decide (c ≠ '<') = true := by
      intro c hc
      rw [decide_eq_true_eq]
      rintro rfl
      exact (List.mem_append.mp hc).elim hAngle hAngle'
    have hRest : arguments.takeWhile (· ≠ '<') = [] := by
      cases arguments with
      | nil => rfl
      | cons c arguments =>
        have hFirst : c = '<' := by simpa using hArguments
        simp [hFirst]
    rw [hBase, List.takeWhile_append_of_pos hPlain, hRest, List.append_nil]
  have hLast : Text.afterLast "::".toList (scope ++ name.toList) = name.toList := by
    rcases hScope with rfl | ⟨front, rfl⟩
    · exact Text.afterLastFrom_of_notMem hColon _
    · exact Text.afterLastFrom_colons hColon front _
  rw [TypeExpr.baseName, hTake, hLast, hTrim, String.ofList_toList]
  exact hName

theorem contained?_of_isContainer (h : IsContainer t.base) {rest : List TypeExpr}
    (hArguments : t.arguments = u :: rest) : contained? t = some u := by
  rw [contained?, if_pos (List.contains_iff_mem.mpr (baseName_of_isContainer h)), hArguments]
  rfl

theorem contained?_of_arguments (h : t.arguments = []) : contained? t = none := by
  rw [contained?, h]
  exact ite_self none

/-- Whether as many containers nest in a type, each perhaps behind type names. -/
inductive Nests (s : SymbolTable) : TypeExpr → Nat → Prop
  | element {t : TypeExpr} : contained? (s.resolve t) = none → s.Nests t 0
  | container {t inner : TypeExpr} {count : Nat} :
    contained? (s.resolve t) = some inner → s.Nests inner count → s.Nests t (count + 1)

theorem elementWithin_of_nests {count : Nat} (h : s.Nests t count) {steps : Nat} (hSteps : count ≤ steps) :
    s.elementWithin steps (s.resolve t) = s.elementWithin count (s.resolve t) := by
  induction h generalizing steps with
  | element hNone =>
    cases steps with
    | zero => rfl
    | succ steps =>
      rw [elementWithin_succ, hNone]
      rfl
  | container hSome _ ih =>
    cases steps with
    | zero => cases hSteps
    | succ steps =>
      rw [elementWithin_succ, elementWithin_succ, hSome]
      exact ih (Nat.le_of_succ_le_succ hSteps)

theorem elementSize?_of_container {rest : List TypeExpr} (hContainer : IsContainer u.base)
    (hNone : s.typedef? u.base = none) (hArguments : u.arguments = t :: rest) {count : Nat}
    (hNests : s.Nests u count) (hCount : count ≤ 16) : s.elementSize? u = s.elementSize? t := by
  have hResolve : s.resolve u = u := resolve_unnamed hNone
  have hInner : contained? u = some t := contained?_of_isContainer hContainer hArguments
  have hSame : s.elementWithin 16 (s.resolve u) = s.elementWithin 16 (s.resolve t) := by
    cases hNests with
    | element hStops =>
      rw [hResolve, hInner] at hStops
      cases hStops
    | @container _ inner count hSome hNests =>
      rw [hResolve, hInner] at hSome
      cases hSome
      have hLess : count ≤ 15 := Nat.le_of_succ_le_succ hCount
      calc
        s.elementWithin 16 (s.resolve u) = s.elementWithin 15 (s.resolve t) := by
          rw [hResolve, elementWithin_succ, hInner]
        _ = s.elementWithin count (s.resolve t) := elementWithin_of_nests hNests hLess
        _ = s.elementWithin 16 (s.resolve t) :=
          (elementWithin_of_nests hNests (Nat.le_succ_of_le hLess)).symm
  rw [elementSize?, elementSize?, resolutionLimit, hSame]

/-- Whether a type is another one with other marks and another spelling, under a type name, or as
the elements of a container, or several of these in turn. -/
inductive Wraps (s : SymbolTable) : TypeExpr → TypeExpr → Prop
  | marked {u t : TypeExpr} : u.SameCore t → s.Wraps u t
  | named {u t : TypeExpr} {name : Typedef} {names : List Typedef} {last : String} :
    s.typedef? u.base = some name → name.target = t → ¬IsOwnTarget u.base name →
    s.Leads u.base names last → names.length ≤ 16 → s.Wraps u t
  | container {u t : TypeExpr} {rest : List TypeExpr} {count : Nat} :
    IsContainer u.base → s.typedef? u.base = none → u.arguments = t :: rest →
    s.Nests u count → count ≤ 16 → s.Wraps u t
  | trans {u t r : TypeExpr} : s.Wraps u t → s.Wraps t r → s.Wraps u r

theorem Wraps.elementSize?_eq (h : s.Wraps u t) : s.elementSize? u = s.elementSize? t := by
  induction h with
  | marked hCore => exact elementSize?_of_resolve (sameCore_resolveWithin hCore resolutionLimit)
  | named hSome hTarget hOwn hLeads hSteps =>
    rw [← hTarget]
    exact elementSize?_of_name hSome hOwn hLeads hSteps
  | container hContainer hNone hArguments hNests hCount =>
    exact elementSize?_of_container hContainer hNone hArguments hNests hCount
  | trans _ _ ih ih' => exact ih.trans ih'

end SymbolTable

end SkeletonWeave
