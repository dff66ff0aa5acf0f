import SkeletonWeave.Bridge.Call
import SkeletonWeave.Proofs.Declaration.ElementSize

/-!
# Reports of sizes that differ

The report of an argument names the sizes of its two types only. So it is the same
for types that are wrapped in marks, type names and containers, provided that no
conversion of the value comes in.
-/

set_option autoImplicit false

namespace SkeletonWeave.Bridge

open SymbolTable

variable {s : SymbolTable} {c : Configuration}

/-- Whether a binding is another one with wrapped types, and neither value is converted. -/
structure Rewraps (s : SymbolTable) (c : Configuration) (b b' : Binding) : Prop where
  argument : b.argument = b'.argument
  source : b.source = b'.source
  target : s.Wraps b.targetType b'.targetType
  type : Option.Rel s.Wraps b.sourceType? b'.sourceType?
  unconverted : conversionOf? c b.sourceType? = none
  unconverted' : conversionOf? c b'.sourceType? = none

theorem sizeMismatch?_unconverted {b : Binding} (h : conversionOf? c b.sourceType? = none) :
    sizeMismatch? s c b =
      if b.source.isHandlerNode then
        match b.sourceType?.bind s.elementSize?, s.elementSize? b.targetType with
        | some source, some target =>
          if source = target then none else some ⟨b.argument, source, target⟩
        | _, _ => none
      else none := by
  rw [sizeMismatch?]
  cases b.source.isHandlerNode with
  | false => rfl
  | true =>
    cases hType : b.sourceType? with
    | none => rfl
    | some type =>
      rw [hType] at h
      simp only [Bool.not_true, Bool.false_eq_true, if_false, if_true, Option.bind_eq_bind,
        Option.bind_some, h, Option.isSome_none]
      cases s.elementSize? type with
      | none => rfl
      | some source =>
        cases s.elementSize? b.targetType with
        | none => rfl
        | some target => rfl

theorem Rewraps.sizeMismatch?_eq {b b' : Binding} (h : Rewraps s c b b') :
    sizeMismatch? s c b = sizeMismatch? s c b' := by
  have hSource : b.sourceType?.bind s.elementSize? = b'.sourceType?.bind s.elementSize? := by
    have hType := h.type
    generalize b.sourceType? = type? at hType ⊢
    generalize b'.sourceType? = type'? at hType ⊢
    cases hType with
    | none => rfl
    | some hWraps => exact hWraps.elementSize?_eq
  rw [sizeMismatch?_unconverted h.unconverted, sizeMismatch?_unconverted h.unconverted', h.argument,
    h.source, hSource, h.target.elementSize?_eq]

/-- A type that is wrapped in marks, type names and containers has the size that it has without
them, and values of such types are reported as they are without. -/
theorem element_sizes_of_wrapped (s : SymbolTable) (c : Configuration) :
    (∀ u t : TypeExpr, s.Wraps u t → s.elementSize? u = s.elementSize? t) ∧
      ∀ bs bs' : List Binding, List.Forall₂ (Rewraps s c) bs bs' →
        sizeMismatches s c bs = sizeMismatches s c bs' := by
  refine ⟨fun u t h => h.elementSize?_eq, fun bs bs' h => ?_⟩
  rw [sizeMismatches, sizeMismatches]
  induction h with
  | nil => rfl
  | cons hFirst _ ih => rw [List.filterMap_cons, List.filterMap_cons, hFirst.sizeMismatch?_eq, ih]

theorem element_size_of_named_vector :
    let byte : Typedef := ⟨"Byte", "N::Byte", ⟨"const int8_t*", "int8_t", true, 1, false, [], none⟩⟩
    let s : SymbolTable := ⟨[], ⟨[], [byte], []⟩⟩
    let vector : TypeExpr :=
      ⟨"std::vector<Byte>&", "std::vector<Byte>", false, 0, true, [TypeExpr.named "Byte"], none⟩
    let bound (type : TypeExpr) : Binding :=
      ⟨"a", TypeExpr.named "int", .handlerArgument "a", some type⟩
    s.Wraps vector (TypeExpr.named "int8_t") ∧
      s.elementSize? vector = s.elementSize? (TypeExpr.named "int8_t") ∧
      sizeMismatches s .default [bound vector] = [⟨"a", 8, 32⟩] := by
  intro byte s vector bound
  have hVector : s.typedef? "std::vector<Byte>" = none := by cbv
  have hByte : s.typedef? "Byte" = some byte := by cbv
  have hNumber : s.typedef? "int8_t" = none := by cbv
  have hLeads : s.Leads "Byte" [byte] "int8_t" := .next hByte (by decide) (.unnamed hNumber)
  have hWraps : s.Wraps vector (TypeExpr.named "int8_t") := by
    have hElement : s.Wraps (TypeExpr.named "Byte") byte.target :=
      .named hByte rfl (by decide) hLeads (by decide)
    have hContainer : IsContainer vector.base :=
      ⟨"std::".toList, "vector", "<Byte>".toList, by decide, by decide, by decide, by decide, by decide⟩
    have hNests : s.Nests vector 1 := by
      have hOuter : s.resolve vector = vector := resolve_unnamed hVector
      have hInner : s.resolve (TypeExpr.named "Byte") = follow (TypeExpr.named "Byte") [byte] :=
        resolve_leads hLeads (by decide)
      have hContained : contained? (s.resolve vector) = some (TypeExpr.named "Byte") := by
        rw [hOuter]
        exact contained?_of_isContainer hContainer rfl
      refine .container hContained (.element ?_)
      rw [hInner]
      exact contained?_of_arguments rfl
    exact .trans (.container hContainer hVector rfl hNests (by decide))
      (.trans hElement (.marked ⟨rfl, rfl, rfl⟩))
  obtain ⟨hSizes, hReports⟩ := element_sizes_of_wrapped s .default
  refine ⟨hWraps, hSizes _ _ hWraps, ?_⟩
  have hSame : sizeMismatches s .default [bound vector] =
      sizeMismatches s .default [bound (TypeExpr.named "int8_t")] := by
    refine hReports _ _ (.cons ⟨rfl, rfl, .marked ⟨rfl, rfl, rfl⟩, .some hWraps, ?_, ?_⟩ .nil)
    · cbv
    · cbv
  rw [hSame]
  decide +kernel

end SkeletonWeave.Bridge
