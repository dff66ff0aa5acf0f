import SkeletonWeave.Bridge.Plan
import SkeletonWeave.Proofs.Bridge.Binding
import SkeletonWeave.Proofs.FirstOccurrences

/-!
# The stubs that bindings need

Binding registers a stub where a parameter takes the address of one. A table
that held just the stubs in use holds just those in use afterwards, each once
and in the order of first use, provided that all parameters were bound.
-/

set_option autoImplicit false

namespace SkeletonWeave.Bridge

def Binding.callback? (b : Binding) : Option String :=
  match b.source with
  | .callback expression => some expression
  | _ => none

def MethodPlan.callbacks (plan : MethodPlan) : List String :=
  plan.bindings.filterMap (·.callback?)

theorem Stub.address_inj {a b : Stub} (h : a.address = b.address) : a.name = b.name :=
  String.append_right_inj "&" |>.mp h

namespace StubTable

/-- Whether a table has the stubs whose addresses are passed, each once and in the order in which
they are first passed. -/
def Records (t : StubTable) (passed : List String) : Prop :=
  t.stubs.map (·.address) = passed.eraseDups

theorem Records.empty : StubTable.empty.Records [] :=
  rfl

theorem Records.register {t : StubTable} {passed : List String} (h : t.Records passed)
    (target : String) (signature : TypeExpr × List TypeExpr) :
    (t.register target signature).2.Records
      (passed ++ [(t.register target signature).1.address]) := by
  have hPassed {address : String} :
      address ∈ passed ↔ ∃ stub ∈ t.stubs, stub.address = address := by
    rw [← List.mem_eraseDups, ← h, List.mem_map]
  unfold StubTable.register
  split
  · next stub hFound =>
    have hMem := List.mem_of_find?_eq_some hFound
    rw [Records, eraseDups_concat_of_mem (hPassed.mpr ⟨stub, hMem, rfl⟩)]
    exact h
  · next hNone =>
    have hNew : (Stub.forTarget target signature).address ∉ passed := by
      rw [hPassed]
      rintro ⟨stub, hMem, hSame⟩
      have hOther := List.find?_eq_none.mp hNone stub hMem
      exact hOther (beq_iff_eq.mpr (Stub.address_inj hSame))
    rw [Records, eraseDups_concat_of_notMem hNew, ← h, List.map_append]
    rfl

end StubTable

variable {s : SymbolTable} {c : Configuration} {handler target : Method}

/-- How a table changes while bindings are made: it stays as it is, unless a callback is bound. -/
inductive Registers (s : SymbolTable) : StubTable → List Binding → StubTable → Prop
  | nil (t : StubTable) : Registers s t [] t
  | other {t t' : StubTable} {b : Binding} {bs : List Binding} (hNone : b.callback? = none)
    (hRest : Registers s t bs t') : Registers s t (b :: bs) t'
  | callback {t t' : StubTable} {b : Binding} {bs : List Binding} {target : String}
    {signature : TypeExpr × List TypeExpr} (hSignature : signature? s b.targetType = some signature)
    (hAddress : b.callback? = some (t.register target signature).1.address)
    (hRest : Registers s (t.register target signature).2 bs t') : Registers s t (b :: bs) t'

namespace Registers

theorem append {t t' t'' : StubTable} {bs bs' : List Binding} (h : Registers s t bs t')
    (h' : Registers s t' bs' t'') : Registers s t (bs ++ bs') t'' := by
  induction h with
  | nil => exact h'
  | other hNone _ ih => exact .other hNone (ih h')
  | callback hSignature hAddress _ ih => exact .callback hSignature hAddress (ih h')

theorem records {t t' : StubTable} {bs : List Binding} {passed : List String}
    (h : Registers s t bs t') (hRecords : t.Records passed) :
    t'.Records (passed ++ bs.filterMap (·.callback?)) := by
  induction h generalizing passed with
  | nil => rwa [List.filterMap_nil, List.append_nil]
  | other hNone _ ih =>
    rw [List.filterMap_cons_none hNone]
    exact ih hRecords
  | callback _ hAddress _ ih =>
    rw [List.filterMap_cons_some hAddress, List.append_cons]
    exact ih (hRecords.register _ _)

end Registers

theorem bindParam_registers {aggregate? : Option Class} {index : Nat} {p : Param}
    {stubs stubs' : StubTable} {b : Binding}
    (h : bindParam s c aggregate? handler target index p stubs = (stubs', .ok b)) :
    Registers s stubs [b] stubs' := by
  unfold bindParam at h
  split at h
  · cases h
  · simp only at h
    split at h
    · cases h
      exact .other rfl (.nil _)
    · cases h
      exact .other rfl (.nil _)
    · split at h
      · split at h
        · cases h
        · next signature hSignature =>
          cases h
          exact .callback hSignature rfl (.nil _)
      · split at h
        · cases h
          exact .other rfl (.nil _)
        · cases h

theorem bindParams_registers {bind : Nat → Param → StubTable → StubTable × Except Failure Binding}
    (hBind : ∀ {index p stubs stubs' b}, bind index p stubs = (stubs', .ok b) →
      Registers s stubs [b] stubs')
    {index : Nat} {ps : List Param} {stubs stubs' : StubTable} {bindings : List Binding}
    (h : bindParams bind index ps stubs = (stubs', .ok bindings)) :
    Registers s stubs bindings stubs' := by
  induction ps generalizing index stubs bindings with
  | nil =>
    cases h
    exact .nil _
  | cons p ps ih =>
    rw [bindParams] at h
    split at h
    · cases h
    · next middle b hFirst =>
      rcases hRest : bindParams bind (index + 1) ps middle with ⟨last, _ | rest⟩
      · rw [hRest] at h
        cases h
      · rw [hRest] at h
        cases h
        exact (hBind hFirst).append (ih hRest)

theorem bind_registers {stubs stubs' : StubTable} {bindings : List Binding}
    (h : bind s c handler target stubs = (stubs', .ok bindings)) :
    Registers s stubs bindings stubs' :=
  bindParams_registers bindParam_registers h

theorem callback_of_bind {stubs : StubTable} {bindings : List Binding}
    (h : (bind s c handler target stubs).2 = .ok bindings) {expression : String}
    (hPassed : expression ∈ bindings.filterMap (·.callback?)) :
    expression = "&" ++ (target.name ++ "_callback") := by
  obtain ⟨b, hb, hCallback⟩ := List.mem_filterMap.mp hPassed
  obtain ⟨p, hSource⟩ : ∃ p, BoundTo s c handler target p b := by
    have hBound := bind_eq_ok_iff.mp h
    obtain ⟨i, hi, rfl⟩ := List.mem_iff_getElem.mp hb
    exact ⟨_, hBound.get (hBound.length_eq ▸ hi) hi⟩
  obtain ⟨argument, type, source, sourceType?⟩ := b
  obtain ⟨-, -, hSource⟩ := hSource
  simp only at hSource
  cases hSource with
  | argument => cases hCallback
  | field => cases hCallback
  | callback =>
    cases hCallback
    rfl
  | context => cases hCallback

end SkeletonWeave.Bridge
