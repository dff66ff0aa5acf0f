import Mathlib.Data.List.Nodup
import SkeletonWeave.Proofs.Generation.Callbacks
import SkeletonWeave.Proofs.Generation.Coverage

/-!
# The types of stubs

A stub is told by the name of its target, and the first callback that needs it
gives it its types. So it fits the parameter that was bound first, and any other
parameter that passes it just if that one takes a function of the same types.
-/

set_option autoImplicit false

namespace SkeletonWeave

namespace Bridge

def Stub.Fits (stub : Stub) (signature : TypeExpr × List TypeExpr) : Prop :=
  stub.returnType = signature.1.spelling ∧ stub.params = signature.2.map (·.spelling)

instance (stub : Stub) (signature : TypeExpr × List TypeExpr) : Decidable (stub.Fits signature) :=
  inferInstanceAs (Decidable (_ ∧ _))

def SpelledAlike (a b : TypeExpr × List TypeExpr) : Prop :=
  a.1.spelling = b.1.spelling ∧ a.2.map (·.spelling) = b.2.map (·.spelling)

instance (a b : TypeExpr × List TypeExpr) : Decidable (SpelledAlike a b) :=
  inferInstanceAs (Decidable (_ ∧ _))

theorem Stub.fits_iff_spelledAlike {stub : Stub} {a b : TypeExpr × List TypeExpr}
    (h : stub.Fits b) : stub.Fits a ↔ SpelledAlike a b := by
  obtain ⟨hReturn, hParams⟩ := h
  rw [Fits, SpelledAlike, hReturn, hParams]
  exact and_congr eq_comm eq_comm

def firstPassing? (bindings : List Binding) (address : String) : Option Binding :=
  bindings.find? (·.callback? == some address)

/-- Whether each stub of a table has the types of the function that the first parameter with its
address takes. -/
def StubTable.FitsFirst (s : SymbolTable) (t : StubTable) (bindings : List Binding) : Prop :=
  ∀ stub ∈ t.stubs, ∃ first signature, firstPassing? bindings stub.address = some first ∧
    signature? s first.targetType = some signature ∧ stub.Fits signature

variable {s : SymbolTable} {t t' : StubTable} {seen : List Binding}

theorem firstPassing?_append_of_some {address : String} {first : Binding}
    (h : firstPassing? seen address = some first) (later : List Binding) :
    firstPassing? (seen ++ later) address = some first := by
  rw [firstPassing?, List.find?_append, ← firstPassing?, h, Option.some_or]

theorem firstPassing?_concat_of_notMem {b : Binding} {address : String}
    (hNew : address ∉ seen.filterMap (·.callback?)) (hAddress : b.callback? = some address) :
    firstPassing? (seen ++ [b]) address = some b := by
  have hNone : seen.find? (·.callback? == some address) = none := by
    rw [List.find?_eq_none]
    intro other hMem hSame
    exact hNew (List.mem_filterMap.mpr ⟨other, hMem, eq_of_beq hSame⟩)
  rw [firstPassing?, List.find?_append, hNone, Option.none_or,
    List.find?_cons_of_pos (by rw [hAddress]; exact beq_self_eq_true _)]

namespace StubTable

theorem FitsFirst.append (h : t.FitsFirst s seen) (later : List Binding) :
    t.FitsFirst s (seen ++ later) := by
  intro stub hStub
  obtain ⟨first, signature, hFirst, hSignature, hFits⟩ := h stub hStub
  exact ⟨first, signature, firstPassing?_append_of_some hFirst later, hSignature, hFits⟩

theorem FitsFirst.register (hRecords : t.Records (seen.filterMap (·.callback?)))
    (h : t.FitsFirst s seen) {target : String} {signature : TypeExpr × List TypeExpr} {b : Binding}
    (hSignature : signature? s b.targetType = some signature)
    (hAddress : b.callback? = some (t.register target signature).1.address) :
    (t.register target signature).2.FitsFirst s (seen ++ [b]) := by
  unfold StubTable.register at hAddress ⊢
  split
  · exact h.append [b]
  · next hNone =>
    rw [hNone] at hAddress
    intro stub hStub
    rcases List.mem_append.mp hStub with hOld | hNew
    · exact h.append [b] stub hOld
    · obtain rfl := List.mem_singleton.mp hNew
      refine ⟨b, signature, firstPassing?_concat_of_notMem ?_ hAddress, hSignature, rfl, rfl⟩
      rw [← List.mem_eraseDups, ← hRecords, List.mem_map]
      rintro ⟨other, hOther, hSame⟩
      have hName := List.find?_eq_none.mp hNone other hOther
      exact hName (beq_iff_eq.mpr (Stub.address_inj hSame))

end StubTable

theorem Registers.fitsFirst {bindings : List Binding} (h : Registers s t bindings t')
    (hFits : t.FitsFirst s seen) (hRecords : t.Records (seen.filterMap (·.callback?))) :
    t'.FitsFirst s (seen ++ bindings) := by
  induction h generalizing seen with
  | nil => rwa [List.append_nil]
  | @other t t' b bs hNone _ ih =>
    have hSame : (seen ++ [b]).filterMap (·.callback?) = seen.filterMap (·.callback?) := by
      rw [List.filterMap_append, List.filterMap_cons_none hNone, List.filterMap_nil,
        List.append_nil]
    rw [List.append_cons]
    exact ih (hFits.append [b]) (hSame ▸ hRecords)
  | @callback t t' b bs target signature hSignature hAddress _ ih =>
    have hMore : (seen ++ [b]).filterMap (·.callback?) =
        seen.filterMap (·.callback?) ++ [(t.register target signature).1.address] := by
      rw [List.filterMap_append, List.filterMap_cons_some hAddress, List.filterMap_nil]
    rw [List.append_cons]
    exact ih (hFits.register hRecords hSignature hAddress)
      (hMore ▸ hRecords.register target signature)

theorem BoundTo.exists_signature {c : Configuration} {handler target : Method} {p : Param}
    {b : Binding} (h : BoundTo s c handler target p b) {address : String}
    (hPassed : b.callback? = some address) :
    ∃ signature, signature? s b.targetType = some signature := by
  obtain ⟨argument, type, source, sourceType?⟩ := b
  obtain ⟨-, hType, hSource⟩ := h
  simp only at hType hSource
  subst hType
  cases hSource with
  | argument => cases hPassed
  | field => cases hPassed
  | callback _ _ _ hPoints =>
    exact Option.ne_none_iff_exists'.mp (mt signature?_eq_none_iff.mp (not_not.mpr hPoints))
  | context => cases hPassed

end Bridge

namespace Generation

open Bridge

def BindsParams (target : Method) (bindings : List Binding) : Prop :=
  List.Forall₂ (fun p b => p.name? = some b.argument ∧ b.targetType = p.type) target.params bindings

theorem Sides.Planned.exists_target [PatternLibrary] {s : Sides} {m : Method} {plan : MethodPlan}
    (h : s.Planned m plan) :
    ∃ target ∈ s.manager.overloads plan.target, BindsParams target plan.bindings ∧
      ∀ b ∈ plan.bindings, ∃ p, BoundTo s.symbols s.configuration m target p b := by
  obtain @⟨chosen, body, bindings, hSelection, hBody, hBind⟩ := h
  have hBound := bind_eq_ok_iff.mp (hBind .empty)
  refine ⟨chosen.method, ?_, hBound.imp fun p b hb => ⟨hb.1, hb.2.1⟩, fun b hb => ?_⟩
  · rw [Sides.name_of_selection hSelection]
    exact mem_of_selectOverload hSelection
  · obtain ⟨i, hi, rfl⟩ := List.mem_iff_getElem.mp hb
    exact ⟨_, hBound.get (hBound.length_eq ▸ hi) hi⟩

/-- Each callback that a plan passes is the address of just one stub, which is named after the
target of the plan. The stub has the types of the function that the first parameter with this
address takes, in the order of the plans and of the parameters in them. So it has those of the
parameter that it is passed to just if both functions have types of the same spellings. -/
theorem stub_fits_first_callback [PatternLibrary] {g next : Generation}
    (h : resolveHandler g = ⟨next, none⟩) :
    ∃ s r, g.sides = .ok s ∧ next.resolution? = some r ∧ ∀ plan ∈ r.plans,
      (∃ target ∈ s.manager.overloads plan.target, BindsParams target plan.bindings) ∧
      ∀ b ∈ plan.bindings, ∀ address, b.callback? = some address →
        ∃ stub ∈ r.stubs.stubs, stub.address = address ∧
          stub.name = plan.target ++ "_callback" ∧
          (∀ other ∈ r.stubs.stubs, other.address = address → other = stub) ∧
          ∃ first signature own,
            firstPassing? (r.plans.flatMap (·.bindings)) address = some first ∧
            signature? s.symbols first.targetType = some signature ∧ stub.Fits signature ∧
            signature? s.symbols b.targetType = some own ∧
            (stub.Fits own ↔ SpelledAlike own signature) := by
  obtain ⟨s, r, remarks, hSides, hResolves, rfl⟩ := exists_resolves h
  have hRecords := hResolves.records
  have hNone : StubTable.empty.FitsFirst s.symbols [] := fun stub hStub => by cases hStub
  have hFits := hResolves.registers.fitsFirst hNone StubTable.Records.empty
  rw [List.nil_append] at hFits
  have hNodup : (r.stubs.stubs.map (·.address)).Nodup := hRecords ▸ nodup_eraseDups _
  refine ⟨s, r, hSides, rfl, fun plan hPlan => ?_⟩
  obtain ⟨m, -, hPlanned⟩ := hResolves.mem_plans_iff.mp hPlan
  obtain ⟨target, hTarget, hParams, hBound⟩ := hPlanned.exists_target
  refine ⟨⟨target, hTarget, hParams⟩, fun b hb address hAddress => ?_⟩
  have hPassed : address ∈ plan.callbacks := List.mem_filterMap.mpr ⟨b, hb, hAddress⟩
  obtain ⟨stub, hStub, rfl⟩ : ∃ stub ∈ r.stubs.stubs, stub.address = address := by
    rw [← List.mem_map, hRecords, List.mem_eraseDups]
    exact List.mem_flatMap.mpr ⟨plan, hPlan, hPassed⟩
  obtain ⟨first, signature, hFirst, hSignature, hFit⟩ := hFits stub hStub
  obtain ⟨p, hTo⟩ := hBound b hb
  obtain ⟨own, hOwn⟩ := hTo.exists_signature hAddress
  exact ⟨stub, hStub, rfl, String.append_right_inj "&" |>.mp (hPlanned.callback hPassed),
    fun other hOther hSame => List.inj_on_of_nodup_map hNodup hOther hStub hSame,
    first, signature, own, hFirst, hSignature, hFit, hOwn, Stub.fits_iff_spelledAlike hFit⟩

def twoCallbacks : String :=
  "struct M \x7b void F(void (*pcallback)(int), void (*qcallback)(char)); \x7d;\n" ++
    "struct H \x7b\nvoid F() \x7b\n\x7d\n\x7d;\n"

def parsedTwoCallbacks : Generation :=
  (runStages (twoFiles twoCallbacks "") unobserved [.parse, .inventory]
    (start smallConfiguration twoSources) ()).generation

def resolvedTwoCallbacks (test : Sides → Resolution → Bool) : Bool :=
  match resolveHandler parsedTwoCallbacks, parsedTwoCallbacks.sides with
  | ⟨next, none⟩, .ok s => next.resolution?.any (test s)
  | _, _ => false

theorem exists_of_resolvedTwoCallbacks {test : Sides → Resolution → Bool}
    (h : resolvedTwoCallbacks test = true) :
    ∃ next s r, resolveHandler parsedTwoCallbacks = ⟨next, none⟩ ∧
      parsedTwoCallbacks.sides = .ok s ∧ next.resolution? = some r ∧ test s r = true := by
  unfold resolvedTwoCallbacks at h
  split at h
  · next next s hNext hSides =>
    obtain ⟨r, hResolution, hTest⟩ := Option.any_eq_true _ _ |>.mp h
    exact ⟨next, s, r, hNext, hSides, hResolution, hTest⟩
  · cases h

theorem stub_fits_first_of_twoCallbacks :
    ∃ next s r plan b stub signature, resolveHandler parsedTwoCallbacks = ⟨next, none⟩ ∧
      parsedTwoCallbacks.sides = .ok s ∧ next.resolution? = some r ∧ plan ∈ r.plans ∧
      plan.bindings.head? = some b ∧ stub ∈ r.stubs.stubs ∧ b.callback? = some stub.address ∧
      signature? s.symbols b.targetType = some signature ∧ stub.Fits signature := by
  have hTest : resolvedTwoCallbacks (fun s r => r.plans.any fun plan =>
      plan.bindings.head?.any fun b => b.callback? == some "&F_callback" &&
        (firstPassing? (r.plans.flatMap (·.bindings)) "&F_callback").any fun first =>
          (signature? s.symbols first.targetType).any fun signature =>
            (signature? s.symbols b.targetType).any fun own =>
              decide (SpelledAlike own signature)) = true := by
    simp only [resolvedTwoCallbacks, parsedTwoCallbacks, runStages, Stage.run, readSymbols,
      withSymbols, Batch.ofRoots, Batch.runSteps, Preprocess.addRoot, Preprocess.depthLimit,
      Preprocess.readFile, findFile?, start, twoSources, canonical?_twoFiles, readText?_twoFiles]
    decide +kernel
  obtain ⟨next, s, r, hNext, hSides, hResolution, hTest⟩ := exists_of_resolvedTwoCallbacks hTest
  obtain ⟨plan, hPlan, hTest⟩ := List.any_eq_true.mp hTest
  obtain ⟨b, hHead, hTest⟩ := Option.any_eq_true _ _ |>.mp hTest
  obtain ⟨hAddress, hTest⟩ := Bool.and_eq_true_iff.mp hTest
  obtain ⟨s', r', hSides', hResolution', hPlans⟩ := stub_fits_first_callback hNext
  cases hSides.symm.trans hSides'
  cases hResolution.symm.trans hResolution'
  obtain ⟨stub, hStub, hSame, -, -, first, signature, own, hFirst, hSignature, -, hOwn, hIff⟩ :=
    (hPlans plan hPlan).2 b (List.mem_of_head? hHead) _ (eq_of_beq hAddress)
  rw [hFirst, Option.any_some, hSignature, Option.any_some, hOwn, Option.any_some,
    decide_eq_true_eq] at hTest
  exact ⟨next, s, r, plan, b, stub, own, hNext, hSides, hResolution, hPlan, hHead, hStub,
    (eq_of_beq hAddress).trans (congrArg some hSame.symm), hOwn, hIff.mpr hTest⟩

/-- The second callback of `twoCallbacks` is passed the same stub, which takes a number for it where
it should take a character. -/
theorem stub_misfits_of_twoCallbacks :
    ∃ next s r plan b stub signature, resolveHandler parsedTwoCallbacks = ⟨next, none⟩ ∧
      parsedTwoCallbacks.sides = .ok s ∧ next.resolution? = some r ∧ plan ∈ r.plans ∧
      b ∈ plan.bindings ∧ stub ∈ r.stubs.stubs ∧ b.callback? = some stub.address ∧
      signature? s.symbols b.targetType = some signature ∧ stub.params = ["int"] ∧
      signature.2.map (·.spelling) = ["char"] ∧ ¬stub.Fits signature := by
  have hTest : resolvedTwoCallbacks (fun s r => r.plans.any fun plan => plan.bindings.any fun b =>
      r.stubs.stubs.any fun stub => b.callback? == some stub.address &&
        (signature? s.symbols b.targetType).any fun signature =>
          decide (stub.params = ["int"] ∧ signature.2.map (·.spelling) = ["char"])) = true := by
    simp only [resolvedTwoCallbacks, parsedTwoCallbacks, runStages, Stage.run, readSymbols,
      withSymbols, Batch.ofRoots, Batch.runSteps, Preprocess.addRoot, Preprocess.depthLimit,
      Preprocess.readFile, findFile?, start, twoSources, canonical?_twoFiles, readText?_twoFiles]
    decide +kernel
  obtain ⟨next, s, r, hNext, hSides, hResolution, hTest⟩ := exists_of_resolvedTwoCallbacks hTest
  obtain ⟨plan, hPlan, hTest⟩ := List.any_eq_true.mp hTest
  obtain ⟨b, hb, hTest⟩ := List.any_eq_true.mp hTest
  obtain ⟨stub, hStub, hTest⟩ := List.any_eq_true.mp hTest
  obtain ⟨hAddress, hTest⟩ := Bool.and_eq_true_iff.mp hTest
  obtain ⟨signature, hSignature, hTest⟩ := Option.any_eq_true _ _ |>.mp hTest
  obtain ⟨hHas, hNeeds⟩ := of_decide_eq_true hTest
  refine ⟨next, s, r, plan, b, stub, signature, hNext, hSides, hResolution, hPlan, hb, hStub,
    eq_of_beq hAddress, hSignature, hHas, hNeeds, ?_⟩
  rintro ⟨-, hParams⟩
  rw [hHas, hNeeds] at hParams
  exact absurd hParams (by decide)

end Generation

end SkeletonWeave
