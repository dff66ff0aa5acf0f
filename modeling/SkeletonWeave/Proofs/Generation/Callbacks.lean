import SkeletonWeave.Proofs.Bridge.Callbacks
import SkeletonWeave.Proofs.Generation.Edits
import SkeletonWeave.Proofs.Generation.Resolution

/-!
# The stubs of a resolution

Stubs are registered while parameters are bound, before it is known whether the
binding succeeds. Where no method fails the stubs that are left are just those
that the plans pass, and the last stage writes each of them once.
-/

set_option autoImplicit false

namespace SkeletonWeave.Generation

open Bridge

def isStubEdit (e : Edit) : Bool :=
  e.label == "callback stubs"

theorem filter_isStubEdit (c : Configuration) (symbols : SymbolTable) (file : Source.File)
    (placed : Class) {r : Resolution} {bodies : List Edit}
    (hBodies : r.plans.mapM (bodyEdit c file) = .ok bodies) :
    (bannerEdits file.text c.emit.banner ++ stubEdits (.ofEmit c.emit) file placed r.stubs ++
      bodies ++ (mainEdits c symbols file).1).filter isStubEdit =
      stubEdits (.ofEmit c.emit) file placed r.stubs := by
  have hBanner : (bannerEdits file.text c.emit.banner).filter isStubEdit = [] := by
    unfold bannerEdits
    split
    · rfl
    · rfl
  have hPlanned : bodies.filter isStubEdit = [] := by
    rw [(eq_of_mapM_bodyEdit hBodies).2, List.filter_eq_nil_iff]
    intro e he
    obtain ⟨plan, -, rfl⟩ := List.mem_map.mp he
    rw [isStubEdit, beq_iff_eq, plannedEdit, ← String.toList_inj, String.toList_append]
    simp
  have hMain : (mainEdits c symbols file).1.filter isStubEdit = [] := by
    unfold mainEdits
    split
    · split
      · rw [List.filter_eq_nil_iff]
        intro e he
        obtain ⟨start, -, rfl⟩ := List.mem_map.mp he
        simp [isStubEdit, Edit.insertion]
      · rfl
    · rfl
  have hStubs : (stubEdits (.ofEmit c.emit) file placed r.stubs).filter isStubEdit =
      stubEdits (.ofEmit c.emit) file placed r.stubs := by
    unfold stubEdits
    split
    · rfl
    · rfl
  rw [List.filter_append, List.filter_append, List.filter_append, hBanner, hPlanned, hMain, hStubs,
    List.nil_append, List.append_nil, List.append_nil]

section

variable [PatternLibrary]

theorem resolveMethod_registers {s : Sides} {m : Method} (stubs : StubTable)
    (hSettled : (s.report m).failure? = none) :
    Registers s.symbols stubs ((s.report m).plan?.toList.flatMap (·.bindings))
      (s.resolveMethod m stubs).1 := by
  rw [← Sides.snd_resolveMethod s m stubs] at hSettled ⊢
  rw [Sides.resolveMethod_eq] at hSettled ⊢
  split
  · exact .nil stubs
  · exact .nil stubs
  · next chosen hSelection =>
    rw [hSelection] at hSettled
    split
    · exact .nil stubs
    · next body hBody =>
      simp only [hBody, Sides.planMethod] at hSettled ⊢
      split
      · next hBind =>
        rw [hBind] at hSettled
        cases hSettled
      · next stubs' bindings hBind =>
        have hBound := bind_registers hBind
        rwa [MethodReport.plan?, Option.toList_some, List.flatMap_singleton]

theorem resolveMethods_registers {s : Sides} {ms : List Method} (stubs : StubTable)
    (hSettled : ∀ m ∈ ms, (s.report m).failure? = none) :
    Registers s.symbols stubs ((ms.filterMap fun m => (s.report m).plan?).flatMap (·.bindings))
      (s.resolveMethods ms stubs).1 := by
  induction ms generalizing stubs with
  | nil => exact .nil stubs
  | cons m ms ih =>
    have hFirst := resolveMethod_registers stubs (hSettled m List.mem_cons_self)
    have hAll := hFirst.append (ih _ fun m hm => hSettled m (List.mem_cons_of_mem _ hm))
    cases hPlan : (s.report m).plan? with
    | none => simpa [Sides.resolveMethods, hPlan] using hAll
    | some plan => simpa [Sides.resolveMethods, hPlan] using hAll

theorem Sides.Resolves.registers {s : Sides} {r : Resolution} (h : s.Resolves r) :
    Registers s.symbols .empty (r.plans.flatMap (·.bindings)) r.stubs := by
  rw [h.plans, h.stubs]
  exact resolveMethods_registers .empty h.settled

theorem Sides.Resolves.records {s : Sides} {r : Resolution} (h : s.Resolves r) :
    r.stubs.Records (r.plans.flatMap (·.callbacks)) := by
  have hAll := h.registers.records StubTable.Records.empty
  rwa [List.nil_append, List.filterMap_flatMap] at hAll

theorem Sides.Planned.callback {s : Sides} {m : Method} {plan : MethodPlan} (h : s.Planned m plan)
    {expression : String} (hPassed : expression ∈ plan.callbacks) :
    expression = "&" ++ (plan.target ++ "_callback") := by
  obtain ⟨-, -, hBind⟩ := h
  exact callback_of_bind (hBind .empty) hPassed

/-- After handlers are resolved the table has just the stubs that some plan passes, each once and in
the order in which the plans first pass them, named after the target of each plan that passes them.
The last stage writes the definition of each stub once, in this order and in one place. -/
theorem stubs_are_those_passed {g next : Generation} (h : resolveHandler g = ⟨next, none⟩) :
    ∃ r, next.resolution? = some r ∧
      (r.stubs.stubs.map (·.name)).Nodup ∧
      (∀ stub ∈ r.stubs.stubs, ∃ plan ∈ r.plans,
        stub.address ∈ plan.callbacks ∧ stub.name = plan.target ++ "_callback") ∧
      (∀ plan ∈ r.plans, ∀ expression ∈ plan.callbacks, ∃ stub ∈ r.stubs.stubs,
        stub.address = expression ∧ stub.name = plan.target ++ "_callback") ∧
      ((r.stubs.stubs.map (·.address)).Pairwise fun a b =>
        (r.plans.flatMap (·.callbacks)).idxOf a < (r.plans.flatMap (·.callbacks)).idxOf b) ∧
      ∀ emitted server, writeServer next = ⟨emitted, none⟩ → emitted.output? = some server →
        ∃ position, server.edits.filter isStubEdit =
          if r.stubs.stubs.isEmpty then []
          else
            [Edit.insertion position
              (String.join (r.stubs.stubs.map fun stub =>
                stub.render (.ofEmit g.configuration.emit) ++ "\n"))
              "callback stubs"] := by
  obtain ⟨s, r, remarks, -, hResolves, rfl⟩ := exists_resolves h
  have hRecords := hResolves.records
  have hPassed {expression : String} :
      expression ∈ r.plans.flatMap (·.callbacks) ↔
        ∃ stub ∈ r.stubs.stubs, stub.address = expression := by
    rw [← List.mem_eraseDups, ← hRecords, List.mem_map]
  have hName {plan : MethodPlan} (hPlan : plan ∈ r.plans) {stub : Stub}
      (hStub : stub.address ∈ plan.callbacks) : stub.name = plan.target ++ "_callback" := by
    obtain ⟨m, -, hPlanned⟩ := hResolves.mem_plans_iff.mp hPlan
    exact String.append_right_inj "&" |>.mp (hPlanned.callback hStub)
  refine ⟨r, rfl, ?_, ?_, ?_, ?_, ?_⟩
  · have hAddresses := nodup_eraseDups (r.plans.flatMap (·.callbacks))
    rw [← hRecords] at hAddresses
    refine List.pairwise_map.mpr ((List.pairwise_map.mp hAddresses).imp ?_)
    intro a b hNe hSame
    exact hNe (congrArg ("&" ++ ·) hSame)
  · intro stub hStub
    obtain ⟨plan, hPlan, hIn⟩ := List.mem_flatMap.mp (hPassed.mpr ⟨stub, hStub, rfl⟩)
    exact ⟨plan, hPlan, hIn, hName hPlan hIn⟩
  · intro plan hPlan expression hExpression
    obtain ⟨stub, hStub, rfl⟩ := hPassed.mp (List.mem_flatMap.mpr ⟨plan, hPlan, hExpression⟩)
    exact ⟨stub, hStub, rfl, hName hPlan hExpression⟩
  · rw [hRecords]
    exact pairwise_idxOf_eraseDups _
  · intro emitted server hWritten hServer
    rw [writeServer, ofResult_eq_iff] at hWritten
    obtain ⟨r', symbols, file, placed, bodies, server', remarks', hResolution, hBodies, hEdits,
      rfl⟩ := withServer_eq_ok hWritten
    cases hResolution
    cases hServer
    refine ⟨file.lineStart placed.headLine, ?_⟩
    rw [hEdits, filter_isStubEdit _ _ _ _ hBodies]
    rfl

end

theorem stub_shared_by_sampleMethods :
    ∃ next r, resolveHandler (sampleGeneration
        [sampleMethod "R" [], sampleMethod "F" [numberParam "a"], sampleMethod "R_again" []]) =
          ⟨next, none⟩ ∧
      next.resolution? = some r ∧ (r.stubs.stubs.map (·.name)).Nodup ∧
      r.plans.map (·.callbacks) = [["&R_callback"], [], ["&R_callback"]] ∧
      ∃ stub ∈ r.stubs.stubs, stub.name = "R_callback" := by
  let g := sampleGeneration
    [sampleMethod "R" [], sampleMethod "F" [numberParam "a"], sampleMethod "R_again" []]
  have hNone : (resolveHandler g).failure?.isNone = true := by decide +kernel
  have hNext : resolveHandler g = ⟨(resolveHandler g).state, none⟩ :=
    congrArg (Progress.mk _) (Option.isNone_iff_eq_none.mp hNone)
  have hPassed : ((resolveHandler g).state.resolution?.all fun r =>
      r.plans.map (·.callbacks) = [["&R_callback"], [], ["&R_callback"]]) = true := by
    decide +kernel
  obtain ⟨r, hResolved, hNodup, -, hPlans, -⟩ := stubs_are_those_passed hNext
  rw [hResolved, Option.all_some, decide_eq_true_eq] at hPassed
  obtain ⟨plan, hPlan, hCallbacks⟩ : ∃ plan ∈ r.plans, plan.callbacks = ["&R_callback"] :=
    List.mem_map.mp (hPassed ▸ List.mem_cons_self)
  obtain ⟨stub, hStub, hAddress, -⟩ := hPlans plan hPlan "&R_callback" (by simp [hCallbacks])
  exact ⟨_, r, hNext, hResolved, hNodup, hPassed, stub, hStub,
    String.append_right_inj "&" |>.mp hAddress⟩

end SkeletonWeave.Generation
