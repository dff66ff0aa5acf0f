import SkeletonWeave.Pattern.Reader
import SkeletonWeave.Proofs.Bridge.Binding
import SkeletonWeave.Proofs.Generation.Stages

/-!
# What becomes of the methods of the handler

A method of the handler fails, is skipped or is planned, and which of these
depends on the method alone: neither on the methods before it nor on the stubs
that they need. Resolving tries all methods, and tells of each what became of
it.
-/

set_option autoImplicit false

namespace SkeletonWeave.Generation

open Bridge

open scoped Classical in
theorem forall₂_filterMap {α β : Type} {related : α → β → Prop} {f : α → Option β}
    (h : ∀ a b, f a = some b ↔ related a b) (xs : List α) :
    List.Forall₂ related (xs.filter fun a => ∃ b, related a b) (xs.filterMap f) := by
  induction xs with
  | nil => exact .nil
  | cons a xs ih =>
    cases hFirst : f a with
    | none =>
      have hNone : ¬∃ b, related a b := by
        rintro ⟨b, hRelated⟩
        cases hFirst.symm.trans ((h a b).mpr hRelated)
      rw [List.filter_cons_of_neg (by simpa using hNone), List.filterMap_cons_none hFirst]
      exact ih
    | some b =>
      have hRelated := (h a b).mp hFirst
      rw [List.filter_cons_of_pos (by simpa using ⟨b, hRelated⟩), List.filterMap_cons_some hFirst]
      exact .cons hRelated ih

theorem selectOverload_eq_none_iff {handler : String} {split : SplitName}
    {candidates : List Method} :
    selectOverload handler split candidates = .ok none ↔ candidates = [] := by
  constructor
  · intro h
    unfold selectOverload at h
    split at h
    · rfl
    · cases h
    · split at h
      · cases h
      · simp only at h
        split at h
        · cases h
        · cases h
  · rintro rfl
    rfl

section

variable [PatternLibrary]

namespace Sides

section

variable (s : Sides) (m : Method)

def split : SplitName :=
  SplitName.ofName s.pattern m.name

/-- The public methods of the manager that a method of the handler can mean. -/
def candidates : List Method :=
  s.manager.overloads (s.split m).target

def selection : Except Failure (Option Selection) :=
  selectOverload m.name (s.split m) (s.candidates m)

/-- A method fails if none of several candidates can be chosen, or if it has a body but the
parameters of the chosen method cannot be bound. -/
inductive Fails : Failure → Prop
  | selecting {e : Failure} (hSelection : s.selection m = .error e) : Fails e
  | binding {chosen : Selection} {body : Source.Body} {e : Failure}
    (hSelection : s.selection m = .ok (some chosen)) (hBody : m.body? = some body)
    (hBind : ∀ stubs, (bind s.symbols s.configuration m chosen.method stubs).2 = .error e) :
    Fails e

inductive Skipped : Prop
  | noCandidate (hCandidates : s.candidates m = [])
  | noBody {chosen : Selection} (hSelection : s.selection m = .ok (some chosen))
    (hBody : m.body? = none)

inductive Planned : MethodPlan → Prop
  | intro {chosen : Selection} {body : Source.Body} {bindings : List Binding}
    (hSelection : s.selection m = .ok (some chosen)) (hBody : m.body? = some body)
    (hBind : ∀ stubs,
      (bind s.symbols s.configuration m chosen.method stubs).2 = .ok bindings) :
    Planned ⟨m.name, chosen.method.name, (s.split m).hint?, m.line, body, bindings,
      .ofBindings s.configuration m chosen.method
        (returnAggregate? s.symbols s.configuration m) bindings⟩

def Settles : MethodOutcome → Prop
  | .failed e => s.Fails m e
  | .skipped => s.Skipped m
  | .planned plan => s.Planned m plan

def report : MethodReport :=
  (s.resolveMethod m .empty).2

end

variable {s : Sides} {m : Method}

theorem snd_planMethod (s : Sides) (m : Method) (split : SplitName) (target : Method)
    (body : Source.Body) (remarks : List Diagnostic) (stubs : StubTable) :
    (s.planMethod m split target body remarks stubs).2 =
      match (bind s.symbols s.configuration m target stubs).2 with
      | .error e => ⟨m, .failed e, remarks⟩
      | .ok bindings =>
        ⟨m, .planned ⟨m.name, target.name, split.hint?, m.line, body, bindings,
            .ofBindings s.configuration m target
              (returnAggregate? s.symbols s.configuration m) bindings⟩,
          remarks ++
            (sizeMismatches s.symbols s.configuration bindings).map (s.sizeRemark m)⟩ := by
  unfold planMethod
  rcases bind s.symbols s.configuration m target stubs with ⟨_, _ | _⟩
  · rfl
  · rfl

theorem resolveMethod_eq (s : Sides) (m : Method) (stubs : StubTable) :
    s.resolveMethod m stubs =
      match s.selection m with
      | .error e => (stubs, ⟨m, .failed e, []⟩)
      | .ok none =>
        (stubs,
          ⟨m, .skipped,
            [s.remarkOn m .info (": " ++ s.manager.qualifiedName ++ " has no method '" ++
              (s.split m).target ++ "', left unchanged")]⟩)
      | .ok (some chosen) =>
        match m.body? with
        | none =>
          (stubs,
            ⟨m, .skipped, s.ambiguityRemark m (s.split m) chosen ++
              [s.remarkOn m .warning " has no body to replace"]⟩)
        | some body =>
          s.planMethod m (s.split m) chosen.method body
            (s.ambiguityRemark m (s.split m) chosen) stubs :=
  rfl

/-- What is told of a method does not depend on the stubs that the methods before it need. -/
theorem snd_resolveMethod (s : Sides) (m : Method) (stubs : StubTable) :
    (s.resolveMethod m stubs).2 = s.report m := by
  rw [report, resolveMethod_eq, resolveMethod_eq]
  split
  · rfl
  · rfl
  · split
    · rfl
    · rw [snd_planMethod, snd_planMethod, snd_bind_eq stubs .empty]

theorem method_report (s : Sides) (m : Method) : (s.report m).method = m := by
  rw [report, resolveMethod_eq]
  split
  · rfl
  · rfl
  · split
    · rfl
    · rw [snd_planMethod]
      split
      · rfl
      · rfl

theorem settles_report (s : Sides) (m : Method) : s.Settles m (s.report m).outcome := by
  rw [report, resolveMethod_eq]
  split
  · next e hSelection => exact Fails.selecting hSelection
  · next hSelection => exact Skipped.noCandidate (selectOverload_eq_none_iff.mp hSelection)
  · next chosen hSelection =>
    split
    · next hBody => exact Skipped.noBody hSelection hBody
    · next body hBody =>
      rw [snd_planMethod]
      split
      · next e hBind =>
        exact Fails.binding hSelection hBody fun stubs => (snd_bind_eq stubs .empty).trans hBind
      · next bindings hBind =>
        exact Planned.intro hSelection hBody fun stubs => (snd_bind_eq stubs .empty).trans hBind

theorem outcome_of_settles {outcome : MethodOutcome} (h : s.Settles m outcome) :
    (s.report m).outcome = outcome := by
  rw [report, resolveMethod_eq]
  cases outcome with
  | failed e =>
    rcases h with hSelection | ⟨hSelection, hBody, hBind⟩
    · rw [hSelection]
    · simp only [hSelection, hBody, snd_planMethod, hBind]
  | skipped =>
    rcases h with hCandidates | ⟨hSelection, hBody⟩
    · rw [selection, selectOverload_eq_none_iff.mpr hCandidates]
    · simp only [hSelection, hBody]
  | planned plan =>
    obtain ⟨hSelection, hBody, hBind⟩ := h
    simp only [hSelection, hBody, snd_planMethod, hBind]

theorem settles_iff (s : Sides) (m : Method) (outcome : MethodOutcome) :
    s.Settles m outcome ↔ (s.report m).outcome = outcome :=
  ⟨outcome_of_settles, fun h => h ▸ settles_report s m⟩

theorem existsUnique_settles (s : Sides) (m : Method) : ∃! outcome, s.Settles m outcome :=
  ⟨(s.report m).outcome, settles_report s m, fun _ h => (outcome_of_settles h).symm⟩

theorem failure?_report_eq_some_iff {e : Failure} :
    (s.report m).failure? = some e ↔ s.Fails m e := by
  rw [show s.Fails m e ↔ (s.report m).outcome = .failed e from settles_iff s m (.failed e),
    MethodReport.failure?]
  cases (s.report m).outcome <;> simp

theorem plan?_report_eq_some_iff {plan : MethodPlan} :
    (s.report m).plan? = some plan ↔ s.Planned m plan := by
  rw [show s.Planned m plan ↔ (s.report m).outcome = .planned plan from
      settles_iff s m (.planned plan), MethodReport.plan?]
  cases (s.report m).outcome <;> simp

theorem skipped?_report_eq_some_iff {name : String} :
    (s.report m).skipped? = some name ↔ s.Skipped m ∧ m.name = name := by
  rw [show s.Skipped m ↔ (s.report m).outcome = .skipped from settles_iff s m .skipped,
    MethodReport.skipped?, method_report]
  cases (s.report m).outcome <;> simp

theorem exists_remarkOn {d : Diagnostic} (h : d ∈ (s.report m).remarks) :
    ∃ severity message, severity ≠ .error ∧ d = s.remarkOn m severity message := by
  have hAmbiguity {split : SplitName} {chosen : Selection}
      (hd : d ∈ s.ambiguityRemark m split chosen) :
      ∃ severity message, severity ≠ .error ∧ d = s.remarkOn m severity message := by
    unfold ambiguityRemark at hd
    split at hd
    · exact ⟨.warning, _, by decide, List.mem_singleton.mp hd⟩
    · cases hd
  rw [report, resolveMethod_eq] at h
  split at h
  · cases h
  · exact ⟨.info, _, by decide, List.mem_singleton.mp h⟩
  · split at h
    · rcases List.mem_append.mp h with h | h
      · exact hAmbiguity h
      · exact ⟨.warning, _, by decide, List.mem_singleton.mp h⟩
    · rw [snd_planMethod] at h
      split at h
      · exact hAmbiguity h
      · rcases List.mem_append.mp h with h | h
        · exact hAmbiguity h
        · obtain ⟨mismatch, -, rfl⟩ := List.mem_map.mp h
          exact ⟨.warning, _, by decide, rfl⟩

theorem snd_resolveMethods (s : Sides) (ms : List Method) (stubs : StubTable) :
    (s.resolveMethods ms stubs).2 = ms.map s.report := by
  induction ms generalizing stubs with
  | nil => rfl
  | cons m ms ih =>
    rw [resolveMethods, List.map_cons, ← snd_resolveMethod s m stubs, ← ih]

end Sides

def Sides.Reports (s : Sides) (m : Method) (d : Diagnostic) : Prop :=
  ∃ e, s.Fails m e ∧ d = ⟨.error, "resolve", e.message, some (s.handler.name ++ "::" ++ m.name)⟩

theorem failureDiagnostic_report_eq_some_iff {s : Sides} {m : Method} {d : Diagnostic} :
    failureDiagnostic s (s.report m) = some d ↔ s.Reports m d := by
  rw [failureDiagnostic, Sides.method_report, Option.map_eq_some_iff]
  simp only [Sides.failure?_report_eq_some_iff]
  constructor
  · rintro ⟨e, hFails, rfl⟩
    exact ⟨e, hFails, rfl⟩
  · rintro ⟨e, hFails, rfl⟩
    exact ⟨e, hFails, rfl⟩

theorem resolveHandler_of_sides {g : Generation} {s : Sides} (h : g.sides = .ok s) :
    resolveHandler g =
      match s.handler.publicMethods.filterMap fun m => (s.report m).failure? with
      | [] =>
        ⟨{ g.remark (s.handler.publicMethods.flatMap fun m => (s.report m).remarks) with
            resolution? := some
              ⟨s.handler.publicMethods.filterMap fun m => (s.report m).plan?,
                s.handler.publicMethods.filterMap fun m => (s.report m).skipped?,
                (s.resolveMethods s.handler.publicMethods .empty).1⟩ },
          none⟩
      | failures =>
        ⟨(g.remark (s.handler.publicMethods.flatMap fun m => (s.report m).remarks)).remark
            (s.handler.publicMethods.filterMap fun m => failureDiagnostic s (s.report m)),
          some (.unresolved failures)⟩ := by
  rw [resolveHandler, h]
  simp only [Sides.snd_resolveMethods, List.filterMap_map, List.flatMap_map]
  rfl

open scoped Classical in
theorem filterMap_skipped? (s : Sides) (ms : List Method) :
    (ms.filterMap fun m => (s.report m).skipped?) = (ms.filter fun m => s.Skipped m).map (·.name) := by
  induction ms with
  | nil => rfl
  | cons m ms ih =>
    by_cases hSkipped : s.Skipped m
    · have hSome : (s.report m).skipped? = some m.name :=
        Sides.skipped?_report_eq_some_iff.mpr ⟨hSkipped, rfl⟩
      rw [List.filterMap_cons, hSome, List.filter_cons_of_pos (by simpa using hSkipped), List.map_cons, ih]
    · have hNone : (s.report m).skipped? = none := by
        by_contra hSome
        obtain ⟨name, hName⟩ := Option.ne_none_iff_exists'.mp hSome
        exact hSkipped (Sides.skipped?_report_eq_some_iff.mp hName).1
      rw [List.filterMap_cons, hNone, List.filter_cons_of_neg (by simpa using hSkipped), ih]

open scoped Classical in
/-- Every public method of the handler fails, is skipped or is planned. Resolving succeeds just if
none fails, and then has the plans and the skipped methods in order. Else it changes nothing but the
diagnostics, to which it adds the remarks on all methods and then one error for each that fails. -/
theorem resolving_settles_every_method {g : Generation} {symbols : SymbolTable}
    {file : Source.File} {handler manager : Class} {p : PatternLibrary.Compiled}
    (hSymbols : g.symbols? = some symbols) (hFile : g.skeletonFile = .ok file)
    (hHandler : symbols.classInFile? file.id g.configuration.handler.className = some handler)
    (hManager : symbols.class? g.configuration.manager.className = some manager)
    (hPattern : PatternLibrary.compile? g.configuration.matching.pattern = some p) :
    let s : Sides := ⟨g.configuration, symbols, handler, manager, p⟩
    let methods := handler.publicMethods
    let failing := methods.filter fun m => ∃ e, s.Fails m e
    let next := resolveHandler g
    (∀ m, ∃! outcome, s.Settles m outcome) ∧
    (next.failure? = none ↔ failing = []) ∧
    (failing = [] → ∃ r, next.state.resolution? = some r ∧
      List.Forall₂ (fun m plan => s.Planned m plan ∧ m.body? = some plan.body)
        (methods.filter fun m => ∃ plan, s.Planned m plan) r.plans ∧
      r.skipped = (methods.filter fun m => s.Skipped m).map (·.name)) ∧
    (failing ≠ [] → next.state.resolution? = g.resolution? ∧
      ∃ failures, next.failure? = some (.unresolved failures) ∧
        List.Forall₂ s.Fails failing failures) ∧
    (∃ errors, List.Forall₂ s.Reports failing errors ∧
      next.state.diagnostics =
        g.diagnostics ++ methods.flatMap (fun m => (s.report m).remarks) ++ errors) ∧
    ∀ m ∈ methods, ∀ d ∈ (s.report m).remarks,
      d.severity ≠ .error ∧ d.location? = some (handler.name ++ "::" ++ m.name) := by
  intro s methods failing next
  have hSides : g.sides = .ok s := sides_eq_ok_iff.mpr
    ⟨file, rfl, hSymbols, hFile, handlerClass_eq_ok_iff.mpr hHandler,
      managerClass_eq_ok_iff.mpr hManager, pattern_eq_ok_iff.mpr hPattern⟩
  have hFailures : List.Forall₂ s.Fails failing (methods.filterMap fun m => (s.report m).failure?) :=
    forall₂_filterMap (fun _ _ => Sides.failure?_report_eq_some_iff) methods
  have hErrors : List.Forall₂ s.Reports failing
      (methods.filterMap fun m => failureDiagnostic s (s.report m)) := by
    have hSame : failing = methods.filter fun m => ∃ d, s.Reports m d := by
      refine List.filter_congr fun m _ => ?_
      simp [Sides.Reports]
    rw [hSame]
    exact forall₂_filterMap (fun _ _ => failureDiagnostic_report_eq_some_iff) methods
  have hPlans : List.Forall₂ (fun m plan => s.Planned m plan ∧ m.body? = some plan.body)
      (methods.filter fun m => ∃ plan, s.Planned m plan)
      (methods.filterMap fun m => (s.report m).plan?) := by
    refine (forall₂_filterMap (fun _ _ => Sides.plan?_report_eq_some_iff) methods).imp ?_
    rintro m plan ⟨hSelection, hBody, hBind⟩
    exact ⟨.intro hSelection hBody hBind, hBody⟩
  have hRemarks : ∀ m ∈ methods, ∀ d ∈ (s.report m).remarks,
      d.severity ≠ .error ∧ d.location? = some (handler.name ++ "::" ++ m.name) := by
    intro m _ d hd
    obtain ⟨severity, message, hSeverity, rfl⟩ := Sides.exists_remarkOn hd
    exact ⟨hSeverity, rfl⟩
  refine ⟨s.existsUnique_settles, ?_⟩
  have hNext : next = _ := resolveHandler_of_sides hSides
  cases hCases : methods.filterMap fun m => (s.report m).failure? with
  | nil =>
    rw [hCases] at hFailures hNext
    rw [List.forall₂_nil_right_iff.mp hFailures] at hErrors ⊢
    rw [hNext]
    refine ⟨by simp, fun _ => ⟨_, rfl, hPlans, filterMap_skipped? s methods⟩, by simp,
      ⟨[], .nil, ?_⟩, hRemarks⟩
    rw [List.append_nil]
    rfl
  | cons e failures =>
    rw [hCases] at hFailures hNext
    have hSome : failing ≠ [] := by
      intro hNone
      rw [hNone] at hFailures
      cases hFailures
    rw [hNext]
    exact ⟨by simp [hSome], fun hNone => absurd hNone hSome,
      fun _ => ⟨rfl, _, rfl, hFailures⟩, ⟨_, hErrors, rfl⟩, hRemarks⟩

structure Sides.Resolves (s : Sides) (r : Resolution) : Prop where
  settled : ∀ m ∈ s.handler.publicMethods, (s.report m).failure? = none
  plans : r.plans = s.handler.publicMethods.filterMap fun m => (s.report m).plan?
  skipped : r.skipped = s.handler.publicMethods.filterMap fun m => (s.report m).skipped?
  stubs : r.stubs = (s.resolveMethods s.handler.publicMethods .empty).1

theorem exists_resolves {g next : Generation} (h : resolveHandler g = ⟨next, none⟩) :
    ∃ s r remarks, g.sides = .ok s ∧ s.Resolves r ∧
      next = { g.remark remarks with resolution? := some r } := by
  obtain ⟨s, hSides, hSettled, rfl⟩ := resolveHandler_eq_ok h
  rw [Sides.snd_resolveMethods, List.filterMap_map] at hSettled
  refine ⟨s, _, _, hSides, ⟨List.filterMap_eq_nil_iff.mp hSettled, ?_, ?_, rfl⟩, rfl⟩
  · simp only [Sides.snd_resolveMethods, List.filterMap_map]
    rfl
  · simp only [Sides.snd_resolveMethods, List.filterMap_map]
    rfl

namespace Sides.Resolves

variable {s : Sides} {r : Resolution}

theorem mem_plans_iff (h : s.Resolves r) {plan : MethodPlan} :
    plan ∈ r.plans ↔ ∃ m ∈ s.handler.publicMethods, s.Planned m plan := by
  simp only [h.plans, List.mem_filterMap, plan?_report_eq_some_iff]

theorem mem_skipped_iff (h : s.Resolves r) {name : String} :
    name ∈ r.skipped ↔ ∃ m ∈ s.handler.publicMethods, s.Skipped m ∧ m.name = name := by
  simp only [h.skipped, List.mem_filterMap, skipped?_report_eq_some_iff]

theorem planned_or_skipped (h : s.Resolves r) {m : Method} (hm : m ∈ s.handler.publicMethods) :
    (∃ plan, s.Planned m plan) ∨ s.Skipped m := by
  cases hOutcome : (s.report m).outcome with
  | failed e =>
    have hFails : s.Fails m e := (settles_iff s m (.failed e)).mpr hOutcome
    cases (h.settled m hm).symm.trans (failure?_report_eq_some_iff.mpr hFails)
  | skipped => exact .inr ((settles_iff s m .skipped).mpr hOutcome)
  | planned plan => exact .inl ⟨plan, (settles_iff s m (.planned plan)).mpr hOutcome⟩

end Sides.Resolves

end

def sampleMethod (name : String) (params : List Param) : Method where
  name := name
  kind := .regular
  returnType? := some .void
  params := params
  access := .isPublic
  isStatic := false
  isVirtual := false
  isConst := false
  line := 1
  nameSpan := ⟨0, 0, 0⟩
  body? := some ⟨⟨0, 0, 1⟩, ⟨0, 1, 2⟩⟩

def sampleClass (name : String) (methods : List Method) : Class :=
  ⟨name, name, .isStruct, ⟨0, 0, 2⟩, 1, [], methods, [], none⟩

def numberParam (name : String) : Param :=
  ⟨some name, .named "int", false⟩

/-- The manager: `F` and `K` take a number, and `R` takes a function. -/
def sampleManager : Class :=
  sampleClass "M"
    [sampleMethod "F" [numberParam "a"], sampleMethod "K" [numberParam "b"],
      sampleMethod "R" [⟨some "callback", .functionPointer .void [.named "int"], false⟩]]

def sampleConfiguration : Configuration :=
  { Configuration.default with
    handler := ⟨"H", "_return", "retval"⟩
    manager := ⟨"M", "Get", "mgr", []⟩
    matching := { MatchingSection.default with pattern := "(.*)_(.*)" } }

def sampleSymbols (methods : List Method) : SymbolTable :=
  ⟨[⟨0, "/s.cpp", ""⟩], ⟨[sampleClass "H" methods, sampleManager], [], []⟩⟩

def sampleGeneration (methods : List Method) : Generation :=
  { start sampleConfiguration sampleConfiguration.sources with
    symbols? := some (sampleSymbols methods)
    skeleton? := some 0 }

def sampleSides (methods : List Method) : Sides where
  configuration := sampleConfiguration
  symbols := sampleSymbols methods
  handler := sampleClass "H" methods
  manager := sampleManager
  pattern := (Pattern.read? "(.*)_(.*)").getD Pattern.empty

theorem class?_sampleSymbols (methods : List Method) :
    (sampleSymbols methods).class? "M" = some sampleManager := by
  have hName : SymbolTable.bareName "M" = "M" := by decide +kernel
  rw [SymbolTable.class?, hName]
  rfl

theorem resolving_settles_sampleMethods :
    (∃ r, (resolveHandler (sampleGeneration
      [sampleMethod "F" [numberParam "a"], sampleMethod "G" []])).state.resolution? = some r) ∧
    (resolveHandler (sampleGeneration
      [sampleMethod "F" [numberParam "a"], sampleMethod "K" []])).failure? ≠ none := by
  have hPattern (methods : List Method) :
      PatternLibrary.compile? "(.*)_(.*)" = some (sampleSides methods).pattern := by
    change Pattern.read? "(.*)_(.*)" = some ((Pattern.read? "(.*)_(.*)").getD Pattern.empty)
    decide +kernel
  constructor
  · let methods := [sampleMethod "F" [numberParam "a"], sampleMethod "G" []]
    obtain ⟨-, -, hSuccess, -⟩ := resolving_settles_every_method
      (g := sampleGeneration methods) rfl rfl rfl (class?_sampleSymbols methods)
      (hPattern methods)
    have hNone : ∀ m ∈ methods, ((sampleSides methods).report m).failure? = none := by
      decide +kernel
    obtain ⟨r, hResolved, -⟩ := hSuccess (List.filter_eq_nil_iff.mpr fun m hm => by
      simp only [decide_eq_true_eq, not_exists]
      intro e hFails
      cases (hNone m hm).symm.trans (Sides.failure?_report_eq_some_iff.mpr hFails))
    exact ⟨r, hResolved⟩
  · let methods := [sampleMethod "F" [numberParam "a"], sampleMethod "K" []]
    obtain ⟨-, hIff, -⟩ := resolving_settles_every_method
      (g := sampleGeneration methods) rfl rfl rfl (class?_sampleSymbols methods)
      (hPattern methods)
    rw [ne_eq, hIff, List.filter_eq_nil_iff]
    intro hNone
    have hFails : (sampleSides methods).Fails (sampleMethod "K" []) (.unboundArgument "K" "K" "b") :=
      Sides.failure?_report_eq_some_iff.mp (by decide +kernel)
    have hMem : sampleMethod "K" [] ∈ (sampleClass "H" methods).publicMethods :=
      List.mem_cons_of_mem _ List.mem_cons_self
    have hSettled := hNone _ hMem
    simp only [decide_eq_true_eq, not_exists] at hSettled
    exact hSettled _ hFails

end SkeletonWeave.Generation
