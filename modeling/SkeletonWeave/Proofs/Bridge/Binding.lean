import Mathlib.Data.List.Forall2
import SkeletonWeave.Bridge.Binding

/-!
# How parameters are bound

A named parameter has four possible sources, and takes the first that there is.
A parameter without a source, or without a name, is refused. The parameters of a
target are bound in order up to the first that is refused, and neither bindings
nor refusals depend on the stubs that were registered before.
-/

set_option autoImplicit false

namespace SkeletonWeave

theorem Text.hasInfix_iff {part cs : List Char} : hasInfix part cs = true ↔ part <:+: cs := by
  induction cs with
  | nil => rw [hasInfix, List.isEmpty_iff, List.infix_nil]
  | cons c cs ih =>
    rw [hasInfix, Bool.or_eq_true, List.isPrefixOf_iff_prefix, ih, List.infix_cons_iff]

theorem Bridge.StubTable.name_register (t : StubTable) (target : String)
    (signature : TypeExpr × List TypeExpr) :
    (t.register target signature).1.name = Stub.nameFor target := by
  unfold register
  split
  · next stub hFound =>
    have hName := List.find?_some hFound
    exact eq_of_beq hName
  · rfl

namespace Bridge

def IsFirst {α : Type} (property : α → Prop) (xs : List α) (a : α) : Prop :=
  ∃ before after, xs = before ++ a :: after ∧ property a ∧ ∀ b ∈ before, ¬property b

theorem find?_eq_some_iff_isFirst {α : Type} {p : α → Bool} {property : α → Prop}
    (h : ∀ a, p a = true ↔ property a) {xs : List α} {a : α} :
    xs.find? p = some a ↔ IsFirst property xs a := by
  simp only [List.find?_eq_some_iff_append, IsFirst, h, Bool.not_eq_true', Bool.eq_false_iff, ne_eq]
  constructor
  · rintro ⟨hFirst, before, after, hList, hBefore⟩
    exact ⟨before, after, hList, hFirst, hBefore⟩
  · rintro ⟨before, after, hList, hFirst, hBefore⟩
    exact ⟨hFirst, before, after, hList, hBefore⟩

section

variable (s : SymbolTable) (c : Configuration) (handler target : Method)

def HasArgument (name : String) : Prop :=
  ∃ p ∈ handler.params, p.name? = some name

/-- Whether a handler method returns a class through an argument: the argument is its first
parameter of the configured name, and the class is looked up by the type behind that type's names. -/
def ReturnsThroughArgument (aggregate : Class) : Prop :=
  ∃ p, IsFirst (·.name? = some c.handler.returnArgument) handler.params p ∧
    s.class? (s.resolve p.type).base = some aggregate

def IsFieldNamed (name : String) (f : Field) : Prop :=
  f.name = name ∧ f.isStatic = false

def HasReturnField (name : String) : Prop :=
  ∃ aggregate, ReturnsThroughArgument s c handler aggregate ∧
    ∃ f ∈ aggregate.fields, IsFieldNamed name f

def Marked (marker name : String) : Prop :=
  marker.toList <:+: name.toList

def PointsToFunction (t : TypeExpr) : Prop :=
  t.signature.isSome = true ∨ (s.resolve t).signature.isSome = true

def Bindable (p : Param) : Prop :=
  ∃ name, p.name? = some name ∧
    (HasArgument handler name ∨ HasReturnField s c handler name ∨
      (Marked c.matching.callbackMarker name ∧ PointsToFunction s p.type) ∨
      (Marked c.matching.contextMarker name ∧ ¬Marked c.matching.callbackMarker name))

/-- The source of a parameter and the type of the value there: the first of the four that there
is. -/
inductive FirstSource (name : String) (type : TypeExpr) : ArgumentSource → Option TypeExpr → Prop
  | argument {p : Param} (hParam : IsFirst (·.name? = some name) handler.params p) :
    FirstSource name type (.handlerArgument name) (some p.type)
  | field {aggregate : Class} {f : Field} (hArgument : ¬HasArgument handler name)
    (hAggregate : ReturnsThroughArgument s c handler aggregate)
    (hField : IsFirst (IsFieldNamed name) aggregate.fields f) :
    FirstSource name type (.returnField name) (some f.type)
  | callback (hArgument : ¬HasArgument handler name) (hField : ¬HasReturnField s c handler name)
    (hMarked : Marked c.matching.callbackMarker name) (hPoints : PointsToFunction s type) :
    FirstSource name type (.callback ("&" ++ (target.name ++ "_callback"))) none
  | context (hArgument : ¬HasArgument handler name) (hField : ¬HasReturnField s c handler name)
    (hUnmarked : ¬Marked c.matching.callbackMarker name)
    (hMarked : Marked c.matching.contextMarker name) :
    FirstSource name type (.context c.matching.contextExpression) none

def BoundTo (p : Param) (b : Binding) : Prop :=
  p.name? = some b.argument ∧ b.targetType = p.type ∧
    FirstSource s c handler target b.argument p.type b.source b.sourceType?

/-- Why a parameter is refused, where `index` parameters stand before it. -/
inductive Refused (index : Nat) (p : Param) : Failure → Prop
  | unnamed (hName : p.name? = none) :
    Refused index p (.unboundArgument handler.name target.name ("#" ++ Nat.repr (index + 1)))
  | noFunction {name : String} (hName : p.name? = some name)
    (hArgument : ¬HasArgument handler name) (hField : ¬HasReturnField s c handler name)
    (hMarked : Marked c.matching.callbackMarker name) (hPoints : ¬PointsToFunction s p.type) :
    Refused index p (.callbackNotFunction handler.name target.name name p.type.spelling)
  | noSource {name : String} (hName : p.name? = some name)
    (hArgument : ¬HasArgument handler name) (hField : ¬HasReturnField s c handler name)
    (hCallback : ¬Marked c.matching.callbackMarker name)
    (hContext : ¬Marked c.matching.contextMarker name) :
    Refused index p (.unboundArgument handler.name target.name name)

end

variable {s : SymbolTable} {c : Configuration} {handler target : Method}

theorem param?_eq_some_iff {name : String} {p : Param} :
    handler.param? name = some p ↔ IsFirst (·.name? = some name) handler.params p :=
  find?_eq_some_iff_isFirst fun _ => beq_iff_eq

theorem field?_eq_some_iff {aggregate : Class} {name : String} {f : Field} :
    aggregate.field? name = some f ↔ IsFirst (IsFieldNamed name) aggregate.fields f :=
  find?_eq_some_iff_isFirst fun f => by simp [IsFieldNamed]

theorem returnAggregate?_eq_some_iff {aggregate : Class} :
    returnAggregate? s c handler = some aggregate ↔
      ReturnsThroughArgument s c handler aggregate := by
  simp only [returnAggregate?, ReturnsThroughArgument, ← param?_eq_some_iff, SymbolTable.classOf?]
  exact Option.bind_eq_some_iff

theorem param?_eq_none_iff {name : String} :
    handler.param? name = none ↔ ¬HasArgument handler name := by
  simp [Method.param?, HasArgument]

theorem field?_eq_none_iff {aggregate : Class} {name : String} :
    aggregate.field? name = none ↔ ∀ f ∈ aggregate.fields, f.name = name → f.isStatic = true := by
  simp [Class.field?]

theorem returnField_eq_none_iff {name : String} :
    (returnAggregate? s c handler).bind (·.field? name) = none ↔
      ¬HasReturnField s c handler name := by
  simp only [HasReturnField, ← returnAggregate?_eq_some_iff]
  cases returnAggregate? s c handler with
  | none => simp
  | some aggregate =>
    rw [Option.bind_some, field?_eq_none_iff]
    constructor
    · rintro h ⟨_, hSame, f, hf, hName, hStatic⟩
      cases hSame
      rw [h f hf hName] at hStatic
      cases hStatic
    · intro h f hf hName
      by_contra hStatic
      exact h ⟨aggregate, rfl, f, hf, hName, by simpa using hStatic⟩

theorem signature?_eq_none_iff {t : TypeExpr} : signature? s t = none ↔ ¬PointsToFunction s t := by
  simp [signature?, PointsToFunction]

theorem bindable_iff (target : Method) {p : Param} :
    Bindable s c handler p ↔ ∃ b, BoundTo s c handler target p b := by
  constructor
  · rintro ⟨name, hName, hSource⟩
    by_cases hArgument : HasArgument handler name
    · obtain ⟨q, hq⟩ := Option.ne_none_iff_exists'.mp (mt param?_eq_none_iff.mp (not_not.mpr hArgument))
      exact ⟨⟨name, p.type, _, _⟩, hName, rfl, .argument (param?_eq_some_iff.mp hq)⟩
    by_cases hField : HasReturnField s c handler name
    · obtain ⟨f, hf⟩ :=
        Option.ne_none_iff_exists'.mp (mt returnField_eq_none_iff.mp (not_not.mpr hField))
      obtain ⟨aggregate, hAggregate, hf⟩ := Option.bind_eq_some_iff.mp hf
      exact ⟨⟨name, p.type, _, _⟩, hName, rfl,
        .field hArgument (returnAggregate?_eq_some_iff.mp hAggregate) (field?_eq_some_iff.mp hf)⟩
    rcases hSource with h | h | ⟨hMarked, hPoints⟩ | ⟨hMarked, hUnmarked⟩
    · exact absurd h hArgument
    · exact absurd h hField
    · exact ⟨⟨name, p.type, _, _⟩, hName, rfl, .callback hArgument hField hMarked hPoints⟩
    · exact ⟨⟨name, p.type, _, _⟩, hName, rfl, .context hArgument hField hUnmarked hMarked⟩
  · rintro ⟨⟨name, type, source, sourceType?⟩, hName, -, hSource⟩
    simp only at hName hSource
    refine ⟨name, hName, ?_⟩
    cases hSource with
    | argument hParam =>
      left
      by_contra hArgument
      cases (param?_eq_some_iff.mpr hParam).symm.trans (param?_eq_none_iff.mpr hArgument)
    | field _ hAggregate hField =>
      right; left
      by_contra hNone
      have hAbsent := returnField_eq_none_iff.mpr hNone
      rw [returnAggregate?_eq_some_iff.mpr hAggregate, Option.bind_some,
        field?_eq_some_iff.mpr hField] at hAbsent
      cases hAbsent
    | callback _ _ hMarked hPoints => exact .inr (.inr (.inl ⟨hMarked, hPoints⟩))
    | context _ _ hUnmarked hMarked => exact .inr (.inr (.inr ⟨hMarked, hUnmarked⟩))

theorem bindable_or_refused (target : Method) (index : Nat) (p : Param) :
    Bindable s c handler p ∨ ∃ e, Refused s c handler target index p e := by
  by_cases hBindable : Bindable s c handler p
  · exact .inl hBindable
  right
  cases hName : p.name? with
  | none => exact ⟨_, .unnamed hName⟩
  | some name =>
    have hNone : ¬_ := fun hSource => hBindable ⟨name, hName, hSource⟩
    simp only [not_or, not_and, not_not] at hNone
    obtain ⟨hArgument, hField, hCallback, hContext⟩ := hNone
    by_cases hMarked : Marked c.matching.callbackMarker name
    · exact ⟨_, .noFunction hName hArgument hField hMarked (hCallback hMarked)⟩
    · exact ⟨_, .noSource hName hArgument hField hMarked fun h => hMarked (hContext h)⟩

theorem bindParam_of_boundTo {p : Param} {b : Binding} (h : BoundTo s c handler target p b)
    (index : Nat) (stubs : StubTable) :
    (bindParam s c (returnAggregate? s c handler) handler target index p stubs).2 = .ok b := by
  obtain ⟨name, type, source, sourceType?⟩ := b
  obtain ⟨hName, hType, hSource⟩ := h
  simp only at hName hType hSource
  subst hType
  simp only [bindParam, hName]
  cases hSource with
  | argument hParam => simp only [param?_eq_some_iff.mpr hParam]
  | field hArgument hAggregate hField =>
    simp only [param?_eq_none_iff.mpr hArgument, returnAggregate?_eq_some_iff.mpr hAggregate,
      Option.bind_some, field?_eq_some_iff.mpr hField]
  | callback hArgument hField hMarked hPoints =>
    obtain ⟨signature, hSignature⟩ :=
      Option.ne_none_iff_exists'.mp (mt signature?_eq_none_iff.mp (not_not.mpr hPoints))
    simp only [param?_eq_none_iff.mpr hArgument, returnField_eq_none_iff.mpr hField,
      Text.hasInfix_iff.mpr hMarked, if_true, hSignature, Stub.address, StubTable.name_register,
      Stub.nameFor]
  | context hArgument hField hUnmarked hMarked =>
    simp only [param?_eq_none_iff.mpr hArgument, returnField_eq_none_iff.mpr hField,
      mt Text.hasInfix_iff.mp hUnmarked, Text.hasInfix_iff.mpr hMarked, Bool.false_eq_true,
      if_false, if_true]

theorem bindParam_of_refused {index : Nat} {p : Param} {e : Failure}
    (h : Refused s c handler target index p e) (stubs : StubTable) :
    (bindParam s c (returnAggregate? s c handler) handler target index p stubs).2 = .error e := by
  cases h with
  | unnamed hName => simp only [bindParam, hName]
  | noFunction hName hArgument hField hMarked hPoints =>
    simp only [bindParam, hName, param?_eq_none_iff.mpr hArgument,
      returnField_eq_none_iff.mpr hField, Text.hasInfix_iff.mpr hMarked, if_true,
      signature?_eq_none_iff.mpr hPoints]
  | noSource hName hArgument hField hCallback hContext =>
    simp only [bindParam, hName, param?_eq_none_iff.mpr hArgument,
      returnField_eq_none_iff.mpr hField, mt Text.hasInfix_iff.mp hCallback,
      mt Text.hasInfix_iff.mp hContext, Bool.false_eq_true, if_false]

theorem Refused.not_bindable {index : Nat} {p : Param} {e : Failure}
    (h : Refused s c handler target index p e) : ¬Bindable s c handler p := by
  intro hBindable
  obtain ⟨b, hBound⟩ := (bindable_iff target).mp hBindable
  have hOk := bindParam_of_boundTo hBound index .empty
  rw [bindParam_of_refused h] at hOk
  cases hOk

theorem snd_bindParams_cons {bind : Nat → Param → StubTable → StubTable × Except Failure Binding}
    {index : Nat} {p : Param} {ps : List Param} {stubs : StubTable} :
    (bindParams bind index (p :: ps) stubs).2 =
      match (bind index p stubs).2 with
      | .error e => .error e
      | .ok b => (bindParams bind (index + 1) ps (bind index p stubs).1).2.map (b :: ·) := by
  rw [bindParams]
  rcases bind index p stubs with ⟨_, _ | _⟩
  · rfl
  · rfl

theorem bindParams_of_boundTo {ps : List Param} {bindings : List Binding}
    (h : List.Forall₂ (BoundTo s c handler target) ps bindings) (index : Nat) (stubs : StubTable) :
    (bindParams (bindParam s c (returnAggregate? s c handler) handler target) index ps stubs).2 =
      .ok bindings := by
  induction h generalizing index stubs with
  | nil => rfl
  | cons hBound _ ih =>
    rw [snd_bindParams_cons, bindParam_of_boundTo hBound]
    simp only [ih]
    rfl

theorem bindParams_of_refused {earlier : List Param} {p : Param} {e : Failure} {index : Nat}
    (hEarlier : ∀ q ∈ earlier, Bindable s c handler q)
    (hRefused : Refused s c handler target (index + earlier.length) p e) (later : List Param)
    (stubs : StubTable) :
    (bindParams (bindParam s c (returnAggregate? s c handler) handler target) index
      (earlier ++ p :: later) stubs).2 = .error e := by
  induction earlier generalizing index stubs with
  | nil =>
    rw [List.length_nil, Nat.add_zero] at hRefused
    rw [List.nil_append, snd_bindParams_cons, bindParam_of_refused hRefused]
  | cons q earlier ih =>
    obtain ⟨b, hBound⟩ := (bindable_iff target).mp (hEarlier q List.mem_cons_self)
    have hPosition : index + (q :: earlier).length = index + 1 + earlier.length := by
      rw [List.length_cons]
      omega
    rw [hPosition] at hRefused
    rw [List.cons_append, snd_bindParams_cons, bindParam_of_boundTo hBound]
    simp only [ih (fun q hq => hEarlier q (List.mem_cons_of_mem _ hq)) hRefused]
    rfl

theorem bound_or_refused (s : SymbolTable) (c : Configuration) (handler target : Method)
    (index : Nat) (ps : List Param) :
    (∃ bindings, List.Forall₂ (BoundTo s c handler target) ps bindings) ∨
      ∃ earlier p later e, ps = earlier ++ p :: later ∧
        (∀ q ∈ earlier, Bindable s c handler q) ∧
        Refused s c handler target (index + earlier.length) p e := by
  induction ps generalizing index with
  | nil => exact .inl ⟨[], .nil⟩
  | cons p ps ih =>
    rcases bindable_or_refused target index p with hBindable | ⟨e, hRefused⟩
    · obtain ⟨b, hBound⟩ := (bindable_iff target).mp hBindable
      rcases ih (index + 1) with ⟨bindings, hBindings⟩ | ⟨earlier, q, later, e, rfl, hEarlier, hq⟩
      · exact .inl ⟨b :: bindings, .cons hBound hBindings⟩
      · refine .inr ⟨p :: earlier, q, later, e, rfl, ?_, ?_⟩
        · intro r hr
          rcases List.mem_cons.mp hr with rfl | hr
          · exact hBindable
          · exact hEarlier r hr
        · have hPosition : index + (p :: earlier).length = index + 1 + earlier.length := by
            rw [List.length_cons]
            omega
          rwa [hPosition]
    · exact .inr ⟨[], p, ps, e, rfl, by simp, hRefused⟩

theorem bind_eq_ok_iff {stubs : StubTable} {bindings : List Binding} :
    (bind s c handler target stubs).2 = .ok bindings ↔
      List.Forall₂ (BoundTo s c handler target) target.params bindings := by
  refine ⟨fun h => ?_, fun h => bindParams_of_boundTo h 0 stubs⟩
  rcases bound_or_refused s c handler target 0 target.params with
    ⟨bindings', hBound⟩ | ⟨earlier, p, later, e, hParams, hEarlier, hRefused⟩
  · have hOk := bindParams_of_boundTo hBound 0 stubs
    cases h.symm.trans hOk
    exact hBound
  · have hError := bindParams_of_refused hEarlier hRefused later stubs
    rw [← hParams] at hError
    cases h.symm.trans hError

theorem bind_eq_error_iff {stubs : StubTable} {e : Failure} :
    (bind s c handler target stubs).2 = .error e ↔
      ∃ earlier p later, target.params = earlier ++ p :: later ∧
        (∀ q ∈ earlier, Bindable s c handler q) ∧
        Refused s c handler target earlier.length p e := by
  constructor
  · intro h
    rcases bound_or_refused s c handler target 0 target.params with
      ⟨bindings, hBound⟩ | ⟨earlier, p, later, e', hParams, hEarlier, hRefused⟩
    · cases h.symm.trans (bindParams_of_boundTo hBound 0 stubs)
    · have hError := bindParams_of_refused hEarlier hRefused later stubs
      rw [← hParams] at hError
      cases h.symm.trans hError
      rw [Nat.zero_add] at hRefused
      exact ⟨earlier, p, later, hParams, hEarlier, hRefused⟩
  · rintro ⟨earlier, p, later, hParams, hEarlier, hRefused⟩
    rw [bind, hParams]
    exact bindParams_of_refused hEarlier (by rwa [Nat.zero_add]) later stubs

theorem snd_bind_eq (stubs stubs' : StubTable) :
    (bind s c handler target stubs).2 = (bind s c handler target stubs').2 := by
  cases h : (bind s c handler target stubs).2 with
  | ok bindings => exact (bind_eq_ok_iff.mpr (bind_eq_ok_iff.mp h)).symm
  | error e => exact (bind_eq_error_iff.mpr (bind_eq_error_iff.mp h)).symm

theorem exists_forall₂_boundTo_iff {ps : List Param} :
    (∃ bindings, List.Forall₂ (BoundTo s c handler target) ps bindings) ↔
      ∀ p ∈ ps, Bindable s c handler p := by
  induction ps with
  | nil => exact ⟨fun _ => by simp, fun _ => ⟨[], .nil⟩⟩
  | cons p ps ih =>
    rw [List.forall_mem_cons, ← ih, bindable_iff target]
    constructor
    · rintro ⟨_, _ | ⟨hBound, hBindings⟩⟩
      exact ⟨⟨_, hBound⟩, _, hBindings⟩
    · rintro ⟨⟨b, hBound⟩, bindings, hBindings⟩
      exact ⟨b :: bindings, .cons hBound hBindings⟩

/-- The parameters of a target are bound just if each of them has a name and a source, each to the
first source that it has; else the failure is that of the first without. The stubs that are there
already change nothing in this. -/
theorem bind_by_first_source (s : SymbolTable) (c : Configuration) (handler target : Method) :
    (∀ stubs, (∃ bindings, (bind s c handler target stubs).2 = .ok bindings) ↔
      ∀ p ∈ target.params, Bindable s c handler p) ∧
    (∀ stubs bindings, (bind s c handler target stubs).2 = .ok bindings ↔
      List.Forall₂ (BoundTo s c handler target) target.params bindings) ∧
    (∀ stubs e, (bind s c handler target stubs).2 = .error e ↔
      ∃ earlier p later, target.params = earlier ++ p :: later ∧
        (∀ q ∈ earlier, Bindable s c handler q) ∧ ¬Bindable s c handler p ∧
        Refused s c handler target earlier.length p e) ∧
    ∀ stubs stubs', (bind s c handler target stubs).2 = (bind s c handler target stubs').2 := by
  refine ⟨?_, fun _ _ => bind_eq_ok_iff, ?_, snd_bind_eq⟩
  · intro stubs
    simp only [bind_eq_ok_iff]
    exact exists_forall₂_boundTo_iff
  · intro stubs e
    rw [bind_eq_error_iff]
    constructor
    · rintro ⟨earlier, p, later, hParams, hEarlier, hRefused⟩
      exact ⟨earlier, p, later, hParams, hEarlier, hRefused.not_bindable, hRefused⟩
    · rintro ⟨earlier, p, later, hParams, hEarlier, -, hRefused⟩
      exact ⟨earlier, p, later, hParams, hEarlier, hRefused⟩

end Bridge

end SkeletonWeave
