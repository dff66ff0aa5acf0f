import SkeletonWeave.Bridge.Call
import SkeletonWeave.Proofs.Bridge.Binding

/-!
# What becomes of the result of a call

A statement puts the value of its call in up to two places. A handler method
that returns a value itself declares a variable for it, and one that returns a
class through an argument has the value assigned to the result field of the
class. Neither place depends on what the target returns. Only where such an
argument has no result field is the target asked: the argument is assigned to as
a whole just if there is a value.
-/

set_option autoImplicit false

namespace SkeletonWeave.Bridge

section

variable (c : Configuration) (handler target : Method) (aggregate? : Option Class)

def HasResultField : Prop :=
  ∃ aggregate, aggregate? = some aggregate ∧
    ∃ f ∈ aggregate.fields, f.name = c.handler.resultField ∧ f.isStatic = false

/-- How a statement begins, and what follows the call in the body: the result variable is declared
and returned just if the handler method returns a value itself. -/
inductive Declares : String → List String → Prop
  | result {type : TypeExpr} (hType : handler.returnType? = some type)
    (hValue : type.isVoid = false) :
    Declares (type.spelling ++ " " ++ c.emit.resultVariable ++ " = ")
      ["return(" ++ c.emit.resultVariable ++ ");"]
  | nothing (hVoid : handler.returnsVoid = true) : Declares "" []

/-- What stands between the beginning of a statement and its call. -/
inductive Assigns : String → Prop
  | field (hArgument : HasArgument handler c.handler.returnArgument)
    (hField : HasResultField c aggregate?) :
    Assigns (c.handler.returnArgument ++ "." ++ c.handler.resultField ++ " = ")
  | whole (hArgument : HasArgument handler c.handler.returnArgument)
    (hField : ¬HasResultField c aggregate?) (hValue : target.returnsVoid = false) :
    Assigns (c.handler.returnArgument ++ " = ")
  | noArgument (hArgument : ¬HasArgument handler c.handler.returnArgument) : Assigns ""
  | noValue (hField : ¬HasResultField c aggregate?) (hVoid : target.returnsVoid = true) :
    Assigns ""

end

variable {c : Configuration} {handler target : Method} {aggregate? : Option Class}

theorem any_field?_iff :
    (aggregate?.any fun a => (a.field? c.handler.resultField).isSome) = true ↔
      HasResultField c aggregate? := by
  cases aggregate? with
  | none => simp [HasResultField]
  | some aggregate =>
    rw [Option.any_some, ← Option.ne_none_iff_isSome, ne_eq, field?_eq_none_iff]
    simp [HasResultField]

theorem isNone_param?_iff {name : String} :
    (handler.param? name).isNone = true ↔ ¬HasArgument handler name := by
  rw [Option.isNone_iff_eq_none, param?_eq_none_iff]

theorem assigns_ofMethods :
    Assigns c handler target aggregate?
      (ResultPlace.ofMethods c handler target aggregate?).assignment := by
  rw [ResultPlace.ofMethods]
  split
  · next hNone => exact .noArgument (isNone_param?_iff.mp hNone)
  · next hSome =>
    have hArgument := not_not.mp (mt isNone_param?_iff.mpr hSome)
    split
    · next hField => exact .field hArgument (any_field?_iff.mp hField)
    · next hField =>
      have hField := mt any_field?_iff.mpr hField
      split
      · next hVoid => exact .noValue hField hVoid
      · next hValue => exact .whole hArgument hField (eq_false_of_ne_true hValue)

theorem Assigns.eq_empty_iff {assigned : String} (h : Assigns c handler target aggregate? assigned)
    (hVoid : target.returnsVoid = true) :
    assigned = "" ↔
      ¬(HasArgument handler c.handler.returnArgument ∧ HasResultField c aggregate?) := by
  cases h with
  | field hArgument hField => simp [hArgument, hField]
  | whole _ _ hValue => simp [hVoid] at hValue
  | noArgument hArgument => simp [hArgument]
  | noValue hField => simp [hField]

theorem Declares.eq_empty_iff {declared : String} {returned : List String}
    (h : Declares c handler declared returned) : declared = "" ↔ handler.returnsVoid = true := by
  cases h with
  | result hType hValue => simp [Method.returnsVoid, hType, hValue]
  | nothing hVoid => simp [hVoid]

theorem resultType?_ofBindings (c : Configuration) (handler target : Method)
    (aggregate? : Option Class) (bindings : List Binding) :
    let s := CallSite.ofBindings c handler target aggregate? bindings
    (handler.returnsVoid = true ∧ s.resultType? = none) ∨
      ∃ type, handler.returnType? = some type ∧ type.isVoid = false ∧
        s.resultType? = some type.spelling := by
  simp only [CallSite.ofBindings, Method.returnsVoid]
  cases handler.returnType? with
  | none => exact .inl ⟨rfl, rfl⟩
  | some type =>
    cases hValue : type.isVoid with
    | true => exact .inl ⟨hValue, by simp [hValue]⟩
    | false => exact .inr ⟨type, rfl, hValue, by simp [hValue]⟩

/-- What becomes of the value of a call, whatever the methods and the class that is returned
through an argument. The value goes to the result variable and to the result field without regard
to the target, and to a whole argument only if the target has a value. So the statement for a target
without value is its call alone just if neither the variable nor the field is there; and the body
returns the variable just if the statement declares it. -/
theorem result_of_call (c : Configuration) (handler target : Method) (aggregate? : Option Class)
    (bindings : List Binding) :
    let s := CallSite.ofBindings c handler target aggregate? bindings
    ∃ declared assigned returned,
      Declares c handler declared returned ∧ Assigns c handler target aggregate? assigned ∧
      s.statement c = declared ++ (assigned ++ s.call ++ ";") ∧
      s.bodyLines c =
        [c.manager.shortName ++ "* " ++ c.manager.objectName ++ " = " ++ c.manager.shortName ++
            "::" ++ c.manager.accessor ++ "();",
          c.emit.lock ++ ".lock();", s.statement c, c.emit.lock ++ ".unlock();"] ++ returned ∧
      (target.returnsVoid = true →
        (s.statement c = s.call ++ ";" ↔ handler.returnsVoid = true ∧
          ¬(HasArgument handler c.handler.returnArgument ∧ HasResultField c aggregate?))) := by
  intro s
  have hAssigns : Assigns c handler target aggregate? s.place.assignment := assigns_ofMethods
  obtain ⟨declared, returned, hDeclares, hStatement, hBody⟩ :
      ∃ declared returned, Declares c handler declared returned ∧
        s.statement c = declared ++ (s.place.assignment ++ s.call ++ ";") ∧
        (if s.resultType?.isSome then ["return(" ++ c.emit.resultVariable ++ ");"] else []) =
          returned := by
    rcases resultType?_ofBindings c handler target aggregate? bindings with
      ⟨hVoid, hNone⟩ | ⟨type, hType, hValue, hSome⟩
    · refine ⟨"", [], .nothing hVoid, ?_, ?_⟩
      · rw [CallSite.statement, hNone, String.empty_append]
      · rw [hNone]
        rfl
    · refine ⟨_, _, .result hType hValue, ?_, ?_⟩
      · rw [CallSite.statement, hSome]
      · rw [hSome]
        rfl
  refine ⟨declared, s.place.assignment, returned, hDeclares, hAssigns, hStatement, ?_, ?_⟩
  · rw [CallSite.bodyLines, hBody]
  · intro hVoid
    rw [← hDeclares.eq_empty_iff, ← hAssigns.eq_empty_iff hVoid, hStatement,
      String.append_assoc, ← String.append_assoc, ← String.append_eq_empty_iff]
    constructor
    · intro h
      exact (String.append_left_inj _).mp (h.trans String.empty_append.symm)
    · intro h
      rw [h, String.empty_append]

theorem value_taken_from_void_target :
    (∃ handler target : Method, target.returnsVoid = true ∧
      let s := CallSite.ofBindings .default handler target none []
      s.statement .default = "int function_result = " ++ s.call ++ ";") ∧
    ∃ (handler target : Method) (aggregate : Class), target.returnsVoid = true ∧
      let s := CallSite.ofBindings .default handler target (some aggregate) []
      s.statement .default = "_return.retval = " ++ s.call ++ ";" := by
  let method (type : TypeExpr) (params : List Param) : Method :=
    ⟨"F", .regular, some type, params, .isPublic, false, false, false, 1, ⟨0, 0, 1⟩, none⟩
  let result : Field := ⟨"retval", .named "int", .isPublic, false⟩
  let aggregate : Class := ⟨"R", "R", .isStruct, ⟨0, 0, 1⟩, 1, [], [], [result], none⟩
  exact ⟨⟨method (.named "int") [], method .void [], by decide +kernel, by decide +kernel⟩,
    method .void [⟨some "_return", .named "R", false⟩], method .void [], aggregate,
    by decide +kernel, by decide +kernel⟩

end SkeletonWeave.Bridge
