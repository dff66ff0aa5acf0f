import SkeletonWeave.Bridge.Call
import SkeletonWeave.Proofs.Bridge.Binding
import SkeletonWeave.Proofs.Declaration.Pointers

/-!
# Whose address is passed

A value of the handler method is cast to the type of the parameter, and its
address is taken if that type looks like a pointer. It looks like one if the
parameter is declared as a pointer, and also if there is a `*` in the template
arguments of its type. So the address is taken of just the pointers exactly for
the parameters whose base has no `*`, or which are pointers anyway.
-/

set_option autoImplicit false

namespace SkeletonWeave.Bridge

open Declarator (declaresPointer readParam? ReadFrom)

/-- Where the value of a source is found: in an argument of the handler method, or in a data member
of the one through which a class is returned. -/
inductive ValueAt (c : Configuration) : ArgumentSource → String → Prop
  | argument (name : String) : ValueAt c (.handlerArgument name) name
  | field (name : String) :
    ValueAt c (.returnField name) (c.handler.returnArgument ++ "." ++ name)

/-- A value, or its address, cast to a type. -/
def castTo (type : TypeExpr) (address : Bool) (value : String) : String :=
  "(" ++ type.spelling ++ ") " ++ (if address then "&" else "") ++ value

variable {s : SymbolTable} {c : Configuration} {handler target : Method}

theorem castTo_inj {type : TypeExpr} {address address' : Bool} {value : String} :
    castTo type address value = castTo type address' value ↔ address = address' := by
  refine ⟨fun h => ?_, fun h => h ▸ rfl⟩
  simp only [castTo, String.append_left_inj, String.append_right_inj] at h
  revert h
  cases address <;> cases address' <;> decide

theorem argumentExpression_eq_castTo {b : Binding} (hNode : b.source.isHandlerNode = true)
    (hPlain : conversionOf? c b.sourceType? = none) :
    ∃ value, ValueAt c b.source value ∧
      argumentExpression c b = castTo b.targetType b.targetType.isPointer value := by
  simp only [argumentExpression, hPlain]
  cases hSource : b.source with
  | handlerArgument name => exact ⟨name, .argument name, rfl⟩
  | returnField name => exact ⟨_, .field name, rfl⟩
  | callback expression =>
    rw [hSource] at hNode
    cases hNode
  | context expression =>
    rw [hSource] at hNode
    cases hNode

theorem isPointer_eq_declaresPointer_iff {ts : List Token} {p : Param}
    (h : readParam? ts = some p) :
    p.type.isPointer = declaresPointer ts ↔
      declaresPointer ts = true ∨ '*' ∉ p.type.base.toList := by
  have hPointer := Declarator.isPointer_of_readParam? h
  rw [Bool.eq_iff_iff, hPointer]
  tauto

theorem exists_param_of_mem_bindings {stubs : StubTable} {bindings : List Binding}
    (hBind : (bind s c handler target stubs).2 = .ok bindings) {b : Binding} (hb : b ∈ bindings) :
    ∃ p ∈ target.params, BoundTo s c handler target p b := by
  obtain ⟨i, hi, rfl⟩ := List.getElem_of_mem hb
  have hBound := bind_eq_ok_iff.mp hBind
  have hParam : i < target.params.length := by rwa [hBound.length_eq]
  exact ⟨target.params[i], List.getElem_mem hParam, hBound.get hParam hi⟩

/-- The argument for a parameter that was read is a cast to its type of the value that is bound to
it, or of the address of the value. That is the address just for pointers, exactly if the parameter
is declared as a pointer or there is no `*` in its base. -/
theorem argument_cast_to_type {files : List Source.File} {stream : List Token} {d : Declarations}
    (hRead : Declaration.read files stream = .ok d) {owner : Class} (hOwner : owner ∈ d.classes)
    (hTarget : target ∈ owner.methods) {stubs : StubTable} {bindings : List Binding}
    (hBind : (bind s c handler target stubs).2 = .ok bindings) {b : Binding} (hb : b ∈ bindings)
    (hNode : b.source.isHandlerNode = true) (hPlain : conversionOf? c b.sourceType? = none) :
    ∃ p ∈ target.params, BoundTo s c handler target p b ∧ ReadFrom p stream ∧
      ∃ value, ValueAt c b.source value ∧ ∀ ts, readParam? ts = some p →
        argumentExpression c b =
          castTo p.type (declaresPointer ts || p.type.base.toList.contains '*') value ∧
        (argumentExpression c b = castTo p.type (declaresPointer ts) value ↔
          declaresPointer ts = true ∨ '*' ∉ p.type.base.toList) := by
  obtain ⟨p, hp, hBound⟩ := exists_param_of_mem_bindings hBind hb
  have hFrom := Declaration.readFrom_of_read hRead hOwner hTarget hp
  obtain ⟨value, hValue, hExpression⟩ := argumentExpression_eq_castTo hNode hPlain
  rw [hBound.2.1] at hExpression
  refine ⟨p, hp, hBound, hFrom, value, hValue, fun ts hts => ?_⟩
  rw [hExpression, castTo_inj, castTo_inj, isPointer_eq_declaresPointer_iff hts]
  refine ⟨?_, Iff.rfl⟩
  rw [Bool.eq_iff_iff, Declarator.isPointer_of_readParam? hts, Bool.or_eq_true,
    List.contains_iff_mem]

/-- The first argument that the first method of the first class of a text is passed from the first
of the second, with where it comes from. -/
def passed? (text : String) :
    Option (List Token × Declarations × Class × Method × Method × List Binding × Binding) := do
  let stream ← (Token.lex 0 "a.h" text).toOption
  let d ← (Declaration.read [] stream).toOption
  let owner ← d.classes[0]?
  let target ← owner.methods[0]?
  let other ← d.classes[1]?
  let handler ← other.methods[0]?
  let bindings ← (bind ⟨[], d⟩ .default handler target .empty).2.toOption
  let b ← bindings[0]?
  return (stream, d, owner, target, handler, bindings, b)

/-- Whether it is the value of an argument, and passed as an expression. -/
def passes (text name : String) (test : TypeExpr → Bool) (expression : String) : Bool :=
  (passed? text).any fun (_, _, _, _, _, _, b) =>
    b.source == .handlerArgument name && (conversionOf? .default b.sourceType?).isNone &&
      b.targetType.signature.isNone && test b.targetType &&
      argumentExpression .default b == expression

theorem exists_of_passes {text name : String} {test : TypeExpr → Bool} {expression : String}
    (h : passes text name test expression = true) :
    ∃ stream d owner handler target bindings b, Token.lex 0 "a.h" text = .ok stream ∧
      Declaration.read [] stream = .ok d ∧ owner ∈ d.classes ∧ target ∈ owner.methods ∧
      (bind ⟨[], d⟩ .default handler target .empty).2 = .ok bindings ∧ b ∈ bindings ∧
      b.source = .handlerArgument name ∧ conversionOf? .default b.sourceType? = none ∧
      b.targetType.signature = none ∧ test b.targetType = true ∧
      argumentExpression .default b = expression := by
  rw [passes, Option.any_eq_true] at h
  obtain ⟨⟨stream, d, owner, target, handler, bindings, b⟩, hPassed, hTest⟩ := h
  simp only [passed?, Option.bind_eq_bind, Option.bind_eq_some_iff] at hPassed
  obtain ⟨_, hLex, _, hRead, _, hOwner, _, hTarget, _, -, _, -, _, hBind, _, hb, hSame⟩ := hPassed
  cases hSame
  simp only [Bool.and_eq_true, beq_iff_eq, Option.isNone_iff_eq_none] at hTest
  obtain ⟨⟨⟨⟨hSource, hPlain⟩, hSignature⟩, hType⟩, hExpression⟩ := hTest
  exact ⟨stream, d, owner, handler, target, bindings, b, eq_ok_of_toOption hLex,
    eq_ok_of_toOption hRead, List.mem_of_getElem? hOwner, List.mem_of_getElem? hTarget,
    eq_ok_of_toOption hBind, List.mem_of_getElem? hb, hSource, hPlain, hSignature, hType,
    hExpression⟩

def pointerParameter : String :=
  "struct M \x7b void F(const V<int>* p); \x7d;\nstruct H \x7b void F(V<int> p) \x7b \x7d \x7d;\n"

theorem address_of_pointer_passed :
    ∃ stream d owner handler target bindings b,
      Token.lex 0 "a.h" pointerParameter = .ok stream ∧ Declaration.read [] stream = .ok d ∧
      owner ∈ d.classes ∧ target ∈ owner.methods ∧
      (bind ⟨[], d⟩ .default handler target .empty).2 = .ok bindings ∧ b ∈ bindings ∧
      b.source.isHandlerNode = true ∧ conversionOf? .default b.sourceType? = none ∧
      ∃ p ∈ target.params, ∃ ts, ts.Sublist stream ∧ readParam? ts = some p ∧
        declaresPointer ts = true ∧ argumentExpression .default b = "(const V<int>*) &p" := by
  have hPasses : passes pointerParameter "p"
      (fun t => t.base.toList.count '*' == 0 && t.spelling.toList.count '*' == 1)
      "(const V<int>*) &p" = true := by
    decide +kernel
  obtain ⟨stream, d, owner, handler, target, bindings, b, hLex, hRead, hOwner, hTarget, hBind, hb,
    hSource, hPlain, hSignature, hTest, hExpression⟩ := exists_of_passes hPasses
  have hNode : b.source.isHandlerNode = true := by rw [hSource]; rfl
  obtain ⟨p, hp, hBound, ⟨ts, hPart, hts⟩, value, -, hCast⟩ :=
    argument_cast_to_type hRead hOwner hTarget hBind hb hNode hPlain
  rw [Bool.and_eq_true, beq_iff_eq, beq_iff_eq, hBound.2.1] at hTest
  rw [hBound.2.1] at hSignature
  have hPointer : declaresPointer ts = true := by
    rw [Declarator.declaresPointer_iff_count hts hSignature]
    omega
  exact ⟨stream, d, owner, handler, target, bindings, b, hLex, hRead, hOwner, hTarget, hBind, hb,
    hNode, hPlain, p, hp, ts, hPart, hts, hPointer, hExpression⟩

def pointerInArgument : String :=
  "struct M \x7b void F(V<int*> v); \x7d;\nstruct H \x7b void F(V<int*> v) \x7b \x7d \x7d;\n"

/-- A parameter that is no pointer is passed an address if a template argument of its type is
one. -/
theorem address_passed_for_pointer_in_argument :
    ∃ stream d owner handler target bindings b,
      Token.lex 0 "a.h" pointerInArgument = .ok stream ∧ Declaration.read [] stream = .ok d ∧
      owner ∈ d.classes ∧ target ∈ owner.methods ∧
      (bind ⟨[], d⟩ .default handler target .empty).2 = .ok bindings ∧ b ∈ bindings ∧
      b.source = .handlerArgument "v" ∧ conversionOf? .default b.sourceType? = none ∧
      ∃ p ∈ target.params, ∃ ts, ts.Sublist stream ∧ readParam? ts = some p ∧
        declaresPointer ts = false ∧ b.targetType = p.type ∧
        argumentExpression .default b = "(V<int*>) &v" := by
  have hPasses : passes pointerInArgument "v"
      (fun t => t.base.toList.count '*' == 1 && t.spelling.toList.count '*' == 1)
      "(V<int*>) &v" = true := by
    decide +kernel
  obtain ⟨stream, d, owner, handler, target, bindings, b, hLex, hRead, hOwner, hTarget, hBind, hb,
    hSource, hPlain, hSignature, hTest, hExpression⟩ := exists_of_passes hPasses
  obtain ⟨p, hp, hBound⟩ := exists_param_of_mem_bindings hBind hb
  obtain ⟨ts, hPart, hts⟩ := Declaration.readFrom_of_read hRead hOwner hTarget hp
  rw [Bool.and_eq_true, beq_iff_eq, beq_iff_eq, hBound.2.1] at hTest
  rw [hBound.2.1] at hSignature
  have hPointer : ¬declaresPointer ts = true := by
    rw [Declarator.declaresPointer_iff_count hts hSignature]
    omega
  exact ⟨stream, d, owner, handler, target, bindings, b, hLex, hRead, hOwner, hTarget, hBind, hb,
    hSource, hPlain, p, hp, ts, hPart, hts, eq_false_of_ne_true hPointer, hBound.2.1, hExpression⟩

end SkeletonWeave.Bridge
