import Mathlib.Data.List.TakeWhile
import SkeletonWeave.Proofs.Configuration.Names
import SkeletonWeave.Proofs.Results
import SkeletonWeave.Proofs.Text.Cut

/-!
# The rules of configurations

A configuration is accepted exactly if its values follow all rules. Otherwise it
is rejected for the first rule that is broken, in the order of the sections, and
where the text of the configuration is pointed into, the rejected value stands
there.
-/

set_option autoImplicit false

namespace SkeletonWeave.Configuration

open Text

/-- A rule for a value of a configuration, with what the value is used for. -/
inductive Rule where
  | name (use value : String)
  | qualifiedName (use value : String)
  | pattern (value : String)
  | marker (use value : String)
  | indent (style : IndentStyle) (width : Nat)

def useIn (part kind : String) : String := kind ++ " in '" ++ part ++ "'"

def rules (c : Configuration) : List Rule :=
  .qualifiedName (useIn "handler" "class name") c.handler.className ::
  .name (useIn "handler" "return argument") c.handler.returnArgument ::
  .name (useIn "handler" "retval field") c.handler.resultField ::
  .qualifiedName (useIn "manager" "class name") c.manager.className ::
  .name (useIn "manager" "singleton accessor") c.manager.accessor ::
  .name (useIn "manager" "variable name") c.manager.objectName ::
  (c.manager.ignoredMethods.map (.name (useIn "manager" "ignored method")) ++
  .pattern c.matching.pattern ::
  .marker (useIn "matching" "callback marker") c.matching.callbackMarker ::
  .marker (useIn "matching" "context marker") c.matching.contextMarker ::
  (c.matching.conversions.map
    (fun entry => .qualifiedName (useIn "matching" "conversion type") entry.1) ++
  [.name (useIn "emit" "lock name") c.emit.lock,
    .name (useIn "emit" "result variable") c.emit.resultVariable,
    .indent c.emit.indent c.emit.indentWidth]))

namespace Rule

def Holds [PatternLibrary] : Rule → Prop
  | name _ value => IsIdentifier value
  | qualifiedName _ value => IsQualifiedName value
  | pattern value => ∃ p, PatternLibrary.compile? value = some p ∧ PatternLibrary.groupCount p = 2
  | marker _ value => ∃ c ∈ value.toList, isBlank c = false
  | indent style width => style = .spaces → 1 ≤ width

inductive Breaks [PatternLibrary] : Rule → Violation → Prop
  | name {use value : String} {v : Violation} (h : Faulty use value value v) :
    Breaks (.name use value) v
  | segment {use value segment : String} {before after : List String} {v : Violation}
    (hSegments : Segments value (before ++ segment :: after))
    (hBefore : ∀ other ∈ before, IsIdentifier other) (h : Faulty use value segment v) :
    Breaks (.qualifiedName use value) v
  | unreadable {value : String} (h : PatternLibrary.compile? value = none) :
    Breaks (.pattern value) .invalidPattern
  | groups {value : String} {p : PatternLibrary.Compiled}
    (h : PatternLibrary.compile? value = some p) (hCount : PatternLibrary.groupCount p ≠ 2) :
    Breaks (.pattern value)
      (.other ("disambiguation pattern must have exactly two capture groups (name, hint), found " ++
        Nat.repr (PatternLibrary.groupCount p)))
  | blank {use value : String} (h : ∀ c ∈ value.toList, isBlank c = true) :
    Breaks (.marker use value) (.other (use ++ " cannot be empty"))
  | narrow : Breaks (.indent .spaces 0)
      (.other "indent_width must be at least 1 when indent = \"spaces\"")

def value? : Rule → Option String
  | name _ value | qualifiedName _ value | pattern value | marker _ value => some value
  | indent _ _ => none

end Rule

theorem utf8ByteSize_eq_byteLength (s : String) : s.utf8ByteSize = byteLength s.toList := by
  obtain ⟨cs, rfl⟩ : ∃ cs, s = String.ofList cs := ⟨s.toList, String.ofList_toList.symm⟩
  rw [String.toList_ofList]
  induction cs with
  | nil => rfl
  | cons c cs ih =>
    rw [byteLength_cons, ← ih, String.ofList_cons, String.utf8ByteSize_append,
      String.utf8ByteSize_singleton]

theorem exists_of_positionFrom? {part cs : List Char} {offset start : Nat}
    (h : positionFrom? part offset cs = some start) :
    ∃ before after, cs = before ++ (part ++ after) ∧ start = offset + byteLength before := by
  induction cs generalizing offset with
  | nil =>
    rw [positionFrom?] at h
    split at h
    · next hPart =>
      cases h
      exact ⟨[], [], by simpa using hPart, rfl⟩
    · cases h
  | cons c cs ih =>
    rw [positionFrom?] at h
    split at h
    · next hStarts =>
      cases h
      obtain ⟨after, hText⟩ := List.isPrefixOf_iff_prefix.mp hStarts
      exact ⟨[], after, hText.symm, rfl⟩
    · obtain ⟨before, after, rfl, rfl⟩ := ih h
      exact ⟨c :: before, after, rfl, by rw [byteLength_cons]; omega⟩

/-- Whether a place, if there is one, is that of a value. -/
def PointsAt (text : String) (span? : Option ValueSpan) (value? : Option String) : Prop :=
  ∀ span ∈ span?, ∃ value ∈ value?,
    slice? text.toList span.start (span.start + span.length) = some value.toList

theorem pointsAt_findValue? (text value : String) :
    PointsAt text (findValue? text value) (some value) := by
  -- each of the places that are looked for has some text before and after the value
  have hPlace (before after : String) : PointsAt text
      ((positionFrom? (before ++ value ++ after).toList 0 text.toList).map fun start =>
        ⟨start + before.utf8ByteSize, value.utf8ByteSize⟩) (some value) := by
    intro span hSpan
    obtain ⟨start, hStart, rfl⟩ := Option.map_eq_some_iff.mp hSpan
    obtain ⟨outer, rest, hText, rfl⟩ := exists_of_positionFrom? hStart
    have hSlice := slice?_append (outer ++ before.toList) value.toList (after.toList ++ rest)
    refine ⟨value, rfl, ?_⟩
    rw [hText, utf8ByteSize_eq_byteLength, utf8ByteSize_eq_byteLength, Nat.zero_add,
      ← byteLength_append]
    simpa using hSlice
  have hOr {first second : Option ValueSpan} (hFirst : PointsAt text first (some value))
      (hSecond : PointsAt text second (some value)) : PointsAt text (first <|> second) (some value) := by
    cases first with
    | none => exact hSecond
    | some span => exact hFirst
  unfold findValue?
  split
  · rintro _ ⟨⟩
  · exact hOr (hPlace _ _) (hOr (hPlace _ _) (hOr (hPlace _ _) (hPlace _ _)))

theorem trim_eq_nil_iff {cs : List Char} : trim cs = [] ↔ ∀ c ∈ cs, isBlank c = true := by
  rw [trim, trimRight, dropEndWhile, List.reverse_eq_nil_iff, List.dropWhile_eq_nil_iff]
  simp only [List.mem_reverse, trimLeft]
  constructor
  · intro h c hc
    rw [← List.takeWhile_append_dropWhile (p := isBlank) (l := cs), List.mem_append] at hc
    rcases hc with hc | hc
    · exact List.all_eq_true.mp List.all_takeWhile c hc
    · exact h c hc
  · exact fun h c hc => h c ((List.dropWhile_sublist isBlank).subset hc)

variable [PatternLibrary]

/-- Whether the result of a check is that of one rule: it succeeds just if the rule holds, and otherwise
fails with what the value is rejected for. -/
structure Settles (text file : String) (r : Rule) (result : Except Error Unit) : Prop where
  accepts : result = .ok () ↔ r.Holds
  rejects : ¬r.Holds → ∃ span? v, (∀ w, r.Breaks w ↔ w = v) ∧
    result = .error (.violated file span? v) ∧ PointsAt text span? r.value?

theorem settles_settle {s : Site} {r : Rule} {value? : Option String} {fault? : Option Violation}
    (hNone : fault? = none ↔ r.Holds) (hSome : ∀ v, fault? = some v ↔ r.Breaks v)
    (hValue : ∀ value ∈ value?, r.value? = some value) :
    Settles s.text s.file r (s.settle value? fault?) := by
  cases fault? with
  | none => exact ⟨iff_of_true rfl (hNone.mp rfl), fun hBroken => absurd (hNone.mp rfl) hBroken⟩
  | some v =>
    refine ⟨iff_of_false nofun (mt hNone.mpr nofun), fun _ => ⟨_, v, fun w => ?_, rfl, ?_⟩⟩
    · rw [← hSome, Option.some.injEq, eq_comm]
    · cases value? with
      | none => rintro _ ⟨⟩
      | some value =>
        rw [hValue value rfl]
        exact pointsAt_findValue? s.text value

omit [PatternLibrary] in
theorem settle_ite (s : Site) (value? : Option String) (v : Violation) (p : Prop) [Decidable p] :
    (if p then s.reject value? v else .ok ()) = s.settle value? (if p then some v else none) := by
  split <;> rfl

section

variable (s : Site) (value kind : String)

theorem settles_checkName :
    Settles s.text s.file (.name (s.context kind) value) (s.checkName value kind) := by
  rw [Site.checkName_eq]
  refine settles_settle fault?_eq_none_iff (fun v => ?_) (fun _ h => h)
  rw [fault?_eq_some_iff]
  exact ⟨.name, fun | .name h => h⟩

theorem settles_checkQualifiedName :
    Settles s.text s.file (.qualifiedName (s.context kind) value)
      (s.checkQualifiedName value kind) := by
  obtain ⟨segments, hSegments⟩ := exists_segments value
  rw [s.checkQualifiedName_eq value kind hSegments]
  refine settles_settle ?_ (fun v => ?_) (fun _ h => h)
  · rw [List.findSome?_eq_none_iff]
    simp only [fault?_eq_none_iff]
    exact hSegments.isQualifiedName_iff.symm
  · rw [List.findSome?_eq_some_iff]
    simp only [fault?_eq_none_iff, fault?_eq_some_iff]
    constructor
    · rintro ⟨before, segment, after, rfl, hFault, hBefore⟩
      exact .segment hSegments hBefore hFault
    · rintro (_ | ⟨hOther, hBefore, hFault⟩)
      exact ⟨_, _, _, hSegments.eq_of hOther, hFault, hBefore⟩

theorem settles_checkMarker :
    Settles s.text s.file (.marker (s.context kind) value) (s.checkMarker value kind) := by
  have hBlank : (trim value.toList).isEmpty = true ↔ ∀ c ∈ value.toList, isBlank c = true := by
    rw [List.isEmpty_iff, trim_eq_nil_iff]
  rw [Site.checkMarker, settle_ite]
  refine settles_settle ?_ (fun v => ?_) nofun
  · rw [ite_eq_right_iff, hBlank]
    simp [Rule.Holds]
  · rw [Option.ite_none_right_eq_some, hBlank, Option.some.injEq]
    constructor
    · rintro ⟨h, rfl⟩
      exact .blank h
    · rintro ⟨⟩
      next h => exact ⟨h, rfl⟩

theorem settles_checkPattern :
    Settles s.text s.file (.pattern value) (s.checkPattern value) := by
  unfold Site.checkPattern
  cases hRead : PatternLibrary.compile? value with
  | none =>
    show Settles _ _ _ (s.settle value (some .invalidPattern))
    refine settles_settle ?_ (fun v => ?_) (fun _ h => h)
    · refine iff_of_false nofun ?_
      rintro ⟨p, hFound, -⟩
      cases hRead.symm.trans hFound
    · rw [Option.some.injEq]
      constructor
      · rintro rfl
        exact .unreadable hRead
      · rintro (_ | _ | _ | ⟨hFound, -⟩)
        · rfl
        · cases hRead.symm.trans hFound
  | some p =>
    show Settles _ _ _ (if PatternLibrary.groupCount p = 2 then _ else _)
    rw [← ite_not, settle_ite]
    refine settles_settle ?_ (fun v => ?_) (fun _ h => h)
    · rw [ite_eq_right_iff]
      constructor
      · exact fun h => ⟨p, hRead, not_not.mp fun hCount => nomatch h hCount⟩
      · rintro ⟨_, hFound, hCount⟩ hOther
        cases hRead.symm.trans hFound
        exact absurd hCount hOther
    · rw [Option.ite_none_right_eq_some, Option.some.injEq]
      constructor
      · rintro ⟨hCount, rfl⟩
        exact .groups hRead hCount
      · rintro (_ | _ | hNone | ⟨hFound, hCount⟩)
        · cases hRead.symm.trans hNone
        · cases hRead.symm.trans hFound
          exact ⟨hCount, rfl⟩

theorem settles_indent (style : IndentStyle) (width : Nat) :
    Settles s.text s.file (.indent style width)
      (if style = .spaces ∧ width = 0 then
        s.reject none (.other "indent_width must be at least 1 when indent = \"spaces\"")
      else .ok ()) := by
  rw [settle_ite]
  refine settles_settle ?_ (fun v => ?_) nofun
  · rw [ite_eq_right_iff]
    simp [Rule.Holds, Nat.one_le_iff_ne_zero]
  · rw [Option.ite_none_right_eq_some, Option.some.injEq]
    constructor
    · rintro ⟨⟨rfl, rfl⟩, rfl⟩
      exact .narrow
    · rintro ⟨⟩
      exact ⟨⟨rfl, rfl⟩, rfl⟩

end

/-- Whether a result is that of checks for rules, one after the other. -/
inductive Follows (text file : String) : List Rule → Except Error Unit → Prop
  | nil : Follows text file [] (.ok ())
  | cons {r : Rule} {rs : List Rule} {first rest : Except Error Unit}
    (h : Settles text file r first) (hRest : Follows text file rs rest) :
    Follows text file (r :: rs) (first >>= fun _ => rest)

namespace Follows

variable {text file : String} {rs : List Rule} {result : Except Error Unit}

theorem last {r : Rule} (h : Settles text file r result) : Follows text file [r] result := by
  have hAll := Follows.cons h .nil
  cases result <;> exact hAll

theorem forM {α : Type} {rule : α → Rule} {check : α → Except Error Unit}
    (h : ∀ a, Settles text file (rule a) (check a)) (hRest : Follows text file rs result) (as : List α) :
    Follows text file (as.map rule ++ rs) (as.forM check >>= fun _ => result) := by
  induction as with
  | nil => exact hRest
  | cons a as ih =>
    have hAll := Follows.cons (h a) ih
    rw [List.forM_eq_forM, List.forM_cons, bind_assoc]
    exact hAll

theorem eq_ok_iff (h : Follows text file rs result) : result = .ok () ↔ ∀ r ∈ rs, r.Holds := by
  induction h with
  | nil => simp
  | cons hFirst _ ih =>
    rw [bind_eq_ok, List.forall_mem_cons, ← ih, ← hFirst.accepts]
    constructor
    · rintro ⟨⟨⟩, hOk, hRest⟩
      exact ⟨hOk, hRest⟩
    · rintro ⟨hOk, hRest⟩
      exact ⟨(), hOk, hRest⟩

/-- Checks that fail do so as the check for the first broken rule does. -/
theorem exists_first_broken (h : Follows text file rs result) (hFails : result ≠ .ok ()) :
    ∃ before r after span? v, rs = before ++ r :: after ∧ (∀ q ∈ before, q.Holds) ∧ ¬r.Holds ∧
      (∀ w, r.Breaks w ↔ w = v) ∧ result = .error (.violated file span? v) ∧
      PointsAt text span? r.value? := by
  induction h with
  | nil => exact absurd rfl hFails
  | @cons r rs first rest hFirst _ ih =>
    by_cases hHolds : r.Holds
    · obtain rfl := hFirst.accepts.mpr hHolds
      obtain ⟨before, q, after, span?, v, rfl, hBefore, hBroken⟩ := ih hFails
      exact ⟨r :: before, q, after, span?, v, rfl, List.forall_mem_cons.mpr ⟨hHolds, hBefore⟩, hBroken⟩
    · obtain ⟨span?, v, hOnly, rfl, hPoints⟩ := hFirst.rejects hHolds
      exact ⟨[], r, rs, span?, v, rfl, nofun, hHolds, hOnly, rfl, hPoints⟩

end Follows

omit [PatternLibrary] in
theorem context_push (text file part kind : String) :
    (Site.push ⟨text, file, []⟩ part).context kind = useIn part kind := by
  simp [Site.context, Site.push, Site.pathText, useIn]

theorem follows_check (c : Configuration) (text file : String) :
    Follows text file c.rules (c.check text file) := by
  let site (part : String) : Site := Site.push ⟨text, file, []⟩ part
  have hName (part value kind : String) :
      Settles text file (.name (useIn part kind) value) ((site part).checkName value kind) :=
    context_push text file part kind ▸ settles_checkName (site part) value kind
  have hQualified (part value kind : String) : Settles text file (.qualifiedName (useIn part kind) value)
      ((site part).checkQualifiedName value kind) :=
    context_push text file part kind ▸ settles_checkQualifiedName (site part) value kind
  have hMarker (part value kind : String) :
      Settles text file (.marker (useIn part kind) value) ((site part).checkMarker value kind) :=
    context_push text file part kind ▸ settles_checkMarker (site part) value kind
  exact .cons (hQualified "handler" _ _) <| .cons (hName "handler" _ _) <|
    .cons (hName "handler" _ _) <| .cons (hQualified "manager" _ _) <|
    .cons (hName "manager" _ _) <| .cons (hName "manager" _ _) <|
    Follows.forM (fun method => hName "manager" method "ignored method")
      (.cons (settles_checkPattern (site "matching") _) <| .cons (hMarker "matching" _ _) <|
        .cons (hMarker "matching" _ _) <|
        Follows.forM (fun entry => hQualified "matching" entry.1 "conversion type")
          (.cons (hName "emit" _ _) <| .cons (hName "emit" _ _) <|
            .last (settles_indent (site "emit") _ _)) c.matching.conversions)
      c.manager.ignoredMethods

section

variable [ConfigurationFormat] {text : String} {c : Configuration}
  (hRead : ConfigurationFormat.decode? text = some c) (file : String)

include hRead

theorem parse_of_decode? : parse text file = (c.check text file).map fun _ => c := by
  rw [parse, hRead]

theorem parse_eq_ok_iff : parse text file = .ok c ↔ ∀ r ∈ c.rules, r.Holds := by
  rw [parse_of_decode? hRead, ← (follows_check c text file).eq_ok_iff]
  cases c.check text file with
  | ok => exact iff_of_true rfl rfl
  | error e => exact iff_of_false nofun nofun

theorem parse_eq_error (hBroken : ¬∀ r ∈ c.rules, r.Holds) :
    ∃ before r after span? v, c.rules = before ++ r :: after ∧ (∀ q ∈ before, q.Holds) ∧ ¬r.Holds ∧
      (∀ w, r.Breaks w ↔ w = v) ∧ parse text file = .error (.violated file span? v) ∧
      PointsAt text span? r.value? := by
  have hFollows := follows_check c text file
  obtain ⟨before, r, after, span?, v, hRules, hBefore, hFirst, hOnly, hError, hPoints⟩ :=
    hFollows.exists_first_broken (mt hFollows.eq_ok_iff.mp hBroken)
  refine ⟨before, r, after, span?, v, hRules, hBefore, hFirst, hOnly, ?_, hPoints⟩
  rw [parse_of_decode? hRead, hError]
  rfl

end

end SkeletonWeave.Configuration
