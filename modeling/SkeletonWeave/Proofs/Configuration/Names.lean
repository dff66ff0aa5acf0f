import SkeletonWeave.Configuration.Check
import SkeletonWeave.Proofs.Text.Splitting

/-!
# Names that can be written into code

An identifier is a word of letters, digits and underscores that does not start
with a digit and is no keyword. A qualified name is made of identifiers with
double colons between them, and perhaps before them. What is rejected of any
other name is its first segment that is no identifier.
-/

set_option autoImplicit false

namespace SkeletonWeave.Configuration

open Text

def CanStart (c : Char) : Prop := c.isAlpha = true ∨ c = '_'

def CanFollow (c : Char) : Prop := c.isAlphanum = true ∨ c = '_'

def Spelled (cs : List Char) : Prop :=
  ∃ c rest, cs = c :: rest ∧ CanStart c ∧ ∀ d ∈ rest, CanFollow d

inductive Misspelled : List Char → String → Prop
  | empty : Misspelled [] "name cannot be empty"
  | start {c : Char} {rest : List Char} (h : ¬CanStart c) :
    Misspelled (c :: rest) "name must start with a letter or underscore"
  | part {c d : Char} {rest : List Char} (hStart : CanStart c) (hd : d ∈ rest) (h : ¬CanFollow d) :
    Misspelled (c :: rest) "name must contain only letters, numbers, and underscores"

structure IsIdentifier (name : String) : Prop where
  spelled : Spelled name.toList
  free : name ∉ reservedWords

/-- What is wrong with a name, or with a segment of the `whole` name, that is not an identifier. -/
inductive Faulty (use whole name : String) : Violation → Prop
  | reserved (h : name ∈ reservedWords) : Faulty use whole name (.reservedWord name use)
  | misspelled {reason : String} (hFree : name ∉ reservedWords)
    (h : Misspelled name.toList reason) : Faulty use whole name (.invalidName whole use reason)

instance (c : Char) : Decidable (CanStart c) := inferInstanceAs (Decidable (_ ∨ _))

instance (c : Char) : Decidable (CanFollow c) := inferInstanceAs (Decidable (_ ∨ _))

theorem canStart_iff {c : Char} : (c.isAlpha || c == '_') = true ↔ CanStart c := by
  simp [CanStart]

theorem canFollow_iff {cs : List Char} :
    (cs.all fun c => c.isAlphanum || c == '_') = true ↔ ∀ c ∈ cs, CanFollow c := by
  simp [CanFollow]

theorem spelled_or_misspelled (cs : List Char) : Spelled cs ∨ ∃ reason, Misspelled cs reason := by
  cases cs with
  | nil => exact .inr ⟨_, .empty⟩
  | cons c rest =>
    by_cases hStart : CanStart c
    · by_cases hRest : ∀ d ∈ rest, CanFollow d
      · exact .inl ⟨c, rest, rfl, hStart, hRest⟩
      · simp only [not_forall] at hRest
        obtain ⟨d, hd, hOther⟩ := hRest
        exact .inr ⟨_, .part hStart hd hOther⟩
    · exact .inr ⟨_, .start hStart⟩

theorem identifierFault?_of_spelled {name : String} (h : Spelled name.toList) :
    identifierFault? name = none := by
  obtain ⟨c, rest, hName, hStart, hRest⟩ := h
  simp only [identifierFault?, hName, canStart_iff.mpr hStart, canFollow_iff.mpr hRest]
  rfl

theorem identifierFault?_of_misspelled {name reason : String} (h : Misspelled name.toList reason) :
    identifierFault? name = some reason := by
  generalize hName : name.toList = cs at h
  cases h with
  | empty => simp only [identifierFault?, hName]
  | start h =>
    simp only [identifierFault?, hName, eq_false_of_ne_true (mt canStart_iff.mp h)]
    rfl
  | part hStart hd h =>
    have hRest := mt canFollow_iff.mp fun hAll => h (hAll _ hd)
    simp only [identifierFault?, hName, canStart_iff.mpr hStart, eq_false_of_ne_true hRest]
    rfl

theorem identifierFault?_eq_none_iff {name : String} :
    identifierFault? name = none ↔ Spelled name.toList := by
  refine ⟨fun h => ?_, identifierFault?_of_spelled⟩
  refine (spelled_or_misspelled name.toList).resolve_right ?_
  rintro ⟨reason, hReason⟩
  rw [identifierFault?_of_misspelled hReason] at h
  cases h

theorem identifierFault?_eq_some_iff {name reason : String} :
    identifierFault? name = some reason ↔ Misspelled name.toList reason := by
  refine ⟨fun h => ?_, identifierFault?_of_misspelled⟩
  rcases spelled_or_misspelled name.toList with hSpelled | ⟨other, hOther⟩
  · rw [identifierFault?_of_spelled hSpelled] at h
    cases h
  · rw [identifierFault?_of_misspelled hOther] at h
    cases h
    exact hOther

def fault? (use whole name : String) : Option Violation :=
  if reservedWords.contains name then some (.reservedWord name use)
  else (identifierFault? name).map fun reason => .invalidName whole use reason

theorem fault?_eq_none_iff {use whole name : String} :
    fault? use whole name = none ↔ IsIdentifier name := by
  unfold fault?
  split
  · next hReserved =>
    refine iff_of_false (by simp) fun h => h.free ?_
    exact List.contains_iff_mem.mp hReserved
  · next hFree =>
    rw [Option.map_eq_none_iff, identifierFault?_eq_none_iff]
    exact ⟨fun h => ⟨h, mt List.contains_iff_mem.mpr hFree⟩, fun h => h.spelled⟩

instance (name : String) : Decidable (IsIdentifier name) :=
  decidable_of_iff (fault? "" name name = none) fault?_eq_none_iff

theorem fault?_eq_some_iff {use whole name : String} {v : Violation} :
    fault? use whole name = some v ↔ Faulty use whole name v := by
  unfold fault?
  split
  · next hReserved =>
    have hReserved := List.contains_iff_mem.mp hReserved
    constructor
    · rintro ⟨⟩
      exact .reserved hReserved
    · rintro (_ | ⟨hFree, -⟩)
      · rfl
      · exact absurd hReserved hFree
  · next hFree =>
    have hFree := mt List.contains_iff_mem.mpr hFree
    rw [Option.map_eq_some_iff]
    constructor
    · rintro ⟨reason, hReason, rfl⟩
      exact .misspelled hFree (identifierFault?_eq_some_iff.mp hReason)
    · rintro (hReserved | ⟨-, hReason⟩)
      · exact absurd hReserved hFree
      · exact ⟨_, identifierFault?_eq_some_iff.mpr hReason, rfl⟩

theorem IsIdentifier.noColon {name : String} (h : IsIdentifier name) : ':' ∉ name.toList := by
  obtain ⟨c, rest, hName, hStart, hRest⟩ := h.spelled
  rw [hName]
  rintro (_ | ⟨_, hColon⟩)
  · exact absurd hStart (by decide)
  · exact absurd (hRest ':' hColon) (by decide)

/-- Whether a name is made of identifiers, seen from some scope or from the outermost one. -/
def IsQualifiedName (name : String) : Prop :=
  ∃ segments, segments ≠ [] ∧ (∀ segment ∈ segments, IsIdentifier segment) ∧
    (name = "::".intercalate segments ∨ name = "::" ++ "::".intercalate segments)

/-- The parts of a text between double colons, without those that it starts with. -/
inductive Segments (name : String) (segments : List String) : Prop
  | inner (hInner : ¬"::".toList <+: name.toList)
    (h : SplitBy "::".toList name.toList (segments.map (·.toList)))
  | outermost {rest : List Char} (hName : name.toList = "::".toList ++ rest)
    (h : SplitBy "::".toList rest (segments.map (·.toList)))

theorem exists_segments (name : String) : ∃ segments, Segments name segments := by
  have hSplit (cs : List Char) : SplitBy "::".toList cs
      (((splitOn "::".toList cs).map String.ofList).map (·.toList)) := by
    simpa [Function.comp_def] using splitBy_splitOn (by decide : "::".toList ≠ []) cs
  by_cases hInner : "::".toList <+: name.toList
  · obtain ⟨rest, hName⟩ := hInner
    exact ⟨_, .outermost hName.symm (hSplit rest)⟩
  · exact ⟨_, .inner hInner (hSplit name.toList)⟩

theorem Segments.eq_of {name : String} {segments others : List String} (h : Segments name segments)
    (h' : Segments name others) : segments = others := by
  have hColons : "::".toList ≠ [] := by decide
  have hSame {cs : List Char} (hFirst : SplitBy "::".toList cs (segments.map (·.toList)))
      (hSecond : SplitBy "::".toList cs (others.map (·.toList))) : segments = others := by
    have hMap := (hFirst.splitOn_eq hColons).symm.trans (hSecond.splitOn_eq hColons)
    exact List.map_injective_iff.mpr (fun _ _ => String.toList_inj.mp) hMap
  cases h with
  | inner hInner hFirst =>
    cases h' with
    | inner _ hSecond => exact hSame hFirst hSecond
    | outermost hName _ => exact absurd ⟨_, hName.symm⟩ hInner
  | outermost hName hFirst =>
    cases h' with
    | inner hInner _ => exact absurd ⟨_, hName.symm⟩ hInner
    | outermost hOther hSecond =>
      obtain rfl := List.append_cancel_left (hName.symm.trans hOther)
      exact hSame hFirst hSecond

theorem segments_of_intercalate {name : String} {segments : List String} (hSome : segments ≠ [])
    (hNames : ∀ segment ∈ segments, IsIdentifier segment)
    (hName : name = "::".intercalate segments ∨ name = "::" ++ "::".intercalate segments) :
    Segments name segments := by
  have hSplit : SplitBy "::".toList ("::".intercalate segments).toList
      (segments.map (·.toList)) := by
    rw [String.toList_intercalate]
    refine splitBy_intercalate ':' [':'] ?_ (by simpa using hSome)
    simpa using fun segment hSegment => (hNames segment hSegment).noColon
  rcases hName with rfl | rfl
  · refine .inner ?_ hSplit
    obtain ⟨first, rest, rfl⟩ := List.exists_cons_of_ne_nil hSome
    obtain ⟨c, cs, hFirst, hStart, -⟩ := (hNames first List.mem_cons_self).spelled
    obtain ⟨more, hText⟩ : ∃ more, ("::".intercalate (first :: rest)).toList = c :: more := by
      cases rest with
      | nil => exact ⟨cs, by simpa using hFirst⟩
      | cons second rest => exact ⟨_, by rw [String.intercalate_cons_cons]; simp [hFirst]; rfl⟩
    rw [hText]
    rintro hColons
    rw [show "::".toList = [':', ':'] from rfl, List.cons_prefix_cons] at hColons
    rw [← hColons.1] at hStart
    exact absurd hStart (by decide)
  · exact .outermost (by simp) hSplit

theorem Segments.isQualifiedName_iff {name : String} {segments : List String}
    (h : Segments name segments) :
    IsQualifiedName name ↔ ∀ segment ∈ segments, IsIdentifier segment := by
  constructor
  · rintro ⟨others, hSome, hNames, hName⟩
    rwa [h.eq_of (segments_of_intercalate hSome hNames hName)]
  · intro hNames
    have hJoined {cs : List Char} (hSplit : SplitBy "::".toList cs (segments.map (·.toList))) :
        segments ≠ [] ∧ ("::".intercalate segments).toList = cs := by
      refine ⟨by simpa using hSplit.ne_nil, ?_⟩
      rw [String.toList_intercalate, hSplit.intercalate_eq]
    cases h with
    | inner _ hSplit =>
      obtain ⟨hSome, hText⟩ := hJoined hSplit
      exact ⟨segments, hSome, hNames, .inl (String.toList_inj.mp hText.symm)⟩
    | outermost hName hSplit =>
      obtain ⟨hSome, hText⟩ := hJoined hSplit
      refine ⟨segments, hSome, hNames, .inr (String.toList_inj.mp ?_)⟩
      rw [hName, String.toList_append, hText]

theorem IsQualifiedName.exists_last {name : String} (h : IsQualifiedName name) :
    ∃ scope last, name.toList = scope ++ last.toList ∧
      (scope = [] ∨ "::".toList <:+ scope) ∧ IsIdentifier last ∧
      afterLast "::".toList name.toList = last.toList := by
  obtain ⟨segments, hSome, hNames, hName⟩ := h
  obtain ⟨outer, last, rfl⟩ := (List.eq_nil_or_concat' segments).resolve_left hSome
  have hLast := hNames last (by simp)
  obtain ⟨scope, hText, hScope⟩ : ∃ scope, name.toList = scope ++ last.toList ∧
      (scope = [] ∨ "::".toList <:+ scope) := by
    cases outer with
    | nil =>
      rcases hName with rfl | rfl
      · exact ⟨[], by simp, .inl rfl⟩
      · exact ⟨"::".toList, by simp, .inr (List.suffix_refl _)⟩
    | cons first rest =>
      have hJoined := String.intercalate_append_of_ne_nil (l := first :: rest) (m := [last])
        (s := "::") (by simp) (by simp)
      rw [String.intercalate_singleton] at hJoined
      rcases hName with rfl | rfl
      · rw [hJoined, String.toList_append, String.toList_append]
        exact ⟨_, rfl, .inr (List.suffix_append _ _)⟩
      · rw [hJoined, String.toList_append, String.toList_append, String.toList_append, ← List.append_assoc,
          ← List.append_assoc]
        exact ⟨_, rfl, .inr (List.suffix_append _ _)⟩
  refine ⟨scope, last, hText, hScope, hLast, ?_⟩
  rw [hText, afterLast]
  rcases hScope with rfl | ⟨front, rfl⟩
  · exact afterLastFrom_of_notMem hLast.noColon _
  · exact afterLastFrom_colons hLast.noColon front _

namespace Site

def settle (s : Site) (value? : Option String) : Option Violation → Except Error Unit
  | none => .ok ()
  | some v => s.reject value? v

variable (s : Site) (name kind : String)

theorem checkName_eq : s.checkName name kind = s.settle name (fault? (s.context kind) name name) := by
  unfold checkName fault?
  split
  · rfl
  · cases identifierFault? name <;> rfl

theorem checkSegments_eq (segments : List String) :
    s.checkSegments name kind segments =
      s.settle name (segments.findSome? (fault? (s.context kind) name)) := by
  induction segments with
  | nil => rfl
  | cons segment rest ih =>
    rw [checkSegments, List.findSome?_cons, fault?]
    split
    · rfl
    · cases identifierFault? segment with
      | none => exact ih
      | some reason => rfl

theorem checkQualifiedName_eq {segments : List String} (h : Segments name segments) :
    s.checkQualifiedName name kind =
      s.settle name (segments.findSome? (fault? (s.context kind) name)) := by
  rw [← checkSegments_eq]
  have hSplit {cs : List Char} (hSplit : SplitBy "::".toList cs (segments.map (·.toList))) :
      (splitOn "::".toList cs).map String.ofList = segments := by
    rw [hSplit.splitOn_eq (by decide), List.map_map]
    simp [Function.comp_def]
  cases h with
  | inner hInner h =>
    simp only [checkQualifiedName]
    split
    · next rest hName => exact absurd ⟨rest, hName.symm⟩ hInner
    · rw [hSplit h]
  | @outermost rest hName h =>
    simp only [checkQualifiedName, hName]
    rw [← hSplit h]
    rfl

end Site

end SkeletonWeave.Configuration
