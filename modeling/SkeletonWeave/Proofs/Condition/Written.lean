import SkeletonWeave.Proofs.Condition.Words

/-!
# Conditions as they are written

A condition is written with parentheses where an operand binds looser than the
place where it stands, and with more of them as one likes. Its words come back
from each text that is spaced from them, since no two neighbours among them make
one sign.
-/

set_option autoImplicit false

namespace SkeletonWeave.Condition

open Text (isBlank)

/-- The places for operands: how loosely a condition may bind that stands there without
parentheses. -/
inductive Level where
  | or
  | and
  | comparison
  | signed
  deriving DecidableEq, Repr

def isName (w : String) : Bool :=
  isPlain w && !w.toList.head?.any Char.isDigit

inductive Written : Level → Condition → List String → Prop
  | number {n : Nat} {w : String} (hWord : WritesNumber n w) (hBound : n < 2 ^ 63) :
      Written .signed (.literal n) [w]
  | name {w : String} (hName : isName w = true) (hOther : w ≠ "defined") :
      Written .signed (.name w) [w]
  | isDefined {w : String} (hName : isName w = true) :
      Written .signed (.isDefined w) ["defined", w]
  | isDefinedGroup {w : String} (hName : isName w = true) :
      Written .signed (.isDefined w) ["defined", "(", w, ")"]
  | group {c : Condition} {ws : List String} (h : Written .or c ws) :
      Written .signed c ("(" :: (ws ++ [")"]))
  | not {c : Condition} {ws : List String} (h : Written .signed c ws) :
      Written .signed (.not c) ("!" :: ws)
  | negative {c : Condition} {ws : List String} (h : Written .signed c ws) :
      Written .signed (.negative c) ("-" :: ws)
  | ofSigned {c : Condition} {ws : List String} (h : Written .signed c ws) :
      Written .comparison c ws
  | compare {a b : Condition} {as bs : List String} (sign : Comparison)
      (ha : Written .comparison a as) (hb : Written .signed b bs) :
      Written .comparison (.compare sign a b) (as ++ sign.sign :: bs)
  | ofComparison {c : Condition} {ws : List String} (h : Written .comparison c ws) :
      Written .and c ws
  | and {a b : Condition} {as bs : List String} (ha : Written .and a as) (hb : Written .and b bs) :
      Written .and (.and a b) (as ++ "&&" :: bs)
  | ofAnd {c : Condition} {ws : List String} (h : Written .and c ws) : Written .or c ws
  | or {a b : Condition} {as bs : List String} (ha : Written .or a as) (hb : Written .or b bs) :
      Written .or (.or a b) (as ++ "||" :: bs)

def IsWritten (c : Condition) (text : String) : Prop :=
  ∃ ws, Written .or c ws ∧ Spaced ws text.toList

def grouped (isNeeded : Bool) (ws : List String) : List String :=
  if isNeeded then "(" :: (ws ++ [")"]) else ws

/-- The words of a condition in a place of the given level, with parentheses only where they are
needed. -/
def words : Level → Condition → List String
  | _, literal n => [Nat.repr n]
  | _, name w => [w]
  | _, isDefined w => ["defined", "(", w, ")"]
  | _, not a => "!" :: words .signed a
  | _, negative a => "-" :: words .signed a
  | level, compare c a b =>
    grouped (level == .signed) (words .comparison a ++ c.sign :: words .signed b)
  | level, and a b =>
    grouped (level == .signed || level == .comparison) (words .and a ++ "&&" :: words .and b)
  | level, or a b => grouped (level != .or) (words .or a ++ "||" :: words .or b)

def print (c : Condition) : String :=
  " ".intercalate (words .or c)

/-- Whether the numbers of a condition are in range and its names are names. -/
def isWritable : Condition → Bool
  | literal n => n < 2 ^ 63
  | name w => isName w && w != "defined"
  | isDefined w => isName w
  | not a | negative a => a.isWritable
  | compare _ a b | and a b | or a b => a.isWritable && b.isWritable

theorem Written.loosen {c : Condition} {ws : List String} (h : Written .signed c ws)
    (level : Level) : Written level c ws := by
  cases level with
  | or => exact .ofAnd (.ofComparison (.ofSigned h))
  | and => exact .ofComparison (.ofSigned h)
  | comparison => exact .ofSigned h
  | signed => exact h

theorem written_words {c : Condition} (h : c.isWritable = true) (level : Level) :
    Written level c (words level c) := by
  induction c generalizing level with
  | literal n =>
    have hWord := WritesNumber.decimal (n := n) [] (by simp)
    rw [List.append_nil, ← Nat.repr_eq_ofList_toDigits] at hWord
    exact (Written.number hWord (of_decide_eq_true h)).loosen level
  | name w =>
    rw [isWritable, Bool.and_eq_true, bne_iff_ne] at h
    exact (Written.name h.1 h.2).loosen level
  | isDefined w => exact (Written.isDefinedGroup h).loosen level
  | not a ih => exact (Written.not (ih h .signed)).loosen level
  | negative a ih => exact (Written.negative (ih h .signed)).loosen level
  | compare sign a b iha ihb =>
    rw [isWritable, Bool.and_eq_true] at h
    have hWritten := Written.compare sign (iha h.1 .comparison) (ihb h.2 .signed)
    cases level with
    | or => exact .ofAnd (.ofComparison hWritten)
    | and => exact .ofComparison hWritten
    | comparison => exact hWritten
    | signed => exact .group (.ofAnd (.ofComparison hWritten))
  | and a b iha ihb =>
    rw [isWritable, Bool.and_eq_true] at h
    have hWritten := Written.and (iha h.1 .and) (ihb h.2 .and)
    cases level with
    | or => exact .ofAnd hWritten
    | and => exact hWritten
    | comparison => exact .ofSigned (.group (.ofAnd hWritten))
    | signed => exact .group (.ofAnd hWritten)
  | or a b iha ihb =>
    rw [isWritable, Bool.and_eq_true] at h
    have hWritten := Written.or (iha h.1 .or) (ihb h.2 .or)
    cases level with
    | or => exact hWritten
    | and => exact .ofComparison (.ofSigned (.group hWritten))
    | comparison => exact .ofSigned (.group hWritten)
    | signed => exact .group hWritten

/-- Whether no long sign has its second character from the start of a word. -/
def Opens (w : String) : Prop :=
  ∀ d ∈ w.toList.head?, d ∉ ['&', '|', '=']

def Closes (w : String) : Prop :=
  w ∉ ["&", "|", "=", "!", "<", ">"]

instance (w : String) : Decidable (Opens w) :=
  decidable_of_iff (w.toList.head?.all (· ∉ ['&', '|', '=']) = true) (by
    simp [Opens, Option.all_eq_true])

instance (w : String) : Decidable (Closes w) :=
  inferInstanceAs (Decidable (_ ∉ _))

theorem long_cases {c d : Char} (h : longSigns.contains (String.ofList [c, d]) = true) :
    String.ofList [c] ∈ ["&", "|", "=", "!", "<", ">"] ∧ d ∈ ['&', '|', '='] := by
  simp only [longSigns, List.contains_cons, List.contains_nil, Bool.or_false, Bool.or_eq_true,
    beq_iff_eq] at h
  rcases h with h | h | h | h | h | h <;>
  · rw [← String.toList_inj, String.toList_ofList] at h
    cases h
    decide

theorem Opens.not_merges {v : String} (h : Opens v) (w : String) : ¬Merges w v := by
  rintro ⟨c, d, -, hd, hLong⟩
  exact h d hd (long_cases hLong).2

theorem Closes.not_merges {w : String} (h : Closes w) (v : String) : ¬Merges w v := by
  rintro ⟨c, d, hc, -, hLong⟩
  apply h
  rw [← String.ofList_toList (s := w), hc]
  exact (long_cases hLong).1

theorem opens_of_isPlain {w : String} (h : isPlain w = true) : Opens w := by
  intro d hd hSign
  rw [isPlain, Bool.and_eq_true, List.all_eq_true] at h
  have hPart := h.2 d (List.mem_of_head? hd)
  simp only [List.mem_cons, List.not_mem_nil, or_false] at hSign
  rcases hSign with rfl | rfl | rfl <;> cases hPart

theorem closes_of_isPlain {w : String} (h : isPlain w = true) : Closes w := by
  intro hSign
  simp only [List.mem_cons, List.not_mem_nil, or_false] at hSign
  rcases hSign with rfl | rfl | rfl | rfl | rfl | rfl <;> cases h

/-- Words that can stand between signs: neighbours do not merge, nor do the ends with a sign. -/
structure Joined (ws : List String) : Prop where
  filled : ws ≠ []
  words : ∀ w ∈ ws, isPlain w = true ∨ w ∈ signs
  opens : ∀ w ∈ ws.head?, Opens w
  closes : ∀ w ∈ ws.getLast?, Closes w
  apart : ws.IsChain fun w v => ¬Merges w v

theorem joined_singleton {w : String} (h : isPlain w = true) : Joined [w] where
  filled := by simp
  words v hv := by rw [List.mem_singleton.mp hv]; exact .inl h
  opens v hv := by cases hv; exact opens_of_isPlain h
  closes v hv := by cases hv; exact closes_of_isPlain h
  apart := .singleton w

theorem Joined.cons {ws : List String} (h : Joined ws) {w : String}
    (hWord : isPlain w = true ∨ w ∈ signs) (hOpens : Opens w) : Joined (w :: ws) where
  filled := by simp
  words v hv := by
    rcases List.mem_cons.mp hv with rfl | hv
    · exact hWord
    · exact h.words v hv
  opens v hv := by cases hv; exact hOpens
  closes v hv := by
    rw [List.getLast?_cons_of_ne_nil h.filled] at hv
    exact h.closes v hv
  apart := h.apart.cons fun v hv => (h.opens v hv).not_merges w

theorem Joined.concat {ws : List String} (h : Joined ws) {w : String}
    (hWord : isPlain w = true ∨ w ∈ signs) (hCloses : Closes w) : Joined (ws ++ [w]) where
  filled := by simp
  words v hv := by
    rcases List.mem_append.mp hv with hv | hv
    · exact h.words v hv
    · rw [List.mem_singleton.mp hv]
      exact hWord
  opens v hv := by
    rw [List.head?_append_of_ne_nil _ h.filled] at hv
    exact h.opens v hv
  closes v hv := by
    rw [List.getLast?_concat] at hv
    cases hv
    exact hCloses
  apart := h.apart.append (.singleton w) fun v hv _ _ => (h.closes v hv).not_merges _

theorem Joined.group {ws : List String} (h : Joined ws) : Joined ("(" :: (ws ++ [")"])) :=
  (h.concat (.inr (by decide)) (by decide)).cons (.inr (by decide)) (by decide)

theorem Joined.append {as bs : List String} (ha : Joined as) (hb : Joined bs) {sign : String}
    (hSign : sign ∈ signs) : Joined (as ++ sign :: bs) where
  filled := by simp
  words v hv := by
    rcases List.mem_append.mp hv with hv | hv
    · exact ha.words v hv
    · rcases List.mem_cons.mp hv with rfl | hv
      · exact .inr hSign
      · exact hb.words v hv
  opens v hv := by
    rw [List.head?_append_of_ne_nil _ ha.filled] at hv
    exact ha.opens v hv
  closes v hv := by
    rw [List.getLast?_append_of_ne_nil _ (by simp), List.getLast?_cons_of_ne_nil hb.filled] at hv
    exact hb.closes v hv
  apart := ha.apart.append (hb.apart.cons fun v hv => (hb.opens v hv).not_merges sign)
    fun v hv _ _ => (ha.closes v hv).not_merges _

theorem Written.joined {level : Level} {c : Condition} {ws : List String}
    (h : Written level c ws) : Joined ws := by
  induction h with
  | number hWord _ => exact joined_singleton (isPlain_of_writesNumber hWord)
  | name hName _ => exact joined_singleton (Bool.and_eq_true_iff.mp hName).1
  | isDefined hName =>
    exact (joined_singleton (Bool.and_eq_true_iff.mp hName).1).cons (.inl (by decide))
      (opens_of_isPlain (by decide))
  | isDefinedGroup hName =>
    exact (joined_singleton (Bool.and_eq_true_iff.mp hName).1).group.cons (.inl (by decide))
      (opens_of_isPlain (by decide))
  | group _ ih => exact ih.group
  | not _ ih => exact ih.cons (.inr (by decide)) (by decide)
  | negative _ ih => exact ih.cons (.inr (by decide)) (by decide)
  | ofSigned _ ih => exact ih
  | compare sign _ _ iha ihb => exact iha.append ihb (by cases sign <;> decide)
  | ofComparison _ ih => exact ih
  | and _ _ iha ihb => exact iha.append ihb (by decide)
  | ofAnd _ ih => exact ih
  | or _ _ iha ihb => exact iha.append ihb (by decide)

theorem Spaced.blank {ws : List String} {cs : List Char} (h : Spaced ws cs) {c : Char}
    (hBlank : isBlank c = true) : Spaced ws (c :: cs) := by
  have hAll {blanks : List Char} (hBlanks : ∀ d ∈ blanks, isBlank d = true) :
      ∀ d ∈ c :: blanks, isBlank d = true := by
    intro d hd
    rcases List.mem_cons.mp hd with rfl | hd
    · exact hBlank
    · exact hBlanks d hd
  cases h with
  | nil hBlanks => exact .nil (hAll hBlanks)
  | cons hBlanks hApart hRest => exact .cons (hAll hBlanks) hApart hRest

theorem spaced_intercalate (ws : List String) : Spaced ws (" ".intercalate ws).toList := by
  induction ws with
  | nil => exact .nil (by simp)
  | cons w ws ih =>
    cases ws with
    | nil =>
      have hSpaced : Spaced [w] ([] ++ (w.toList ++ [])) := .cons (by simp) (fun _ => rfl) (.nil (by simp))
      simpa using hSpaced
    | cons v ws =>
      have hSpaced : Spaced (w :: v :: ws) ([] ++ (w.toList ++ ' ' :: (" ".intercalate (v :: ws)).toList)) :=
        .cons (by simp) (fun _ => rfl) (ih.blank rfl)
      simpa using hSpaced

def isSpaced : List String → List Char → Bool
  | [], cs => cs.all isBlank
  | w :: ws, cs =>
    let text := cs.dropWhile isBlank
    let rest := text.drop w.toList.length
    w.toList.isPrefixOf text && !(isPlain w && rest.head?.any isWordPart) && isSpaced ws rest

theorem spaced_of_isSpaced {ws : List String} {cs : List Char} (h : isSpaced ws cs = true) :
    Spaced ws cs := by
  induction ws generalizing cs with
  | nil => exact .nil (List.all_eq_true.mp h)
  | cons w ws ih =>
    simp only [isSpaced, Bool.and_eq_true, Bool.not_eq_true', List.isPrefixOf_iff_prefix] at h
    obtain ⟨⟨⟨rest, hText⟩, hApart⟩, hRest⟩ := h
    rw [← hText, List.drop_left] at hApart hRest
    have hBlanks : ∀ c ∈ cs.takeWhile isBlank, isBlank c = true :=
      List.all_eq_true.mp List.all_takeWhile
    have hSpaced := Spaced.cons (w := w) hBlanks (fun hPlain => by simpa [hPlain] using hApart)
      (ih hRest)
    rwa [hText, List.takeWhile_append_dropWhile] at hSpaced

theorem isWritten_print {c : Condition} (h : c.isWritable = true) : c.IsWritten c.print :=
  ⟨words .or c, written_words h .or, spaced_intercalate _⟩

theorem IsWritten.exists_words {c : Condition} {text : String} (h : c.IsWritten text) :
    ∃ ws, Written .or c ws ∧ split text.toList = ws := by
  obtain ⟨ws, hWritten, hSpaced⟩ := h
  exact ⟨ws, hWritten, split_spaced hSpaced hWritten.joined.words hWritten.joined.apart⟩

end SkeletonWeave.Condition
