import SkeletonWeave.Proofs.Condition.Reading
import SkeletonWeave.Proofs.Condition.Written

/-!
# Values of written conditions

Main statement: a text that writes a condition has the value of this condition,
whatever its white space and its further parentheses. Operands of one sign are
read from left to right, so of `||` and `&&` only the value comes back and not
how their operands were grouped.
-/

set_option autoImplicit false

namespace SkeletonWeave.Condition

def SameValue (a b : Condition) : Prop :=
  ∀ isKnown worth, a.value isKnown worth = b.value isKnown worth

theorem SameValue.refl (c : Condition) : SameValue c c := fun _ _ => rfl

theorem SameValue.trans {a b c : Condition} (h : SameValue a b) (h' : SameValue b c) :
    SameValue a c := fun isKnown worth => (h isKnown worth).trans (h' isKnown worth)

theorem SameValue.not {a b : Condition} (h : SameValue a b) : SameValue (.not a) (.not b) := by
  intro isKnown worth
  rw [value, value, h isKnown worth]

theorem SameValue.negative {a b : Condition} (h : SameValue a b) :
    SameValue (.negative a) (.negative b) := by
  intro isKnown worth
  rw [value, value, h isKnown worth]

theorem SameValue.compare {a b a' b' : Condition} (ha : SameValue a a') (hb : SameValue b b')
    (sign : Comparison) : SameValue (.compare sign a b) (.compare sign a' b') := by
  intro isKnown worth
  rw [value, value, ha isKnown worth, hb isKnown worth]

theorem SameValue.and {a b a' b' : Condition} (ha : SameValue a a') (hb : SameValue b b') :
    SameValue (.and a b) (.and a' b') := by
  intro isKnown worth
  rw [value, value, ha isKnown worth, hb isKnown worth]

theorem SameValue.or {a b a' b' : Condition} (ha : SameValue a a') (hb : SameValue b b') :
    SameValue (.or a b) (.or a' b') := by
  intro isKnown worth
  rw [value, value, ha isKnown worth, hb isKnown worth]

theorem ofBool_ne_zero (b : Bool) : (ofBool b != 0) = b := by
  cases b <;> rfl

theorem sameValue_and_assoc (a b c : Condition) :
    SameValue (.and (.and a b) c) (.and a (.and b c)) := by
  intro isKnown worth
  simp only [value, ofBool_ne_zero, Bool.and_assoc]

theorem sameValue_or_assoc (a b c : Condition) :
    SameValue (.or (.or a b) c) (.or a (.or b c)) := by
  intro isKnown worth
  simp only [value, ofBool_ne_zero, Bool.or_assoc]

/-- A sign that joins operands from left to right, with the reader of one operand and the words
at which an operand ends. The value of a chain does not hang on how its operands are grouped. -/
structure Chain where
  sign : String
  join : Condition → Condition → Condition
  readOperand : List String → Condition × List String
  read : List String → Condition × List String
  readRest : Condition → List String → Condition × List String
  Ends : List String → Prop
  read_eq : ∀ ws, read ws = readRest (readOperand ws).1 (readOperand ws).2
  readRest_sign : ∀ a ws,
    readRest a (sign :: ws) = readRest (join a (readOperand ws).1) (readOperand ws).2
  ends_sign : ∀ ws, Ends (sign :: ws)
  sameValue_join : ∀ {a b a' b'}, SameValue a a' → SameValue b b' →
    SameValue (join a b) (join a' b')
  sameValue_assoc : ∀ a b c, SameValue (join (join a b) c) (join a (join b c))

/-- Whether words are read as a condition of the value of `c`, at the start of a chain and after
the sign of the chain, whatever the words after them go on with. -/
structure Chain.Reads (k : Chain) (c : Condition) (ws : List String) : Prop where
  start : ∃ c', SameValue c' c ∧ ∀ rest, k.Ends rest → k.read (ws ++ rest) = k.readRest c' rest
  next : ∀ a, ∃ c', SameValue c' (k.join a c) ∧
    ∀ rest, k.Ends rest → k.readRest a (k.sign :: (ws ++ rest)) = k.readRest c' rest

theorem Chain.reads_operand (k : Chain) {c c' : Condition} {ws : List String}
    (hSame : SameValue c' c) (hRead : ∀ rest, k.Ends rest → k.readOperand (ws ++ rest) = (c', rest)) :
    k.Reads c ws where
  start := ⟨c', hSame, fun rest hEnds => by rw [k.read_eq, hRead rest hEnds]⟩
  next a := ⟨k.join a c', k.sameValue_join (.refl a) hSame, fun rest hEnds => by
    rw [k.readRest_sign, hRead rest hEnds]⟩

theorem Chain.Reads.join {k : Chain} {a b : Condition} {as bs : List String} (ha : k.Reads a as)
    (hb : k.Reads b bs) : k.Reads (k.join a b) (as ++ k.sign :: bs) where
  start := by
    obtain ⟨a', hSameA, hReadA⟩ := ha.start
    obtain ⟨c', hSame, hRead⟩ := hb.next a'
    refine ⟨c', hSame.trans (k.sameValue_join hSameA (.refl b)), ?_⟩
    intro rest hEnds
    rw [List.append_assoc, List.cons_append, hReadA _ (k.ends_sign _), hRead rest hEnds]
  next x := by
    -- the left operand joins what stands before it, so the right one comes after both
    obtain ⟨a', hSameA, hReadA⟩ := ha.next x
    obtain ⟨c', hSame, hRead⟩ := hb.next a'
    have hGrouped := hSame.trans (k.sameValue_join hSameA (.refl b))
    refine ⟨c', hGrouped.trans (k.sameValue_assoc x a b), ?_⟩
    intro rest hEnds
    rw [List.append_assoc, List.cons_append, hReadA _ (k.ends_sign _), hRead rest hEnds]

def EndsComparison (ws : List String) : Prop :=
  ∀ w ∈ ws.head?, Comparison.ofSign? w = none

def EndsAnd (ws : List String) : Prop :=
  ws.head? ≠ some "&&" ∧ EndsComparison ws

theorem endsComparison_cons {w : String} (h : Comparison.ofSign? w = none) (ws : List String) :
    EndsComparison (w :: ws) := by
  intro v hv
  cases hv
  exact h

def andChain : Chain where
  sign := "&&"
  join := .and
  readOperand ws := (readComparison ws).1
  read ws := (readAnd ws).1
  readRest a ws := (readAndRest a ws).1
  Ends := EndsComparison
  read_eq := readAnd_eq
  readRest_sign := readAndRest_sign
  ends_sign := endsComparison_cons rfl
  sameValue_join := SameValue.and
  sameValue_assoc := sameValue_and_assoc

def orChain : Chain where
  sign := "||"
  join := .or
  readOperand ws := (readAnd ws).1
  read ws := (readOr ws).1
  readRest a ws := (readOrRest a ws).1
  Ends := EndsAnd
  read_eq := readOr_eq
  readRest_sign := readOrRest_sign
  ends_sign ws := ⟨by simp, endsComparison_cons rfl ws⟩
  sameValue_join := SameValue.or
  sameValue_assoc := sameValue_or_assoc

/-- Whether words are read as a condition of the value of `c` in a place of the given level. -/
def ReadsAs : Level → Condition → List String → Prop
  | .signed, c, ws => ∃ c', SameValue c' c ∧ ∀ rest, (readSigned (ws ++ rest)).1 = (c', rest)
  | .comparison, c, ws =>
    ∃ c', SameValue c' c ∧
      ∀ rest, (readComparison (ws ++ rest)).1 = (readComparisonRest c' rest).1
  | .and, c, ws => andChain.Reads c ws
  | .or, c, ws => orChain.Reads c ws

theorem readSigned_plain {w : String} (h : isPlain w = true) (hOther : w ≠ "defined")
    (rest : List String) : (readSigned (w :: rest)).1 = (ofWord w, rest) := by
  have hSign : ∀ sign ∈ ["!", "-", "("], w ≠ sign := by
    rintro sign hSign rfl
    simp only [List.mem_cons, List.not_mem_nil, or_false] at hSign
    rcases hSign with rfl | rfl | rfl <;> cases h
  rw [readSigned_operand, readOperand_word (hSign "(" (by simp)) hOther]
  · simpa using hSign "!" (by simp)
  · simpa using hSign "-" (by simp)

theorem ofWord_of_isName {w : String} (h : isName w = true) : ofWord w = .name w := by
  rw [isName, Bool.and_eq_true, Bool.not_eq_true'] at h
  rw [ofWord, integer?, h.2]
  rfl

theorem ofWord_of_writesNumber {n : Nat} {w : String} (h : WritesNumber n w) (hBound : n < 2 ^ 63) :
    ofWord w = .literal n := by
  rw [ofWord, integer?_of_writesNumber h hBound]

theorem readDefined_word {w : String} (h : isPlain w = true) (rest : List String) :
    (readDefined (w :: rest)).1 = (.isDefined w, rest) := by
  rw [readDefined]
  · rfl
  · rintro rest' hGroup
    cases hGroup
    cases h

theorem readSigned_defined (ws : List String) :
    (readSigned ("defined" :: ws)).1 = (readDefined ws).1 := by
  rw [readSigned_operand (by simp) (by simp), readOperand_defined]

theorem readsAs_group {c : Condition} {ws : List String} (h : ReadsAs .or c ws) :
    ReadsAs .signed c ("(" :: (ws ++ [")"])) := by
  obtain ⟨c', hSame, hRead⟩ := h.start
  refine ⟨c', hSame, ?_⟩
  intro rest
  have hInside : (readOr (ws ++ ")" :: rest)).1 = (c', ")" :: rest) :=
    (hRead _ ⟨by simp, endsComparison_cons rfl _⟩).trans (readOrRest_stop c' (by simp))
  rw [List.cons_append, List.append_assoc, List.singleton_append,
    readSigned_operand (by simp) (by simp), readOperand_group, hInside, dropClosing, if_pos rfl]

theorem Written.readsAs {level : Level} {c : Condition} {ws : List String}
    (h : Written level c ws) : ReadsAs level c ws := by
  induction h with
  | @number n w hWord hBound =>
    have hOther : w ≠ "defined" := by
      rintro rfl
      have := integer?_of_writesNumber hWord hBound
      cases this
    refine ⟨.literal n, .refl _, ?_⟩
    intro rest
    rw [List.singleton_append, readSigned_plain (isPlain_of_writesNumber hWord) hOther,
      ofWord_of_writesNumber hWord hBound]
  | @name w hName hOther =>
    refine ⟨.name w, .refl _, ?_⟩
    intro rest
    rw [List.singleton_append, readSigned_plain (Bool.and_eq_true_iff.mp hName).1 hOther,
      ofWord_of_isName hName]
  | @isDefined w hName =>
    refine ⟨.isDefined w, .refl _, ?_⟩
    intro rest
    rw [List.cons_append, List.singleton_append, readSigned_defined,
      readDefined_word (Bool.and_eq_true_iff.mp hName).1]
  | @isDefinedGroup w hName =>
    refine ⟨.isDefined w, .refl _, ?_⟩
    intro rest
    exact readSigned_defined _
  | group _ ih => exact readsAs_group ih
  | not _ ih =>
    obtain ⟨c', hSame, hRead⟩ := ih
    refine ⟨.not c', hSame.not, ?_⟩
    intro rest
    rw [List.cons_append, readSigned_not, hRead]
  | negative _ ih =>
    obtain ⟨c', hSame, hRead⟩ := ih
    refine ⟨.negative c', hSame.negative, ?_⟩
    intro rest
    rw [List.cons_append, readSigned_negative, hRead]
  | ofSigned _ ih =>
    obtain ⟨c', hSame, hRead⟩ := ih
    refine ⟨c', hSame, ?_⟩
    intro rest
    rw [readComparison_eq, hRead]
  | compare sign _ _ iha ihb =>
    obtain ⟨a', hSameA, hReadA⟩ := iha
    obtain ⟨b', hSameB, hReadB⟩ := ihb
    refine ⟨.compare sign a' b', hSameA.compare hSameB sign, ?_⟩
    intro rest
    rw [List.append_assoc, List.cons_append, hReadA,
      readComparisonRest_sign a' (Comparison.ofSign?_sign sign), hReadB]
  | ofComparison _ ih =>
    obtain ⟨c', hSame, hRead⟩ := ih
    exact andChain.reads_operand hSame fun rest hEnds =>
      (hRead rest).trans (readComparisonRest_stop c' hEnds)
  | and _ _ iha ihb => exact Chain.Reads.join (k := andChain) iha ihb
  | ofAnd _ ih =>
    obtain ⟨c', hSame, hRead⟩ := ih.start
    exact orChain.reads_operand hSame fun rest hEnds =>
      (hRead rest hEnds.2).trans (readAndRest_stop c' hEnds.1)
  | or _ _ iha ihb => exact Chain.Reads.join (k := orChain) iha ihb

theorem IsWritten.sameValue_read {c : Condition} {text : String} (h : c.IsWritten text) :
    SameValue (read text) c := by
  obtain ⟨ws, hWritten, hWords⟩ := h.exists_words
  obtain ⟨c', hSame, hRead⟩ := hWritten.readsAs.start
  have hEnd : (readOr (ws ++ [])).1 = (c', []) :=
    (hRead [] ⟨by simp, by simp [EndsComparison]⟩).trans (readOrRest_stop c' (by simp))
  rw [List.append_nil] at hEnd
  rw [read, hWords, hEnd]
  exact hSame

theorem IsWritten.evaluateWithin_eq {c : Condition} {text : String} (h : c.IsWritten text)
    (levels : Nat) (macros : Macros) :
    evaluateWithin levels text macros = c.value macros.contains (worthWithin levels macros) := by
  rw [Condition.evaluateWithin_eq]
  exact h.sameValue_read macros.contains (worthWithin levels macros)

/-- Each text that writes a condition, and so its print, has the value of the condition where a
name is worth what its replacement text is worth by itself, eight replacements deep. -/
theorem evaluate_written (c : Condition) (hWritable : c.isWritable = true) (macros : Macros) :
    c.IsWritten c.print ∧
      ∀ text, c.IsWritten text →
        evaluate text macros = c.value macros.contains (worthWithin 8 macros) := by
  refine ⟨isWritten_print hWritable, ?_⟩
  intro text hText
  exact hText.evaluateWithin_eq 8 macros

theorem isWritten_number {n : Nat} {w : String} (hWord : WritesNumber n w) (hBound : n < 2 ^ 63) :
    (literal n).IsWritten w := by
  refine ⟨[w], (Written.number hWord hBound).loosen .or, ?_⟩
  rw [← String.intercalate_singleton (s := " ") (t := w)]
  exact spaced_intercalate [w]

theorem evaluate_spaced_and_grouped :
    let c : Condition := .and (.not (.isDefined "B"))
      (.or (.compare .greaterOrEqual (.name "V") (.literal 31))
        (.compare .equal (.compare .less (.negative (.literal 1)) (.literal 2)) (.literal 0)))
    let text := "!defined( B )&&(( V>=0x1fUL)||-1 <2 == 0L )"
    c.isWritable = true ∧ c.IsWritten text ∧
      evaluate text (.ofList [("V", "0X20")]) = 1 := by
  intro c text
  have hZero : WritesNumber 0 "0L" := .decimal ['L'] (by simp [sizeLetters])
  have hOne : WritesNumber 1 "1" := .decimal [] (by simp)
  have hTwo : WritesNumber 2 "2" := .decimal [] (by simp)
  have hLimit : WritesNumber 31 "0x1fUL" :=
    .hexadecimal 'x' 0 ['1', 'f'] ['U', 'L'] (.inl rfl) (by decide) (by simp [sizeLetters])
  have hReplaced : WritesNumber 32 "0X20" :=
    .hexadecimal 'X' 0 ['2', '0'] [] (.inr rfl) (by decide) (by simp)
  have hCompared : Written .comparison (.compare .greaterOrEqual (.name "V") (.literal 31))
      ["V", ">=", "0x1fUL"] :=
    .compare .greaterOrEqual (.ofSigned (.name (by decide) (by decide))) (.number hLimit (by decide))
  have hChained : Written .comparison
      (.compare .equal (.compare .less (.negative (.literal 1)) (.literal 2)) (.literal 0))
      ["-", "1", "<", "2", "==", "0L"] :=
    .compare .equal (.compare .less (.ofSigned (.negative (.number hOne (by decide))))
      (.number hTwo (by decide))) (.number hZero (by decide))
  have hWritten : Written .or c ["!", "defined", "(", "B", ")", "&&", "(", "(", "V", ">=", "0x1fUL",
      ")", "||", "-", "1", "<", "2", "==", "0L", ")"] :=
    .ofAnd (.and (.ofComparison (.ofSigned (.not (.isDefinedGroup (by decide)))))
      (.ofComparison (.ofSigned (.group (.or
        (.ofAnd (.ofComparison (.ofSigned (.group (.ofAnd (.ofComparison hCompared))))))
        (.ofAnd (.ofComparison hChained)))))))
  have hText : c.IsWritten text := ⟨_, hWritten, spaced_of_isSpaced (by decide)⟩
  refine ⟨by decide, hText, ?_⟩
  rw [(evaluate_written c (by decide) _).2 text hText]
  have hWorth : worthWithin 8 (.ofList [("V", "0X20")]) "V" = 32 := by
    rw [worthWithin]
    exact (isWritten_number hReplaced (by decide)).evaluateWithin_eq 7 _
  simp only [c, value, hWorth]
  decide

end SkeletonWeave.Condition
