import SkeletonWeave.Proofs.Declaration.Angles

/-!
# Types as they are written

What stands in a type, with which words it starts and ends, and how its words
are spelled together.
-/

set_option autoImplicit false

namespace SkeletonWeave

namespace Grammar

def BaseSyntax.parameters : BaseSyntax → List TypeSyntax
  | .applied _ arguments => arguments
  | _ => []

theorem TypeSyntax.sizeOf_parameter {base : BaseSyntax} {a : TypeSyntax} (h : a ∈ base.parameters) :
    sizeOf a < sizeOf base := by
  cases base with
  | builtin w => cases h
  | named path => cases h
  | applied path arguments =>
    have := List.sizeOf_lt_of_mem (show a ∈ arguments from h)
    simp only [BaseSyntax.applied.sizeOf_spec]
    omega

theorem TypeSyntax.induction {P : TypeSyntax → Prop}
    (step : ∀ isConst base pointers isReference, (∀ a ∈ base.parameters, P a) →
      P (.mk isConst base pointers isReference)) : (t : TypeSyntax) → P t
  | .mk isConst base pointers isReference => by
    apply step
    intro a ha
    exact TypeSyntax.induction step a
termination_by t => sizeOf t
decreasing_by
  have := sizeOf_parameter ha
  simp only [TypeSyntax.mk.sizeOf_spec]
  omega

theorem argumentWords_eq (arguments : List TypeSyntax) :
    argumentWords arguments = arguments.map TypeSyntax.words := by
  induction arguments with
  | nil => rfl
  | cons t ts ih => rw [argumentWords, ih, List.map_cons]

theorem argumentSpellings_eq (arguments : List TypeSyntax) :
    argumentSpellings arguments = arguments.map TypeSyntax.spelling := by
  induction arguments with
  | nil => rfl
  | cons t ts ih => rw [argumentSpellings, ih, List.map_cons]

theorem argumentTypes_eq (arguments : List TypeSyntax) :
    argumentTypes arguments = arguments.map TypeSyntax.denotes := by
  induction arguments with
  | nil => rfl
  | cons t ts ih => rw [argumentTypes, ih, List.map_cons]

theorem mem_separated {parts : List (List Word)} {w : Word} (h : w ∈ separated parts) :
    w = mark "," ∨ ∃ ws ∈ parts, w ∈ ws := by
  induction parts with
  | nil => cases h
  | cons ws parts ih =>
    cases parts with
    | nil => exact .inr ⟨ws, List.mem_cons_self, by simpa [separated] using h⟩
    | cons vs parts =>
      have h : w ∈ ws ++ mark "," :: separated (vs :: parts) := by simpa [separated] using h
      rcases List.mem_append.mp h with hFirst | hRest
      · exact .inr ⟨ws, List.mem_cons_self, hFirst⟩
      · rcases List.mem_cons.mp hRest with rfl | hLater
        · exact .inl rfl
        · obtain hComma | ⟨us, hPart, hMem⟩ := ih hLater
          · exact .inl hComma
          · exact .inr ⟨us, List.mem_cons_of_mem _ hPart, hMem⟩

theorem forall_mem_separated {P : Word → Prop} (hComma : P (mark ",")) {parts : List (List Word)}
    (h : ∀ ws ∈ parts, ∀ w ∈ ws, P w) : ∀ w ∈ separated parts, P w := by
  intro w hMem
  rcases mem_separated hMem with rfl | ⟨ws, hPart, hMem⟩
  · exact hComma
  · exact h ws hPart w hMem

theorem Path.isBase {p : Path} {w : Word} (h : w ∈ p.words) :
    (∃ n : Name, w = n.word) ∨ w = mark "::" := by
  rcases List.mem_cons.mp h with rfl | h
  · exact .inl ⟨p.first, rfl⟩
  · obtain ⟨n, -, hMem⟩ := List.mem_flatMap.mp h
    rcases List.mem_cons.mp hMem with rfl | hMem
    · exact .inr rfl
    · exact .inl ⟨n, List.mem_singleton.mp hMem⟩

theorem Path.isTypeWord {p : Path} : ∀ w ∈ p.words, IsTypeWord w := by
  intro w h
  rcases p.isBase h with ⟨n, rfl⟩ | rfl
  · exact .name n
  · exact .mark (by decide)

theorem ClassHead.forall_mem_words {P : Word → Prop} (h : ClassHead)
    (hType : ∀ w, IsTypeWord w → P w) (hKeyword : P (keyword h.kind))
    (hAccess : ∀ access, P (accessWord access)) (hColon : P (mark ":")) : ∀ w ∈ h.words, P w := by
  have hBases : ∀ w ∈ basesWords h.bases, P w := by
    unfold basesWords
    split
    · exact fun w hMem => absurd hMem List.not_mem_nil
    · rw [List.forall_mem_cons]
      refine ⟨hColon, forall_mem_separated (hType _ (.mark (by decide))) ?_⟩
      intro ws hPart
      obtain ⟨⟨access, path⟩, -, rfl⟩ := List.mem_map.mp hPart
      rw [baseWords, List.forall_mem_cons]
      exact ⟨hAccess access, fun w hMem => hType w (path.isTypeWord w hMem)⟩
  simp only [ClassHead.words, List.forall_mem_cons]
  exact ⟨hKeyword, hType _ (.name h.name), hBases⟩

theorem BaseSyntax.isTypeWord {base : BaseSyntax}
    (h : ∀ a ∈ base.parameters, ∀ w ∈ a.words, IsTypeWord w) : ∀ w ∈ base.words, IsTypeWord w := by
  cases base with
  | builtin v =>
    rw [words, List.forall_mem_singleton]
    exact .builtin v.property
  | named path => exact path.isTypeWord
  | applied path arguments =>
    have hArguments : ∀ w ∈ separated (argumentWords arguments), IsTypeWord w := by
      rw [argumentWords_eq]
      refine forall_mem_separated (.mark (by decide)) ?_
      intro ws hPart
      obtain ⟨a, ha, rfl⟩ := List.mem_map.mp hPart
      exact h a ha
    rw [words, List.forall_mem_append, List.forall_mem_cons, List.forall_mem_append,
      List.forall_mem_singleton]
    exact ⟨path.isTypeWord, .mark (by decide), hArguments, .mark (by decide)⟩

theorem TypeSyntax.isTypeWord (t : TypeSyntax) : ∀ w ∈ t.words, IsTypeWord w := by
  induction t using TypeSyntax.induction with
  | step isConst base pointers isReference ih =>
    intro w hMem
    simp only [words, List.mem_append] at hMem
    rcases hMem with ((hConst | hBase) | hPointers) | hReference
    · cases isConst with
      | false => cases hConst
      | true =>
        obtain rfl := List.mem_singleton.mp hConst
        exact .const
    · exact BaseSyntax.isTypeWord ih w hBase
    · obtain rfl := List.eq_of_mem_replicate hPointers
      exact .mark (by decide)
    · cases isReference with
      | false => cases hReference
      | true =>
        obtain rfl := List.mem_singleton.mp hReference
        exact .mark (by decide)

theorem Name.plain (n : Name) : n.word.text ∉ delimiters := by
  intro hMem
  have hNone : ∀ text ∈ delimiters, Grammar.isName text = false := by decide
  exact n.text_ne (hNone _ hMem) rfl

theorem Path.angled {commas : Bool} (p : Path) : Angled commas p.words := by
  apply Angled.of_plain
  intro w hMem
  rcases p.isBase hMem with ⟨n, rfl⟩ | rfl
  · exact n.plain
  · decide

theorem BaseSyntax.angled {base : BaseSyntax} (h : ∀ a ∈ base.parameters, Angled false a.words) :
    Angled false base.words := by
  cases base with
  | builtin w =>
    have hNone : ∀ text ∈ Words.builtin, text ∉ delimiters := by decide
    exact .plain (hNone w w.property) .nil
  | named path => exact path.angled
  | applied path arguments =>
    rw [words, argumentWords_eq]
    apply path.angled.append
    apply Angled.group _ .nil
    apply Angled.separated
    intro ws hPart
    obtain ⟨a, ha, rfl⟩ := List.mem_map.mp hPart
    exact h a ha

theorem TypeSyntax.angled (t : TypeSyntax) : Angled false t.words := by
  induction t using TypeSyntax.induction with
  | step isConst base pointers isReference ih =>
    have hConst : Angled false (if isConst then [word "const"] else []) := by
      apply Angled.of_plain
      cases isConst <;> decide
    have hPointers : Angled false (List.replicate pointers (mark "*")) := by
      apply Angled.of_plain
      intro w hMem
      obtain rfl := List.eq_of_mem_replicate hMem
      decide
    have hReference : Angled false (if isReference then [mark "&"] else []) := by
      apply Angled.of_plain
      cases isReference <;> decide
    exact ((hConst.append (BaseSyntax.angled ih)).append hPointers).append hReference

def bare (w : Word) : Token :=
  ⟨w.kind, w.text, nowhere, 0⟩

def gap : Option Word → Word → String
  | none, _ => ""
  | some a, b => if Token.needsSpace (bare a) (bare b) then " " else ""

def spellAfter (previous? : Option Word) : List Word → String
  | [] => ""
  | w :: ws => gap previous? w ++ w.text ++ spellAfter (some w) ws

theorem spell_cons (t : Token) (ts : List Token) :
    Token.spell (t :: ts) = t.text ++ spellAfter (some t.word) (ts.map Token.word) := by
  induction ts generalizing t with
  | nil => simp [Token.spell, spellAfter]
  | cons u ts ih =>
    rw [Token.spell, ih]
    simp only [List.map_cons, spellAfter, gap, String.append_assoc]
    rfl

theorem spell_eq (ts : List Token) : Token.spell ts = spellAfter none (ts.map Token.word) := by
  cases ts with
  | nil => rfl
  | cons t ts =>
    rw [spell_cons]
    simp only [List.map_cons, spellAfter, gap, String.empty_append]
    rfl

def lead (previous? : Option Word) : String :=
  gap previous? (word "")

theorem gap_of_identifier {w : Word} (h : w.kind = .identifier) (previous? : Option Word) :
    gap previous? w = lead previous? := by
  cases previous? with
  | none => rfl
  | some a => simp [lead, gap, Token.needsSpace, Token.isWord, bare, word, h]

theorem gap_mark {a : Word} (h : a ≠ mark ",") (m : String) : gap (some a) (mark m) = "" := by
  have hComma : (bare a).isPunctuation "," = false := by
    rw [Bool.eq_false_iff]
    intro hComma
    exact h (Token.isPunctuation_iff.mp hComma)
  have hWord : (bare (mark m)).isWord = false := rfl
  simp [gap, Token.needsSpace, hComma, hWord]

/-- Whether the words, of which the first is an identifier, are spelled as `text` and end with
`last`. -/
def Spells (ws : List Word) (text : String) (last : Word) : Prop :=
  ∀ previous? rest,
    spellAfter previous? (ws ++ rest) = lead previous? ++ text ++ spellAfter (some last) rest

namespace Spells

theorem identifier {w : Word} (h : w.kind = .identifier) : Spells [w] w.text w := by
  intro previous? rest
  rw [List.cons_append, spellAfter, gap_of_identifier h, List.nil_append]

theorem append {ws vs : List Word} {text more : String} {a b : Word} (h : Spells ws text a)
    (h' : Spells vs more b) : Spells (ws ++ vs) (text ++ (lead (some a) ++ more)) b := by
  intro previous? rest
  rw [List.append_assoc, h, h']
  simp only [String.append_assoc]

theorem mark {ws : List Word} {text : String} {a : Word} (h : Spells ws text a)
    (hComma : a ≠ Grammar.mark ",") (m : String) :
    Spells (ws ++ [Grammar.mark m]) (text ++ m) (Grammar.mark m) := by
  intro previous? rest
  rw [List.append_assoc, h, List.cons_append, List.nil_append, spellAfter, gap_mark hComma,
    String.empty_append]
  simp only [String.append_assoc]
  rfl

end Spells

def Spelled (ws : List Word) (text : String) : Prop :=
  ∃ last, last ≠ mark "," ∧ Spells ws text last

theorem ne_comma_of_identifier {w : Word} (h : w.kind = .identifier) : w ≠ mark "," := by
  rintro rfl
  cases h

theorem Spelled.spell_eq {ws : List Word} {text : String} (h : Spelled ws text) {ts : List Token}
    (hWords : ts.map Token.word = ws) : Token.spell ts = text := by
  obtain ⟨last, -, hSpells⟩ := h
  have hAll := hSpells none []
  rw [List.append_nil] at hAll
  rw [Grammar.spell_eq, hWords, hAll]
  simp [lead, gap, spellAfter]

theorem Spelled.separated {α : Type} {words : α → List Word} {text : α → String} {parts : List α}
    (h : ∀ a ∈ parts, Spelled (words a) (text a)) (hSome : parts ≠ []) :
    Spelled (separated (parts.map words)) (", ".intercalate (parts.map text)) := by
  induction parts with
  | nil => exact absurd rfl hSome
  | cons a parts ih =>
    obtain ⟨hFirst, hRest⟩ := List.forall_mem_cons.mp h
    -- A part ends with a word that takes no blank before a comma, and a comma takes one after it.
    cases parts with
    | nil => simpa [Grammar.separated] using hFirst
    | cons b parts =>
      obtain ⟨last, hComma, hSpells⟩ := hFirst
      obtain ⟨last', hComma', hLater⟩ := ih hRest (by simp)
      refine ⟨last', hComma', ?_⟩
      have hAll := (hSpells.mark hComma ",").append hLater
      have hSpace : lead (some (mark ",")) = " " := by decide
      have hText (rest : String) : text a ++ "," ++ (" " ++ rest) = text a ++ ", " ++ rest := by
        have hComma : "," ++ (" " ++ rest) = ", " ++ rest := by
          rw [← String.append_assoc]
          rfl
        rw [String.append_assoc, hComma, String.append_assoc]
      rw [hSpace, hText] at hAll
      simp only [Grammar.separated, List.map_cons, List.intercalate_cons_cons,
        String.intercalate_cons_cons]
      exact hAll

theorem Path.spelled (p : Path) : Spelled p.words p.text := by
  obtain ⟨first, more⟩ := p
  induction more generalizing first with
  | nil => exact ⟨first.word, ne_comma_of_identifier rfl, .identifier rfl⟩
  | cons n more ih =>
    obtain ⟨last, hComma, hSpells⟩ := ih n
    refine ⟨last, hComma, ?_⟩
    have hFirst : Spells [first.word] first.text first.word := .identifier rfl
    have hAll := (hFirst.mark (ne_comma_of_identifier rfl) "::").append hSpells
    have hSpace : lead (some (mark "::")) = "" := by decide
    rw [hSpace, String.empty_append] at hAll
    simpa [Path.text, Path.words] using hAll

theorem Spelled.pointers {ws : List Word} {text : String} (h : Spelled ws text) (n : Nat) :
    Spelled (ws ++ List.replicate n (mark "*")) (text ++ String.ofList (List.replicate n '*')) := by
  induction n with
  | zero => simpa using h
  | succ n ih =>
    obtain ⟨last, hComma, hSpells⟩ := ih
    refine ⟨mark "*", by decide, ?_⟩
    have hAll := hSpells.mark hComma "*"
    simp only [List.replicate_succ', String.ofList_append, ← List.append_assoc,
      ← String.append_assoc]
    exact hAll

theorem BaseSyntax.spelled {base : BaseSyntax}
    (h : ∀ a ∈ base.parameters, Spelled a.words a.spelling) : Spelled base.words base.spelling := by
  cases base with
  | builtin w => exact ⟨word w, ne_comma_of_identifier rfl, .identifier rfl⟩
  | named path => exact path.spelled
  | applied path arguments =>
    obtain ⟨last, hComma, hPath⟩ := path.spelled
    have hOpen := hPath.mark hComma "<"
    refine ⟨mark ">", by decide, ?_⟩
    rw [words, spelling, argumentWords_eq, argumentSpellings_eq]
    by_cases hNone : arguments = []
    · subst hNone
      have hClose := hOpen.mark (by decide) ">"
      simpa [separated] using hClose
    · have hAll : ∀ a ∈ arguments, Spelled a.words a.spelling := h
      obtain ⟨last', hComma', hArguments⟩ := Spelled.separated hAll hNone
      have hClose := (hOpen.append hArguments).mark hComma' ">"
      have hSpace : lead (some (mark "<")) = "" := by decide
      rw [hSpace, String.empty_append] at hClose
      simpa [List.append_assoc] using hClose

theorem TypeSyntax.spelled (t : TypeSyntax) : Spelled t.words t.spelling := by
  induction t using TypeSyntax.induction with
  | step isConst base pointers isReference ih =>
    have hBase := BaseSyntax.spelled ih
    have hConst : Spelled ((if isConst then [word "const"] else []) ++ base.words)
        ((if isConst then "const " else "") ++ base.spelling) := by
      cases isConst with
      | false => simpa using hBase
      | true =>
        obtain ⟨last, hComma, hSpells⟩ := hBase
        have hFirst : Spells [word "const"] "const" (word "const") := .identifier rfl
        have hAll := hFirst.append hSpells
        have hSpace : lead (some (word "const")) = " " := by decide
        rw [hSpace, ← String.append_assoc] at hAll
        exact ⟨last, hComma, hAll⟩
    cases isReference with
    | false => simpa [words, spelling] using hConst.pointers pointers
    | true =>
      obtain ⟨last, hComma, hSpells⟩ := hConst.pointers pointers
      exact ⟨mark "&", by decide, hSpells.mark hComma "&"⟩

theorem Path.exists_words_eq (p : Path) : ∃ ws w, p.words = ws ++ [w] ∧ w ≠ mark "::" := by
  obtain ⟨first, more⟩ := p
  induction more generalizing first with
  | nil => exact ⟨[], first.word, rfl, by rintro ⟨⟩⟩
  | cons n more ih =>
    obtain ⟨ws, w, hWords, hLast⟩ := ih n
    refine ⟨first.word :: mark "::" :: ws, w, ?_, hLast⟩
    rw [List.cons_append, List.cons_append, ← hWords]
    rfl

theorem BaseSyntax.exists_words_eq (base : BaseSyntax) :
    ∃ ws w, base.words = ws ++ [w] ∧ w ≠ mark "::" := by
  cases base with
  | builtin w => exact ⟨[], word w, rfl, by rintro ⟨⟩⟩
  | named path => exact path.exists_words_eq
  | applied path arguments =>
    exact ⟨path.words ++ mark "<" :: separated (argumentWords arguments), mark ">",
      by simp [words], by decide⟩

theorem TypeSyntax.exists_words_eq (t : TypeSyntax) :
    ∃ ws w, t.words = ws ++ [w] ∧ w ≠ mark "::" := by
  obtain ⟨isConst, base, pointers, isReference⟩ := t
  cases isReference with
  | true => exact ⟨_, mark "&", rfl, by decide⟩
  | false =>
    obtain ⟨ws, w, hWords, hLast⟩ := base.exists_words_eq
    rw [words, if_neg Bool.false_ne_true, List.append_nil, hWords]
    cases hPointers : (pointers : Nat) with
    | zero => exact ⟨(if isConst then [word "const"] else []) ++ ws, w, by simp, hLast⟩
    | succ n =>
      rw [List.replicate_succ', ← List.append_assoc]
      exact ⟨_, mark "*", rfl, by decide⟩

theorem BaseSyntax.exists_words_eq_cons (base : BaseSyntax) :
    ∃ w ws, base.words = w :: ws ∧ w.kind = .identifier ∧ w.text ∉ Words.qualifying := by
  have hName (n : Name) : n.text ∉ Words.qualifying := by
    intro hMem
    have hNone : ∀ text ∈ Words.qualifying, isName text = false := by decide
    exact n.text_ne (hNone _ hMem) rfl
  cases base with
  | builtin w =>
    have hNone : ∀ text ∈ Words.builtin, text ∉ Words.qualifying := by decide
    exact ⟨word w, [], rfl, rfl, hNone w w.property⟩
  | named path => exact ⟨path.first.word, _, rfl, rfl, hName path.first⟩
  | applied path arguments => exact ⟨path.first.word, _, rfl, rfl, hName path.first⟩

theorem TypeSyntax.exists_words_eq_cons (t : TypeSyntax) :
    ∃ w ws, t.words = w :: ws ∧ w.kind = .identifier := by
  obtain ⟨isConst, base, pointers, isReference⟩ := t
  obtain ⟨w, ws, hWords, hKind, -⟩ := base.exists_words_eq_cons
  rw [words, hWords]
  cases isConst with
  | false => exact ⟨w, _, rfl, hKind⟩
  | true => exact ⟨word "const", _, rfl, rfl⟩

theorem TypeSyntax.exists_naming (t : TypeSyntax) :
    ∃ w ∈ t.words, w.kind = .identifier ∧ w.text ∉ Words.qualifying := by
  obtain ⟨isConst, base, pointers, isReference⟩ := t
  obtain ⟨w, ws, hWords, hKind, hText⟩ := base.exists_words_eq_cons
  refine ⟨w, ?_, hKind, hText⟩
  simp [words, hWords]

theorem length_le_separated {parts : List (List Word)} {ws : List Word} (h : ws ∈ parts) :
    ws.length ≤ (separated parts).length := by
  induction parts with
  | nil => cases h
  | cons vs parts ih =>
    cases parts with
    | nil =>
      obtain rfl := List.mem_singleton.mp h
      simp [separated]
    | cons us parts =>
      have hLength : (separated (vs :: us :: parts)).length =
          vs.length + (1 + (separated (us :: parts)).length) := by
        simp [separated]
        omega
      rcases List.mem_cons.mp h with rfl | hLater
      · omega
      · have := ih hLater
        omega

theorem TypeSyntax.length_parameter_lt (isConst : Bool) {base : BaseSyntax} (pointers : Fin 255)
    (isReference : Bool) {a : TypeSyntax} (h : a ∈ base.parameters) :
    a.words.length < (TypeSyntax.mk isConst base pointers isReference).words.length := by
  have hBase : a.words.length < base.words.length := by
    cases base with
    | builtin w => cases h
    | named path => cases h
    | applied path arguments =>
      have hPart : a.words ∈ argumentWords arguments := by
        rw [argumentWords_eq]
        exact List.mem_map_of_mem h
      have := length_le_separated hPart
      simp only [BaseSyntax.words, List.length_append, List.length_cons]
      omega
  simp only [words, List.length_append]
  omega

end Grammar

end SkeletonWeave
