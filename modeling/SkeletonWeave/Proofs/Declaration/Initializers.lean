import SkeletonWeave.Proofs.Declaration.FunctionHeads

/-!
# Data members with initializers

A data member is told from a method by its head, initializer included: if a
parenthesis opens outside of angle brackets anywhere in it, the head is read as that
of a function. So a member keeps its field just if its initializer shows no such
parenthesis, and the word `operator` nowhere. Braces that follow no equals sign count
as a body, and what comes after them is read as further members.
-/

set_option autoImplicit false

namespace SkeletonWeave

open Token (Nested brackets closer)

namespace Grammar

/-- An initializer: brackets nest, and a semicolon stands between them only. -/
inductive Initializer : List Token → Prop
  | nil : Initializer []
  | plain {t : Token} {ts : List Token} :
    t.isBracket = false → t.isPunctuation ";" = false → Initializer ts → Initializer (t :: ts)
  | group {opener close : Token} {inside rest : List Token} :
    opener.text ∈ brackets → opener.isPunctuation opener.text = true →
    close.isPunctuation (closer opener.text) = true → Nested inside → Initializer rest →
    Initializer (opener :: (inside ++ close :: rest))

theorem Initializer.head?_ne_semicolon {ts : List Token} (h : Initializer ts) :
    ts.head?.any (·.isPunctuation ";") = false := by
  cases h with
  | nil => rfl
  | plain _ hSemicolon => exact hSemicolon
  | group hText hOpen =>
    rw [List.head?_cons, Option.any_some, Token.isPunctuation_eq_decide hOpen]
    rcases Token.brackets_cases hText with h | h | h <;> rw [h] <;> decide

theorem Initializer.dropSemicolon {ts : List Token} (h : Initializer ts) {semicolon : Token}
    (hSemicolon : semicolon.isPunctuation ";" = true) (rest : List Token) :
    Declaration.dropSemicolon (ts ++ semicolon :: rest) =
      if ts = [] then rest else ts ++ semicolon :: rest := by
  split
  · next hNone => rw [hNone, List.nil_append, Declaration.dropSemicolon, if_pos hSemicolon]
  · next hSome =>
    apply Declaration.dropSemicolon_eq_self
    rw [List.head?_append_of_ne_nil _ hSome]
    exact h.head?_ne_semicolon

end Grammar

open Grammar

namespace Declaration

theorem withBody_eq_fields_iff {brace close : Token} {declared : Declarator.Declared}
    {fields : List Field} : withBody brace close declared = .fields fields ↔ declared = .fields fields := by
  cases declared <;> simp [withBody]

theorem exists_withBody_eq_method_iff {brace close : Token} {declared : Declarator.Declared}
    {name : String} : (∃ m, withBody brace close declared = .method m ∧ m.name = name) ↔
      ∃ m, declared = .method m ∧ m.name = name := by
  cases declared <;> simp [withBody]

theorem Head.nested {stop : Token} {previous? : Option Token} {params inits : Bool} {ts : List Token}
    (h : Head stop previous? params inits ts) : Nested ts := by
  induction h with
  | done => exact .nil
  | plain hPlain _ _ ih => exact .plain hPlain ih
  | group hText hOpen hClose hInside _ _ ih => exact .group hText hOpen hClose hInside ih

/-- How a declaration is read that a semicolon ends: through the semicolon, or only through a group in
braces that initializes nothing. `front` is its head, and `later` what is left before the semicolon. -/
inductive ReadsUpTo (semicolon : Token) (previous? : Option Token) (params inits : Bool)
    (ts : List Token) : (front later : List Token) → Prop
  | semicolon : Head semicolon previous? params inits ts →
    ReadsUpTo semicolon previous? params inits ts ts []
  | body {front inside later : List Token} {brace close : Token} :
    ts = front ++ brace :: (inside ++ close :: later) → brace.isPunctuation "\x7b" = true →
    close.isPunctuation "\x7d" = true → Nested inside → Initializer later →
    Head brace previous? params inits front →
    ReadsUpTo semicolon previous? params inits ts front later

namespace ReadsUpTo

variable {semicolon : Token} {ts front later : List Token}

theorem append {previous? previous?' : Option Token} {params params' inits inits' : Bool}
    (lead : List Token)
    (hLead : ∀ {stop : Token} {us : List Token}, Head stop previous?' params' inits' us →
      Head stop previous? params inits (lead ++ us))
    (h : ReadsUpTo semicolon previous?' params' inits' ts front later) :
    ReadsUpTo semicolon previous? params inits (lead ++ ts) (lead ++ front) later := by
  cases h with
  | semicolon hHead => exact .semicolon (hLead hHead)
  | body hCut hBrace hClose hInside hLater hHead =>
    refine .body ?_ hBrace hClose hInside hLater (hLead hHead)
    rw [hCut, List.append_assoc]

theorem exists_of_initializer {previous? : Option Token} {params inits : Bool} (h : Initializer ts)
    (hSemicolon : semicolon.isPunctuation ";" = true) :
    ∃ front later, ReadsUpTo semicolon previous? params inits ts front later := by
  induction h generalizing previous? params inits with
  | nil => exact ⟨[], [], .semicolon (.done (.inl hSemicolon))⟩
  | @plain t ts hPlain hNot _ ih =>
    obtain ⟨front, later, hReads⟩ := ih
    exact ⟨t :: front, later, hReads.append [t] (.plain hPlain hNot)⟩
  | @group opener close inside rest hText hOpen hClose hInside hRest ih =>
    by_cases hBody : opener.isPunctuation "\x7b" = true ∧ initializes previous? inits = false
    · obtain ⟨hBrace, hNone⟩ := hBody
      rw [Token.text_of_isPunctuation hBrace] at hClose
      exact ⟨[], rest, .body rfl hBrace hClose hInside hRest (.done (.inr ⟨hBrace, hNone⟩))⟩
    · obtain ⟨front, later, hReads⟩ := @ih (some close) (params || opener.isPunctuation "(") inits
      refine ⟨(opener :: (inside ++ [close])) ++ front, later, ?_⟩
      have hCut (us : List Token) :
          opener :: (inside ++ close :: us) = opener :: (inside ++ [close]) ++ us := by simp
      rw [hCut]
      refine hReads.append _ fun hHead => ?_
      rw [← hCut]
      exact .group hText hOpen hClose hInside (fun hBrace => by simpa [hBrace] using hBody) hHead

theorem nested {previous? : Option Token} {params inits : Bool}
    (h : ReadsUpTo semicolon previous? params inits ts front later) : Nested front := by
  cases h with
  | semicolon hHead => exact hHead.nested
  | body _ _ _ _ _ hHead => exact hHead.nested

theorem readDeclaration (h : ReadsUpTo semicolon none false false ts front later)
    (hSemicolon : semicolon.isPunctuation ";" = true) (member? : Option Declarator.Member) :
    ∃ declared,
      (∀ rest, Declaration.readDeclaration member? (ts ++ semicolon :: rest) =
        .ok ⟨declared, if later = [] then rest else later ++ semicolon :: rest⟩) ∧
      (∀ fields, declared = .fields fields ↔
        Declarator.classify (Declarator.clean front) member? = .fields fields) ∧
      ∀ text, (∃ m, declared = .method m ∧ m.name = text) ↔
        ∃ m, Declarator.classify (Declarator.clean front) member? = .method m ∧ m.name = text := by
  cases h with
  | semicolon hHead =>
    refine ⟨_, fun rest => ?_, fun fields => Iff.rfl, fun text => Iff.rfl⟩
    exact readDeclaration_eq_ok_iff.mpr (.semicolon (splitDeclaration_head hHead rest) hSemicolon)
  | @body _ inside _ brace close hCut hBrace hClose hInside hLater hHead =>
    refine ⟨withBody brace close (Declarator.classify (Declarator.clean front) member?), fun rest => ?_,
      fun fields => withBody_eq_fields_iff, fun text => exists_withBody_eq_method_iff⟩
    have hGroup := closeGroup_nested hInside hBrace hClose (later ++ semicolon :: rest)
    rw [hCut, List.append_assoc, List.cons_append, List.append_assoc, List.cons_append,
      readDeclaration_eq_ok_iff.mpr (.body (splitDeclaration_head hHead _) hBrace hGroup),
      hLater.dropSemicolon hSemicolon]

end ReadsUpTo

end Declaration

namespace Declarator

theorem exists_splitTopFrom (separator : String) (depth : Int) (passed ts : List Token) :
    ∃ part parts, Token.splitTopFrom separator depth passed ts = (passed.reverse ++ part) :: parts := by
  have hStep {t : Token} {us : List Token} {found : List (List Token)}
      (h : ∃ part parts, found = ((t :: us).reverse ++ part) :: parts) :
      ∃ part parts, found = (us.reverse ++ part) :: parts := by
    obtain ⟨part, parts, rfl⟩ := h
    exact ⟨t :: part, parts, by simp⟩
  fun_induction Token.splitTopFrom separator depth passed ts with
  | case1 depth passed => exact ⟨[], [], by simp⟩
  | case2 depth passed t ts =>
    exact ⟨[], Token.splitTopFrom separator depth [] ts, by rw [List.append_nil]⟩
  | case3 depth passed t ts _ _ ih => exact hStep ih
  | case4 depth passed t ts _ _ _ ih => exact hStep ih
  | case5 depth passed t ts _ _ _ ih => exact hStep ih

namespace Declares

variable {type rest : List Token} {name equals : Token} {t : TypeSyntax} {n : Name}

theorem clean_initialized (h : Declares type name t n) (hEquals : equals.word = mark "=")
    (rest : List Token) :
    clean ((type ++ [name, equals]) ++ rest) = (type ++ [name, equals]) ++ clean rest := by
  have hMark : equals.isPunctuation "[" = false := Token.isPunctuation_of_word hEquals "["
  have hWord : equals.isOneOf Words.attributes = false := by
    apply Token.isOneOf_of_notMem
    rw [show equals.text = "=" from congrArg Word.text hEquals]
    decide
  have hFront : Unattributed ((type ++ [name]).map Token.word) := by
    refine .of_plain fun w hw => ?_
    obtain ⟨u, hu, rfl⟩ := List.mem_map.mp hw
    exact (h.typelike u hu).text_notMem foreign_unattributed
  have hHead : (equals :: rest).head?.any (·.isPunctuation "[") = false := by
    simpa using hMark
  have hClean := clean_unattributed hFront hHead
  rw [clean_cons hWord (by rw [hMark]; nofun)] at hClean
  simpa using hClean

theorem splitDeclarators_initialized (h : Declares type name t n) (hEquals : equals.word = mark "=")
    (rest : List Token) : ∃ more,
    splitDeclarators (fun ts => Declarator.stripArray (stripInitializer ts))
      ((type ++ [name]) ++ equals :: rest) = (n.text, t.denotes) :: more := by
  obtain ⟨hHidden, hZero⟩ := h.angled.hides (Int.le_refl 0) nofun
  have hComma : equals.isPunctuation "," = false := Token.isPunctuation_of_word hEquals ","
  obtain ⟨part, parts, hSplit⟩ := exists_splitTopFrom "," (0 + rise equals.word)
    (equals :: (type ++ [name]).reverse) rest
  have hParts : Token.splitAtCommas ((type ++ [name]) ++ equals :: rest) =
      ((type ++ [name]) ++ equals :: part) :: parts := by
    rw [Token.splitAtCommas, Token.splitTopFrom_hidden hHidden h.words, hZero,
      Token.splitTopFrom_cons (by simp [hComma]), List.append_nil, Int.add_zero, hSplit]
    simp
  have hInitializer : stripInitializer ((type ++ [name]) ++ equals :: part) = type ++ [name] := by
    have hFront := List.takeWhile_eq_self_iff.mp h.typelike.bare.stripInitializer
    rw [stripInitializer, List.takeWhile_append_of_pos hFront,
      List.takeWhile_cons_of_neg (by simp [Token.isPunctuation_of_word hEquals]), List.append_nil]
  simp only [splitDeclarators, hParts, hInitializer, h.stripArray, h.splitName?,
    TypeExpr.ofTokens_words h.type]
  exact ⟨_, rfl⟩

theorem readFields_initialized (h : Declares type name t n) (hEquals : equals.word = mark "=")
    (rest : List Token) (access : Access) :
    ∃ isStatic more, Declarator.readFields ((type ++ [name, equals]) ++ rest) access =
      .fields (⟨n.text, t.denotes, access, isStatic⟩ :: more) := by
  have hSpecifying : equals.isOneOf Words.specifying = false := by
    apply Token.isOneOf_of_notMem
    rw [show equals.text = "=" from congrArg Word.text hEquals]
    decide
  have hSpecifiers : withoutSpecifiers ((type ++ [name, equals]) ++ rest) =
      (type ++ [name]) ++ equals :: withoutSpecifiers rest := by
    have hFront : (type ++ [name]).filter (fun t => !t.isOneOf Words.specifying) = type ++ [name] :=
      h.typelike.bare.withoutSpecifiers
    rw [List.append_cons, List.append_assoc, List.singleton_append, withoutSpecifiers,
      List.filter_append, hFront, List.filter_cons_of_pos (by rw [hSpecifying]; rfl)]
    rfl
  obtain ⟨more, hFound⟩ := h.splitDeclarators_initialized hEquals (withoutSpecifiers rest)
  simp only [Declarator.readFields, hSpecifiers, hFound, List.map_cons]
  exact ⟨_, _, rfl⟩

theorem leadsTo (h : Declares type name t n) (hEquals : equals.word = mark "=") :
    LeadsTo (type ++ [name, equals]) := by
  have hText : equals.text = "=" := congrArg Word.text hEquals
  have hForeign {text : String} (hText' : isForeign text = true) (hNot : "=" ≠ text) :
      ∀ u ∈ type ++ [name, equals], u.text ≠ text := by
    rw [List.append_cons, List.forall_mem_append, List.forall_mem_singleton, hText]
    exact ⟨fun u hu => (h.typelike u hu).text_ne hText', hNot⟩
  have hAngled : Angled false ((type ++ [name, equals]).map Token.word) := by
    rw [List.append_cons, List.map_append, h.words, List.map_singleton, hEquals]
    exact h.angled.append (.plain (by decide) .nil)
  constructor
  · refine ⟨fun before opener after hCut hOpen => ?_, fun u hu => ?_⟩
    · have hIn : opener ∈ type ++ [name, equals] := by simp [hCut]
      rw [Token.isPunctuation_of_ne (hForeign (by decide) (by decide) opener hIn)] at hOpen
      cases hOpen
    · exact Token.isIdentifier_of_ne (hForeign (by decide) (by decide) u hu)
  · have hPass := passesAngled_openAngles.pass hAngled rfl 0 nofun [] []
    rwa [List.append_nil] at hPass
  · refine ⟨name, by simp, ?_⟩
    rw [Token.isOneOf_of_notMem (h.name_notMem _ (by decide)), h.kind_name]
    rfl
  · exact ⟨type ++ [name], equals, List.append_cons _ _ _, hEquals⟩

/-- A field with the written name and type is declared just if the initializer does not make the head
that of a function. -/
theorem classify_field_iff (h : Declares type name t n) (hEquals : equals.word = mark "=")
    (rest : List Token) (member : Member) :
    (∃ fields, classify (clean ((type ++ [name, equals]) ++ rest)) (some member) = .fields fields ∧
      ∃ f ∈ fields, f.name = n.text ∧ f.type = t.denotes) ↔ HidesFunction (clean rest) := by
  rw [h.clean_initialized hEquals, ← (h.leadsTo hEquals).hidesFunction_append]
  constructor
  · rintro ⟨fields, hFields, f, hf, -, hType⟩
    by_contra hShown
    apply signature_of_classify hShown hFields f hf
    rw [hType]
    cases t
    rfl
  · intro hHides
    obtain ⟨isStatic, more, hRead⟩ := h.readFields_initialized hEquals (clean rest) member.access
    rw [classify_of_hides hHides, hRead]
    exact ⟨_, rfl, _, List.mem_cons_self, rfl, rfl⟩

end Declares

end Declarator

namespace Grammar

structure InitializedField where
  type : TypeSyntax
  name : Name
  typeTokens : List Token
  nameToken : Token
  equals : Token
  initializer : List Token
  semicolon : Token
  declares : Declarator.Declares typeTokens nameToken type name
  isEquals : equals.word = mark "="
  isInitializer : Initializer initializer
  isSemicolon : semicolon.word = mark ";"

namespace InitializedField

variable (f : InitializedField)

def lead : List Token :=
  f.typeTokens ++ [f.nameToken, f.equals]

def tokens : List Token :=
  f.lead ++ (f.initializer ++ [f.semicolon])

/-- Whether the declaration is read with `front` in its head, and `later` is left of the initializer. -/
def ReadsUpTo (front later : List Token) : Prop :=
  Declaration.ReadsUpTo f.semicolon (some f.equals) false false f.initializer front later

theorem head {stop : Token} {us : List Token}
    (h : Declaration.Head stop (some f.equals) false false us) :
    Declaration.Head stop none false false (f.lead ++ us) := by
  have hMark := Token.isPunctuation_of_word f.isEquals
  have hTypelike : Typelike (f.typeTokens ++ [f.nameToken]) := f.declares.typelike
  have hEquals (previous? : Option Token) :
      Declaration.Head stop previous? false false (f.equals :: us) := by
    refine .plain (isBracket_of_text ?_) (hMark ";") ?_
    · rw [show f.equals.text = "=" from congrArg Word.text f.isEquals]
      decide
    · rw [hMark ":"]
      exact h
  have hHead := Declaration.Head.append_plain hTypelike.outside hEquals none
  simpa [lead] using hHead

theorem exists_first : ∃ t ts, f.typeTokens = t :: ts ∧ IsTypeWord t.word := by
  obtain ⟨t, ts, hCons⟩ := List.exists_cons_of_ne_nil f.declares.type_ne_nil
  exact ⟨t, ts, hCons, f.declares.typelike_type t (by simp [hCons])⟩

end InitializedField

end Grammar

namespace Declaration

/-- A data member with an initializer is read in one step, up to a body if it has one, and what is left
of the initializer is read next. The step declares a field with the name and the type that are written
just if no parenthesis opens outside of angle brackets, and `operator` is not among the words; and it
declares a method just if the first such parenthesis follows what may name one. -/
theorem initialized_field_iff (f : InitializedField) (className : String) (access : Access) :
    (∃ front later, f.ReadsUpTo front later) ∧
      ∀ front later, f.ReadsUpTo front later → ∃ declared line,
        (∀ (steps : Nat) (scope : Scope) (opener : Token) (members : Members) (d : Declarations)
          (rest : List Token),
          readMembers (steps + 1) scope className opener access members d (f.tokens ++ rest) =
            readMembers steps scope className opener access (members.add line declared) d
              (if later = [] then rest else later ++ f.semicolon :: rest)) ∧
        ((∃ fields, declared = .fields fields ∧
          ∃ g ∈ fields, g.name = f.name.text ∧ g.type = f.type.denotes) ↔
            Declarator.HidesFunction (Declarator.clean front)) ∧
        ∀ text, (∃ m, declared = .method m ∧ m.name = text) ↔
          Declarator.NamesMethod text (Declarator.clean front) := by
  have hSemicolon : f.semicolon.isPunctuation ";" = true := Token.isPunctuation_iff.mpr f.isSemicolon
  refine ⟨ReadsUpTo.exists_of_initializer f.isInitializer hSemicolon, fun front later hReads => ?_⟩
  obtain ⟨declared, hRead, hFields, hMethods⟩ := (hReads.append _ f.head).readDeclaration hSemicolon
    (some ⟨className, access⟩)
  obtain ⟨t, ts, hCons, hFirst⟩ := f.exists_first
  refine ⟨declared, t.line, ?_, ?_, ?_⟩
  · intro steps scope opener members d rest
    have hTokens : f.tokens ++ rest = t :: (ts ++ f.nameToken :: f.equals ::
        (f.initializer ++ f.semicolon :: rest)) := by
      simp [InitializedField.tokens, InitializedField.lead, hCons]
    have hItem := hRead rest
    simp only [InitializedField.lead, hCons, List.append_assoc, List.cons_append, List.nil_append] at hItem
    rw [hTokens]
    refine readMembers_next ?_ ?_ ?_ (readMember_typed hFirst hItem)
    · exact Token.isPunctuation_of_ne (hFirst.text_ne (by decide))
    · exact Token.isPunctuation_of_ne (hFirst.text_ne (by decide))
    · exact accessLabel?_eq_none (hFirst.text_notMem foreign_inheriting) _
  · rw [← f.declares.classify_field_iff f.isEquals front ⟨className, access⟩]
    simp only [hFields]
    rfl
  · intro text
    rw [hMethods, InitializedField.lead, f.declares.clean_initialized f.isEquals]
    exact (f.declares.leadsTo f.isEquals).classify_method_iff (Declarator.nested_clean hReads.nested)
      (some ⟨className, access⟩) text

theorem initialized_field_of_applied :
    ∃ f : InitializedField, f.tokens.map (·.text) =
        ["bool", "n", "=", "V", "<", "f", "(", "1", ")", ">", "\x7b", "x", "<", "y", "\x7d", ";"] ∧
      ∃ fields line, (∃ g ∈ fields, g.name = "n" ∧ g.type = f.type.denotes) ∧
        ∀ (steps : Nat) (scope : Scope) (opener : Token) (members : Members) (d : Declarations)
          (rest : List Token),
          readMembers (steps + 1) scope "S" opener .isPublic members d (f.tokens ++ rest) =
            readMembers steps scope "S" opener .isPublic (members.add line (.fields fields)) d rest := by
  let inside : List Token := [word "x", mark "<", word "y"].map bare
  let call : List Token := [bare ⟨.number, "1"⟩]
  let front : List Token := [word "V", mark "<", word "f", mark "(", ⟨.number, "1"⟩, mark ")",
    mark ">"].map bare
  let f : InitializedField := {
    type := .mk false (.builtin ⟨"bool", by decide⟩) 0 false
    name := ⟨"n", by decide⟩
    typeTokens := [bare (word "bool")]
    nameToken := bare (word "n")
    equals := bare (mark "=")
    initializer := front ++ bare (mark "\x7b") :: (inside ++ [bare (mark "\x7d")])
    semicolon := bare (mark ";")
    declares := ⟨rfl, rfl⟩
    isEquals := rfl
    isInitializer := .plain rfl rfl (.plain rfl rfl (.plain rfl rfl (@Initializer.group _ _ call _
      (by decide) rfl rfl (by decide) (.plain rfl rfl (@Initializer.group _ _ inside []
        (by decide) rfl rfl (by decide) .nil)))))
    isSemicolon := rfl }
  have hReads : f.ReadsUpTo front [] := by
    refine .body rfl rfl rfl (by decide : Nested inside) .nil ?_
    refine .plain rfl rfl (.plain rfl rfl (.plain rfl rfl (@Head.group _ _ _ _ _ _ call _ (by decide)
      rfl rfl (by decide) nofun (.plain rfl rfl (.done (.inr ⟨rfl, rfl⟩))))))
  have hHides : Declarator.HidesFunction (Declarator.clean front) := by
    have hUnattributed : Unattributed (front.map Token.word) := ⟨by decide, by decide⟩
    have hClean : Declarator.clean (front ++ []) = front ++ Declarator.clean [] :=
      Declarator.clean_unattributed hUnattributed rfl
    rw [List.append_nil, Declarator.clean, List.append_nil] at hClean
    have hNone : Declarator.splitAtParams 0 [] front = none := by decide
    rw [hClean]
    exact ⟨Declarator.splitAtParams_eq_none_iff.mp hNone, by decide⟩
  obtain ⟨declared, line, hStep, hField, -⟩ :=
    (initialized_field_iff f "S" .isPublic).2 front [] hReads
  obtain ⟨fields, rfl, hFound⟩ := hField.mpr hHides
  exact ⟨f, by decide, fields, line, hFound, fun steps scope opener members d rest =>
    hStep steps scope opener members d rest⟩

/-- A call in an initializer is read as a method, and the field is lost. -/
theorem field_lost_to_call :
    (do
      let ts ← (Token.lex 0 "t.cpp" "struct S \x7b int n = f(1); \x7d;").toOption
      let d ← (read [] ts).toOption
      return d.classes.map fun c => (c.fields.map (·.name), c.methods.map (·.name))) =
      some [([], ["f"])] := by
  decide +kernel

end Declaration

end SkeletonWeave
