import SkeletonWeave.Proofs.Declaration.Alike
import SkeletonWeave.Proofs.Declaration.Heads
import SkeletonWeave.Proofs.Declaration.RoundTrip

/-!
# Templates that are passed over

A template with a body is passed over through the brace that closes the body,
unless a class word or an equals sign stands anywhere in its head, be it in a
default of a parameter: then the declaration after the template is passed over
with it.
-/

set_option autoImplicit false

namespace SkeletonWeave

open Declarator (Member)
open Grammar (mark word bare)
open Token (Alike Nested brackets)

namespace Declaration

/-- A template with a body, as that of a function. No angle bracket is among its parameters. -/
structure TemplateDefinition where
  keyword : Token
  opener : Token
  params : List Token
  close : Token
  head : List Token
  brace : Token
  body : List Token
  last : Token
  isKeyword : keyword.word = word "template"
  opens : opener.word = mark "<"
  isFlat : ∀ t ∈ params, t.word ≠ mark "<" ∧ t.word ≠ mark ">"
  closes : close.word = mark ">"
  isHead : Head brace none false false head
  isBrace : brace.word = mark "\x7b"
  isBody : Nested body
  isLast : last.word = mark "\x7d"

namespace TemplateDefinition

variable (T : TemplateDefinition)

def afterKeyword : List Token :=
  T.opener :: (T.params ++ T.close :: (T.head ++ T.brace :: (T.body ++ [T.last])))

def tokens : List Token :=
  T.keyword :: T.afterKeyword

theorem closeGroup_params (rest : List Token) :
    closeGroup T.opener (T.params ++ T.close :: rest) = .ok (T.params, T.close, rest) := by
  have hPass (passed : List Token) : Token.closeGroupFrom? "<" 0 passed (T.params ++ T.close :: rest) =
      some (passed.reverse ++ T.params, T.close, rest) := by
    have hFlat := T.isFlat
    generalize T.params = params at hFlat ⊢
    induction params generalizing passed with
    | nil =>
      rw [List.nil_append, List.append_nil]
      exact Token.closeGroupFrom?_ends (Token.isPunctuation_of_word T.closes "<")
        (Token.isPunctuation_iff.mpr T.closes)
    | cons t params ih =>
      obtain ⟨⟨hOpen, hClose⟩, hRest⟩ := List.forall_mem_cons.mp hFlat
      rw [Ne, ← Token.isPunctuation_iff, Bool.not_eq_true] at hOpen hClose
      rw [List.cons_append, Token.closeGroupFrom?_passes hOpen hClose, ih _ hRest]
      simp
  have hText : T.opener.text = "<" := congrArg Word.text T.opens
  rw [closeGroup_eq_ok_iff, hText, Token.closeGroup?, hPass]
  rfl

theorem skipTemplate_eq (rest : List Token) :
    ∃ steps passed, rest.length < steps ∧ skipTemplate (T.afterKeyword ++ rest) =
      if continuesAfterBody T.head then skipFrom steps passed rest else .ok (dropSemicolon rest) := by
  have hTokens : T.afterKeyword ++ rest =
      T.opener :: (T.params ++ T.close :: (T.head ++ T.brace :: (T.body ++ T.last :: rest))) := by
    simp [afterKeyword]
  have hBrace := Token.isPunctuation_of_word T.isBrace
  have hGroup := closeGroup_nested T.isBody (Token.isPunctuation_iff.mpr T.isBrace)
    (Token.isPunctuation_iff.mpr T.isLast) rest
  refine ⟨(T.head ++ T.brace :: (T.body ++ T.last :: rest)).length,
    [] ++ T.head ++ T.brace :: T.body ++ [T.last], ?_, ?_⟩
  · simp only [List.length_append, List.length_cons]
    omega
  · rw [hTokens, skipTemplate]
    simp only [Token.isPunctuation_iff.mpr T.opens, if_true, T.closeGroup_params]
    show skip (T.head ++ T.brace :: (T.body ++ T.last :: rest)) = _
    rw [skip, skipFrom, splitDeclaration_head T.isHead]
    simp only [bind, Except.bind, hBrace, hGroup, List.nil_append]
    rfl

def StopsAfterBody : Prop :=
  ∀ t ∈ T.head, t.isOneOf Words.classLike = false ∧ t.isPunctuation "=" = false

theorem stopsAfterBody_iff : T.StopsAfterBody ↔ continuesAfterBody T.head = false := by
  rw [StopsAfterBody, continuesAfterBody, List.any_eq_false]
  simp only [Bool.or_eq_true, not_or, Bool.not_eq_true]

end TemplateDefinition

section

variable {d d' : Declarations} {t : Token} {ts us : List Token} {steps steps' : Nat}

theorem not_close_of_semicolon (h : t.isPunctuation ";" = true) : t.isPunctuation "\x7d" = false := by
  rw [Token.isPunctuation_of_word (Token.isPunctuation_iff.mp h)]
  decide

theorem readScope_semicolon (h : t.isPunctuation ";" = true) (scope : Scope) (opener? : Option Token) :
    readScope (steps + 1) scope opener? d (t :: ts) = readScope steps scope opener? d ts := by
  rw [readScope]
  simp only [not_close_of_semicolon h, h, Bool.false_eq_true, if_false, if_true]

theorem readMembers_semicolon (h : t.isPunctuation ";" = true) (scope : Scope) (name : String)
    (opener : Token) (access : Access) (members : Members) :
    readMembers (steps + 1) scope name opener access members d (t :: ts) =
      readMembers steps scope name opener access members d ts := by
  rw [readMembers]
  simp only [not_close_of_semicolon h, h, Bool.false_eq_true, if_false, if_true]

theorem readScope_dropSemicolon {scope : Scope} {opener? opener'? : Option Token}
    (hOpener : opener'?.isSome = opener?.isSome) (hDeclarations : d.Alike d') (h : Alike ts us)
    (hSteps : ts.length < steps) (hSteps' : us.length < steps') :
    Concur Reached.Alike (readScope steps scope opener? d (dropSemicolon ts))
      (readScope steps' scope opener'? d' us) := by
  cases ts with
  | nil => exact readScope_alike hOpener hDeclarations h hSteps hSteps'
  | cons t ts =>
    rw [dropSemicolon]
    split
    · next hSemicolon =>
      obtain ⟨t', us, rfl, hToken, hRest⟩ := h.exists_cons
      obtain ⟨steps', rfl⟩ := Nat.exists_eq_succ_of_ne_zero (Nat.ne_zero_of_lt hSteps')
      rw [← Token.isPunctuation_of_alike hToken] at hSemicolon
      rw [List.length_cons] at hSteps hSteps'
      rw [readScope_semicolon hSemicolon]
      exact readScope_alike hOpener hDeclarations hRest (by omega) (by omega)
    · exact readScope_alike hOpener hDeclarations h hSteps hSteps'

theorem readMembers_dropSemicolon {scope : Scope} {name : String} {opener opener' : Token}
    {access : Access} {members members' : Members} (hMembers : members.Alike members')
    (hDeclarations : d.Alike d') (h : Alike ts us) (hSteps : ts.length < steps)
    (hSteps' : us.length < steps') :
    Concur Body.Alike (readMembers steps scope name opener access members d (dropSemicolon ts))
      (readMembers steps' scope name opener' access members' d' us) := by
  cases ts with
  | nil => exact readMembers_alike hMembers hDeclarations h hSteps hSteps'
  | cons t ts =>
    rw [dropSemicolon]
    split
    · next hSemicolon =>
      obtain ⟨t', us, rfl, hToken, hRest⟩ := h.exists_cons
      obtain ⟨steps', rfl⟩ := Nat.exists_eq_succ_of_ne_zero (Nat.ne_zero_of_lt hSteps')
      rw [← Token.isPunctuation_of_alike hToken] at hSemicolon
      rw [List.length_cons] at hSteps hSteps'
      rw [readMembers_semicolon hSemicolon]
      exact readMembers_alike hMembers hDeclarations hRest (by omega) (by omega)
    · exact readMembers_alike hMembers hDeclarations h hSteps hSteps'

end

namespace TemplateDefinition

variable (T : TemplateDefinition) {d : Declarations} {rest later : List Token}

theorem readScope_template (hSkip : skipTemplate (T.afterKeyword ++ rest) = .ok later) (steps : Nat)
    (scope : Scope) (opener? : Option Token) :
    readScope (steps + 1) scope opener? d (T.tokens ++ rest) =
      readScope steps scope opener? d later := by
  have hText : T.keyword.text = "template" := congrArg Word.text T.isKeyword
  have hItem (readInner : Scope → Token → Declarations → List Token → Outcome Reached) :
      readItem readInner scope d T.keyword (T.afterKeyword ++ rest) = .ok ⟨d, later⟩ := by
    have hForm : Form.template.Starts passedItems T.keyword.text := hText
    rw [readItem_eq (.of_starts hForm (by rw [hText]; decide)), ItemForm.read, Form.read, hSkip]
    rfl
  exact readScope_step opener? (congrArg Word.kind T.isKeyword) (hItem _)

theorem readMembers_template (hSkip : skipTemplate (T.afterKeyword ++ rest) = .ok later) (steps : Nat)
    (scope : Scope) (name : String) (opener : Token) (access : Access) (members : Members) :
    readMembers (steps + 1) scope name opener access members d (T.tokens ++ rest) =
      readMembers steps scope name opener access members d later := by
  have hText : T.keyword.text = "template" := congrArg Word.text T.isKeyword
  have hMember (readBody : BodyReader) : readMember readBody scope ⟨name, access⟩ d T.keyword
      (T.afterKeyword ++ rest) = .ok (.nothing, ⟨d, later⟩) := by
    have hForm : Form.template.Starts passedMembers T.keyword.text := hText
    rw [readMember_eq hForm, Form.read, hSkip]
    rfl
  exact readMembers_step (congrArg Word.kind T.isKeyword) (by rw [hText]; decide) (hMember _)

/-- Tokens after a template that stops after its body are read as they are without it. -/
theorem readAlike_of_stops (hStops : T.StopsAfterBody) {us : List Token} (h : Alike rest us) :
    ReadAlike (T.tokens ++ rest) us := by
  have hSkip : skipTemplate (T.afterKeyword ++ rest) = .ok (dropSemicolon rest) := by
    obtain ⟨steps, passed, -, hSkip⟩ := T.skipTemplate_eq rest
    rw [hSkip, T.stopsAfterBody_iff.mp hStops]
    rfl
  have hFewer : rest.length < (T.tokens ++ rest).length := by
    simp only [tokens, List.cons_append, List.length_cons, List.length_append]
    omega
  have hScopes (scope : Scope) (opener? opener'? : Option Token) (d d' : Declarations)
      (steps steps' : Nat) (hOpener : opener'?.isSome = opener?.isSome) (hDeclarations : d.Alike d')
      (hSteps : (T.tokens ++ rest).length < steps) (hSteps' : us.length < steps') :
      Concur Reached.Alike (readScope steps scope opener? d (T.tokens ++ rest))
        (readScope steps' scope opener'? d' us) := by
    obtain ⟨steps, rfl⟩ := Nat.exists_eq_succ_of_ne_zero (Nat.ne_zero_of_lt hSteps)
    rw [T.readScope_template hSkip]
    exact readScope_dropSemicolon hOpener hDeclarations h (by omega) hSteps'
  refine ⟨fun _ _ => concur_read ?_, hScopes, ?_⟩
  · exact hScopes _ _ _ _ _ _ _ rfl (.refl _) (Nat.lt_succ_self _) (Nat.lt_succ_self _)
  · intro scope name opener opener' access members members' d d' steps steps' hMembers hDeclarations
      hSteps hSteps'
    obtain ⟨steps, rfl⟩ := Nat.exists_eq_succ_of_ne_zero (Nat.ne_zero_of_lt hSteps)
    rw [T.readMembers_template hSkip]
    exact readMembers_dropSemicolon hMembers hDeclarations h (by omega) hSteps'

def follower : List Token :=
  [bare (word "int"), bare (word "f"), bare (mark "("), bare (mark ")"), bare (mark ";")]

/-- A template that goes on after its body takes the declaration after it with it. -/
theorem read_follower (hContinues : continuesAfterBody T.head = true) (files : List Source.File) :
    read files (T.tokens ++ follower) = .ok Declarations.empty := by
  have hSkip : skipTemplate (T.afterKeyword ++ follower) = .ok [] := by
    obtain ⟨steps, passed, hSteps, hSkip⟩ := T.skipTemplate_eq follower
    obtain ⟨steps, rfl⟩ := Nat.exists_eq_succ_of_ne_zero (Nat.ne_zero_of_lt hSteps)
    rw [hSkip, hContinues]
    rfl
  have hScope : readScope ((T.tokens ++ follower).length + 1) [] none Declarations.empty
      (T.tokens ++ follower) = .ok ⟨Declarations.empty, []⟩ := by
    rw [T.readScope_template hSkip]
    rfl
  rw [read, hScope]

theorem stops_of_readAlike (h : ReadAlike (T.tokens ++ follower) follower) : T.StopsAfterBody := by
  rw [T.stopsAfterBody_iff, ← Bool.not_eq_true]
  intro hContinues
  have hAlone : (read [] follower).toOption.map (·.functions.length) = some 1 := by decide +kernel
  have hConcur := h.whole [] []
  rw [T.read_follower hContinues] at hConcur
  cases hRead : read [] follower with
  | error fault =>
    rw [hRead] at hAlone
    cases hAlone
  | ok d =>
    rw [hRead] at hAlone hConcur
    have hFunctions : d.functions.length = 1 := Option.some.inj hAlone
    obtain - | hSame := hConcur
    have hLength := congrArg List.length hSame.functions
    rw [List.length_map, List.length_map, hFunctions] at hLength
    cases hLength

end TemplateDefinition

/-- Whatever follows a template is read as it is without the template, just if neither a class word
nor an equals sign stands in the head of the template. -/
theorem template_skipped_alone_iff (T : TemplateDefinition) :
    (∀ ts us : List Token, Alike ts us → ReadAlike (T.tokens ++ ts) us) ↔ T.StopsAfterBody :=
  ⟨fun h => T.stops_of_readAlike (h _ _ (.refl _)), fun hStops _ _ => T.readAlike_of_stops hStops⟩

theorem template_of_constructor_skipped :
    ∃ T : TemplateDefinition,
      T.tokens.map (·.text) = ["template", "<", "class", "T", ">", "S", "(", "T", "a", ")", ":", "b",
        "\x7b", "a", "\x7d", "\x7b", "f", "(", ")", ";", "\x7d"] ∧
      T.StopsAfterBody ∧ ∀ ts us : List Token, Alike ts us → ReadAlike (T.tokens ++ ts) us := by
  let T : TemplateDefinition := {
    keyword := bare (word "template")
    opener := bare (mark "<")
    params := [bare (word "class"), bare (word "T")]
    close := bare (mark ">")
    head := [bare (word "S"), bare (mark "("), bare (word "T"), bare (word "a"), bare (mark ")"),
      bare (mark ":"), bare (word "b"), bare (mark "\x7b"), bare (word "a"), bare (mark "\x7d")]
    brace := bare (mark "\x7b")
    body := [bare (word "f"), bare (mark "("), bare (mark ")"), bare (mark ";")]
    last := bare (mark "\x7d")
    isKeyword := rfl
    opens := rfl
    isFlat := by decide
    closes := rfl
    isHead := .plain rfl rfl (.group (by decide) rfl rfl (.plain rfl (.plain rfl .nil)) (by decide)
      (.plain rfl rfl (.plain rfl rfl (.group (by decide) rfl rfl (.plain rfl .nil) (by decide)
        (.done (.inr ⟨rfl, rfl⟩))))))
    isBrace := rfl
    isBody := .plain rfl (.group (by decide) rfl rfl .nil (.plain rfl .nil))
    isLast := rfl }
  have hStops : T.StopsAfterBody := by
    unfold TemplateDefinition.StopsAfterBody
    decide
  exact ⟨T, by decide, hStops, (template_skipped_alone_iff T).mpr hStops⟩

/-- A default in the head of a template takes the declaration after the template with it. -/
theorem declaration_lost_to_template :
    let functions (text : String) : Option (List String) := do
      let ts ← (Token.lex 0 "t.cpp" text).toOption
      let d ← (read [] ts).toOption
      return d.functions.map (·.name)
    functions "int g();" = some ["g"] ∧
      functions "template <class T> void f(int a = 1) \x7b \x7d int g();" = some [] := by
  exact ⟨by decide +kernel, by decide +kernel⟩

end Declaration

end SkeletonWeave
