import SkeletonWeave.Configuration.Decode
import SkeletonWeave.Proofs.Bridge.Overload
import SkeletonWeave.Proofs.Bridge.Result
import SkeletonWeave.Proofs.Configuration.Rules
import SkeletonWeave.Proofs.Declaration.Grammar
import SkeletonWeave.Proofs.Token.Adjoining

/-!
# The lines around a call

The rules of a configuration are what the generated bodies need: its names are
written into them as they are, and each is read again as one identifier. So the
lines around a call are read as what they are meant to be, however they are
indented.
-/

set_option autoImplicit false

namespace SkeletonWeave.Bridge

open SkeletonWeave.Configuration (CanStart CanFollow IsIdentifier PointsAt Spelled
  identifierFault?_eq_none_iff)
open Grammar (mark word)
open Token (Worded)

/-- Whether a line is read as some words behind every indent. -/
def Reads (line : String) (ws : List Word) : Prop :=
  ∀ lead : String, (∀ c ∈ lead.toList, Lexeme.isBlankInLine c = true) → ∀ file name,
    ∃ ts, Token.lex file name (lead ++ line) = .ok ts ∧ ts.map Token.word = ws

/-- What the lines before a call are to be read as: the manager is fetched, under its name without
scope, and the lock is taken. -/
def wordsBefore (c : Configuration) (managerName : String) : List (List Word) :=
  [[word managerName, mark "*", word c.manager.objectName, mark "=", word managerName, mark "::",
      word c.manager.accessor, mark "(", mark ")", mark ";"],
    [word c.emit.lock, mark ".", word "lock", mark "(", mark ")", mark ";"]]

/-- What the lines after a call are to be read as: the lock is given back, and the result returned
if there is one. -/
def wordsAfter (c : Configuration) (returns : Bool) : List (List Word) :=
  [word c.emit.lock, mark ".", word "unlock", mark "(", mark ")", mark ";"] ::
    if returns then [[word "return", mark "(", word c.emit.resultVariable, mark ")", mark ";"]]
    else []

theorem isNameStart_of_canStart {c : Char} (h : CanStart c) : Lexeme.isNameStart c = true := by
  rcases h with hLetter | rfl
  · rw [Lexeme.isNameStart, hLetter]
    rfl
  · decide

theorem isNamePart_of_canFollow {c : Char} (h : CanFollow c) : Lexeme.isNamePart c = true := by
  rcases h with hPlain | rfl
  · rw [Lexeme.isNamePart, hPlain]
    rfl
  · decide

theorem worded_name {name : String} (h : Spelled name.toList) {d : Char} {rest : List Char}
    {ws : List Word} (hRest : Worded (d :: rest) ws)
    (hEnd : Lexeme.isNamePart d = false ∧ Lexeme.isQuote d = false) :
    Worded (name.toList ++ d :: rest) (word name :: ws) := by
  obtain ⟨c, part, hName, hStart, hPart⟩ := h
  have hHead : ∀ e ∈ (d :: rest).head?, Lexeme.isNamePart e = false ∧ Lexeme.isQuote e = false := by
    rintro _ ⟨⟩
    exact hEnd
  refine .word (w := word name) hName (Lexeme.next_identifier ?_ (fun e he => ?_) hHead) hRest
  · exact isNameStart_of_canStart hStart
  · exact isNamePart_of_canFollow (hPart e he)

theorem worded_mark (c : Char) (part : List Char) (text : String) (hText : text.toList = c :: part)
    {rest : List Char} {ws : List Word}
    (hNext : ∀ st, Lexeme.next st c (part ++ rest) = .ok ⟨.plain .punctuation, c :: part⟩)
    (hRest : Worded rest ws) : Worded (c :: (part ++ rest)) (mark text :: ws) := by
  have hMark := Worded.word (w := mark text) hText hNext hRest
  rwa [show (mark text).text = text from rfl, hText] at hMark

theorem worded_call {name : String} (h : Spelled name.toList) :
    Worded (name.toList ++ ['(', ')', ';']) [word name, mark "(", mark ")", mark ";"] := by
  refine worded_name h ?_ (by decide)
  refine worded_mark '(' [] "(" rfl (by intro st; cases st <;> rfl) ?_
  refine worded_mark ')' [] ")" rfl (by intro st; cases st <;> rfl) ?_
  exact worded_mark ';' [] ";" rfl (by intro st; cases st <;> rfl) .nil

theorem worded_methodCall {object : String} (h : Spelled object.toList) (method : String)
    (hMethod : Spelled method.toList)
    (hPoint : ∀ st rest, Lexeme.next st '.' (method.toList ++ rest) =
      .ok ⟨.plain .punctuation, ['.']⟩) :
    Worded (object.toList ++ '.' :: (method.toList ++ ['(', ')', ';']))
      [word object, mark ".", word method, mark "(", mark ")", mark ";"] :=
  worded_name h (worded_mark '.' [] "." rfl (fun st => hPoint st _) (worded_call hMethod)) (by decide)

theorem worded_fetch {managerName object accessor : String} (hManager : Spelled managerName.toList)
    (hObject : Spelled object.toList) (hAccessor : Spelled accessor.toList) :
    Worded (managerName ++ "* " ++ object ++ " = " ++ managerName ++ "::" ++ accessor ++ "();").toList
      [word managerName, mark "*", word object, mark "=", word managerName, mark "::",
        word accessor, mark "(", mark ")", mark ";"] := by
  have hColons := worded_mark ':' [':'] "::" rfl (by intro st; cases st <;> rfl)
    (worded_call hAccessor)
  have hFetched := worded_name hManager hColons (by decide)
  have hEquals := worded_mark '=' [] "=" rfl (by intro st; cases st <;> rfl)
    (.blank (c := ' ') rfl hFetched)
  have hDeclared := worded_name hObject (.blank (c := ' ') rfl hEquals) (by decide)
  have hStar := worded_mark '*' [] "*" rfl (by intro st; cases st <;> rfl)
    (.blank (c := ' ') rfl hDeclared)
  simpa using worded_name hManager hStar (by decide)

theorem worded_return {result : String} (h : Spelled result.toList) :
    Worded ("return(" ++ result ++ ");").toList
      [word "return", mark "(", word result, mark ")", mark ";"] := by
  have hEnd := worded_mark ';' [] ";" rfl (by intro st; cases st <;> rfl) .nil
  have hClose := worded_mark ')' [] ")" rfl (by intro st; cases st <;> rfl) hEnd
  have hOpen := worded_mark '(' [] "(" rfl (by intro st; cases st <;> rfl)
    (worded_name h hClose (by decide))
  have hReturn : Spelled "return".toList := identifierFault?_eq_none_iff.mp (by decide)
  simpa using worded_name hReturn hOpen (by decide)

theorem Reads.of_worded {line : String} {ws : List Word} (h : Worded line.toList ws) :
    Reads line ws := by
  intro lead hLead file name
  rw [← String.ofList_toList (s := lead ++ line), String.toList_append]
  exact (h.blanks hLead).exists_lex file name

/-- Where all rules hold the lines around a call are read as they are meant, with the manager under
the last segment of its class name. -/
theorem CallSite.bodyLines_reads [PatternLibrary] {c : Configuration}
    (hHolds : ∀ r ∈ c.rules, r.Holds) :
    ∃ scope managerName, c.manager.className.toList = scope ++ managerName.toList ∧
      (scope = [] ∨ "::".toList <:+ scope) ∧ IsIdentifier managerName ∧
      ∀ s : CallSite, ∃ before after, s.bodyLines c = before ++ s.statement c :: after ∧
        List.Forall₂ Reads before (wordsBefore c managerName) ∧
        List.Forall₂ Reads after (wordsAfter c s.resultType?.isSome) := by
  simp only [Configuration.rules, List.forall_mem_cons, List.forall_mem_append,
    Configuration.Rule.Holds] at hHolds
  obtain ⟨-, -, -, hManager, hAccessor, hObject, -, -, -, -, -, hLock, hResult, -⟩ := hHolds
  obtain ⟨scope, managerName, hClass, hScope, hName, hShort⟩ := hManager.exists_last
  have hSame : c.manager.shortName = managerName := by
    rw [ManagerSection.shortName, hShort, String.ofList_toList]
  have hTake : Spelled "lock".toList := identifierFault?_eq_none_iff.mp (by decide)
  have hGive : Spelled "unlock".toList := identifierFault?_eq_none_iff.mp (by decide)
  refine ⟨scope, managerName, hClass, hScope, hName, fun s => ⟨[_, _], _ :: _, rfl, ?_, ?_⟩⟩
  · rw [hSame]
    refine .cons (.of_worded ?_) (.cons (.of_worded ?_) .nil)
    · exact worded_fetch hName.spelled hObject.spelled hAccessor.spelled
    · simpa using worded_methodCall hLock.spelled "lock" hTake (by intro st rest; cases st <;> rfl)
  · refine .cons (.of_worded ?_) ?_
    · simpa using worded_methodCall hLock.spelled "unlock" hGive (by intro st rest; cases st <;> rfl)
    · cases s.resultType?.isSome with
      | false => exact .nil
      | true => exact .cons (.of_worded (worded_return hResult.spelled)) .nil

theorem isSome_resultType?_ofBindings (c : Configuration) (handler target : Method)
    (aggregate? : Option Class) (bindings : List Binding) :
    (CallSite.ofBindings c handler target aggregate? bindings).resultType?.isSome =
      !handler.returnsVoid := by
  rcases resultType?_ofBindings c handler target aggregate? bindings with
    ⟨hVoid, hNone⟩ | ⟨type, hType, hValue, hSome⟩
  · rw [hNone, hVoid]
    rfl
  · rw [hSome, Method.returnsVoid, hType, Option.all_some, hValue]
    rfl

theorem holds_of_default : ∀ r ∈ Configuration.default.rules, r.Holds := by
  simp only [Configuration.rules, List.forall_mem_cons, List.forall_mem_append, List.forall_mem_map,
    Configuration.Rule.Holds]
  have hIgnored : ∀ method ∈ ManagerSection.default.ignoredMethods, IsIdentifier method := by
    decide +kernel
  have hConversions : ∀ entry ∈ MatchingSection.default.conversions,
      Configuration.IsQualifiedName entry.1 := by
    intro entry hEntry
    obtain rfl := List.mem_singleton.mp hEntry
    exact ⟨["RemoteValueID"], by decide, by decide +kernel, .inl rfl⟩
  have hStyle : Configuration.default.emit.indent ≠ .spaces := by decide
  refine ⟨⟨["RemoteManagerHandler"], by decide, ?_, .inl rfl⟩, ?_, ?_,
    ⟨["OpenZWave", "Manager"], by decide, ?_, .inl rfl⟩, ?_, ?_, hIgnored, ⟨_, read?_default, rfl⟩,
    ⟨'c', by decide, by decide⟩, ⟨'c', by decide, by decide⟩, hConversions, ?_, ?_,
    fun hSpaces => absurd hSpaces hStyle, fun _ hNone => absurd hNone List.not_mem_nil⟩
  all_goals decide +kernel

/-- The settings that a text states are accepted just if all rules hold for them, and otherwise
rejected for the first rule that is broken; where the text is pointed into then, the value that
breaks the rule stands there. Accepted settings are read back from every generated body: the lines
around the call fetch the manager under the last segment of its class name, take and give back the
lock and, for a handler method that returns a value, return the result variable. -/
theorem accepted_iff_rules_and_body_reads [PatternLibrary] [ConfigurationFormat]
    (text file : String) {c : Configuration}
    (hRead : ConfigurationFormat.decode? text = some c) :
    (Configuration.parse text file = .ok c ↔ ∀ r ∈ c.rules, r.Holds) ∧
    (¬(∀ r ∈ c.rules, r.Holds) → ∃ before r after span? v,
      c.rules = before ++ r :: after ∧ (∀ q ∈ before, q.Holds) ∧ ¬r.Holds ∧
      (∀ w, r.Breaks w ↔ w = v) ∧
      Configuration.parse text file = .error (.violated file span? v) ∧
      PointsAt text span? r.value?) ∧
    (Configuration.parse text file = .ok c → ∃ scope managerName,
      c.manager.className.toList = scope ++ managerName.toList ∧
      (scope = [] ∨ "::".toList <:+ scope) ∧ IsIdentifier managerName ∧
      ∀ s : CallSite, ∃ before after, s.bodyLines c = before ++ s.statement c :: after ∧
        List.Forall₂ Reads before (wordsBefore c managerName) ∧
        List.Forall₂ Reads after (wordsAfter c s.resultType?.isSome)) ∧
    ∀ handler target aggregate? bindings,
      (CallSite.ofBindings c handler target aggregate? bindings).resultType?.isSome =
        !handler.returnsVoid := by
  have hAccepts := Configuration.parse_eq_ok_iff hRead file
  refine ⟨hAccepts, fun hBroken => ?_, fun hOk => ?_, isSome_resultType?_ofBindings c⟩
  · exact Configuration.parse_eq_error hRead file hBroken
  · exact CallSite.bodyLines_reads (hAccepts.mp hOk)

/-- The default settings, whose manager class has a scope, and a lock whose name has a blank in it. -/
theorem default_settings_and_misspelled_lock :
    (Configuration.parse "" "m.toml" = .ok .default ∧ ∃ scope managerName,
      ManagerSection.default.className.toList = scope ++ managerName.toList ∧
      IsIdentifier managerName ∧ ∀ s : CallSite, ∃ before after,
        s.bodyLines .default = before ++ s.statement .default :: after ∧
        List.Forall₂ Reads before (wordsBefore .default managerName) ∧
        List.Forall₂ Reads after (wordsAfter .default s.resultType?.isSome)) ∧
    ∃ (r : Configuration.Rule) (span? : Option Configuration.ValueSpan)
      (v : Configuration.Violation), ¬r.Holds ∧ (∀ w, r.Breaks w ↔ w = v) ∧
      Configuration.parse "[emit]\nlock = \"a b\"" "m.toml" = .error (.violated "m.toml" span? v) ∧
      PointsAt "[emit]\nlock = \"a b\"" span? r.value? := by
  let locked : Configuration := { Configuration.default with
    emit := { EmitSection.default with lock := "a b" } }
  have hEmpty : ConfigurationFormat.decode? "" = some Configuration.default := by
    change Configuration.ofToml? "" = some Configuration.default
    decide +kernel
  have hLock : ConfigurationFormat.decode? "[emit]\nlock = \"a b\"" = some locked := by
    change Configuration.ofToml? "[emit]\nlock = \"a b\"" = some locked
    decide +kernel
  have hDefault := accepted_iff_rules_and_body_reads "" "m.toml" (c := .default) hEmpty
  have hLocked := accepted_iff_rules_and_body_reads "[emit]\nlock = \"a b\"" "m.toml" (c := locked)
    hLock
  have hBroken : ¬∀ r ∈ locked.rules, r.Holds := by
    intro hHolds
    have hLock : IsIdentifier "a b" := hHolds (.name (Configuration.useIn "emit" "lock name") "a b")
      (by simp [Configuration.rules, locked])
    exact absurd hLock (by decide +kernel)
  have hOk := hDefault.1.mpr holds_of_default
  obtain ⟨scope, managerName, hClass, -, hName, hBodies⟩ := hDefault.2.2.1 hOk
  obtain ⟨_, r, _, span?, v, -, -, hFirst⟩ := hLocked.2.1 hBroken
  exact ⟨⟨hOk, scope, managerName, hClass, hName, hBodies⟩, r, span?, v, hFirst⟩

end SkeletonWeave.Bridge
