import Mathlib.Algebra.GroupWithZero.Nat
import SkeletonWeave.Proofs.Results
import SkeletonWeave.Proofs.Text.Lines
import SkeletonWeave.Proofs.Token.Lexemes

/-!
# Where tokens stand

A token starts where the lexemes before it end. Its line counts the line feeds
of those lexemes, except for the ones inside literals, so a line is exact as
long as no literal before it runs over a line feed.
-/

set_option autoImplicit false

namespace SkeletonWeave

theorem Lexeme.text_of_toToken? {l : Lexeme} {file offset line : Nat} {t : Token}
    (h : l.toToken? file offset line = some t) (hKind : t.kind ≠ .directive) :
    t.text.toList = l.chars := by
  unfold toToken? at h
  split at h
  · cases h
    exact String.toList_ofList
  · cases h
    exact absurd rfl hKind
  · cases h

namespace Token

open Text

/-- The line feeds inside a literal, by which the reader does not move on. -/
def hiddenBreaks (t : Token) : Nat :=
  match t.kind with
  | .string | .character => t.text.toList.count '\n'
  | _ => 0

theorem span_of_toToken? {l : Lexeme} {file offset line : Nat} {t : Token}
    (h : l.toToken? file offset line = some t) :
    t.span = ⟨file, offset, offset + byteLength l.chars⟩ ∧ t.line = line := by
  unfold Lexeme.toToken? at h
  split at h
  · cases h
    exact ⟨rfl, rfl⟩
  · cases h
    exact ⟨rfl, rfl⟩
  · cases h

theorem lines_add_hiddenBreaks {l : Lexeme} (hSound : l.Sound) (file offset line : Nat) :
    l.lines + ((l.toToken? file offset line).toList.map hiddenBreaks).sum = l.chars.count '\n' := by
  cases hRole : l.role with
  | plain kind =>
    have hLines : l.lines = 0 := by simp only [Lexeme.lines, hRole]
    simp only [Lexeme.toToken?, hRole, hLines, Option.toList_some, List.map_cons, List.map_nil,
      List.sum_cons, List.sum_nil, Nat.add_zero, Nat.zero_add]
    have hPlain (hString : kind ≠ .string) (hCharacter : kind ≠ .character) :
        l.chars.count '\n' = 0 :=
      List.count_eq_zero.mpr (hSound.noBreak kind hRole hString hCharacter)
    cases kind with
    | string => simp only [hiddenBreaks, String.toList_ofList]
    | character => simp only [hiddenBreaks, String.toList_ofList]
    | identifier => exact (hPlain (by decide) (by decide)).symm
    | number => exact (hPlain (by decide) (by decide)).symm
    | punctuation => exact (hPlain (by decide) (by decide)).symm
    | directive => exact (hPlain (by decide) (by decide)).symm
  | directive text => simp [Lexeme.lines, Lexeme.toToken?, hRole, hiddenBreaks]
  | blank => simp [Lexeme.lines, Lexeme.toToken?, hRole]
  | newline => simp [Lexeme.lines, Lexeme.toToken?, hRole]
  | joint => simp [Lexeme.lines, Lexeme.toToken?, hRole]
  | comment => simp [Lexeme.lines, Lexeme.toToken?, hRole]

theorem sum_lines_add_sum_hiddenBreaks {ls : List Lexeme} (hSound : ∀ l ∈ ls, l.Sound)
    (file offset line : Nat) :
    (ls.map (·.lines)).sum + ((ofLexemes file offset line ls).map hiddenBreaks).sum =
      (ls.flatMap (·.chars)).count '\n' := by
  induction ls generalizing offset line with
  | nil => rfl
  | cons l ls ih =>
    have hFirst := lines_add_hiddenBreaks (hSound l List.mem_cons_self) file offset line
    have hRest := ih (fun m hm => hSound m (List.mem_cons_of_mem l hm))
      (offset + byteLength l.chars) (line + l.lines)
    rw [ofLexemes, List.map_cons, List.sum_cons, List.map_append, List.sum_append,
      List.flatMap_cons, List.count_append]
    omega

theorem exists_of_ofLexemes {file offset line : Nat} {ls : List Lexeme} {before after : List Token}
    {t : Token} (h : ofLexemes file offset line ls = before ++ t :: after) :
    ∃ passed l rest, ls = passed ++ l :: rest ∧ before = ofLexemes file offset line passed ∧
      l.toToken? file (offset + byteLength (passed.flatMap (·.chars)))
        (line + (passed.map (·.lines)).sum) = some t := by
  induction ls generalizing offset line before with
  | nil => simp [ofLexemes] at h
  | cons l ls ih =>
    rw [ofLexemes] at h
    have hLater {before' : List Token}
        (hRest : ofLexemes file (offset + byteLength l.chars) (line + l.lines) ls =
          before' ++ t :: after) (hBefore : before = (l.toToken? file offset line).toList ++ before') :
        ∃ passed m rest, l :: ls = passed ++ m :: rest ∧ before = ofLexemes file offset line passed ∧
          m.toToken? file (offset + byteLength (passed.flatMap (·.chars)))
            (line + (passed.map (·.lines)).sum) = some t := by
      obtain ⟨passed, m, rest, hCut, rfl, hToken⟩ := ih hRest
      refine ⟨l :: passed, m, rest, by rw [hCut, List.cons_append], by rw [hBefore, ofLexemes], ?_⟩
      rw [List.flatMap_cons, byteLength_append, List.map_cons, List.sum_cons, ← Nat.add_assoc,
        ← Nat.add_assoc]
      exact hToken
    cases hToken : l.toToken? file offset line with
    | none =>
      rw [hToken] at h
      exact hLater h (by rw [hToken]; rfl)
    | some u =>
      rw [hToken] at h
      cases before with
      | nil =>
        obtain ⟨rfl, -⟩ := List.cons.inj h
        exact ⟨[], l, ls, rfl, rfl, hToken⟩
      | cons v before =>
        obtain ⟨rfl, hRest⟩ := List.cons.inj h
        exact hLater hRest (by rw [hToken]; rfl)

theorem file_of_lex {file : Nat} {name text : String} {ts : List Token}
    (hLex : lex file name text = .ok ts) : ∀ t ∈ ts, t.span.file = file := by
  intro t ht
  obtain ⟨before, after, rfl⟩ := List.append_of_mem ht
  obtain ⟨ls, -, hTokens⟩ := lex_eq_ok hLex
  obtain ⟨passed, l, rest, -, -, hToken⟩ := exists_of_ofLexemes hTokens.symm
  rw [(span_of_toToken? hToken).1]

theorem isNamePart_of_lex {file : Nat} {name text : String} {ts : List Token}
    (hLex : lex file name text = .ok ts) {t : Token} (ht : t ∈ ts) (hKind : t.kind = .identifier) :
    ∀ c ∈ t.text.toList, Lexeme.isNamePart c = true := by
  obtain ⟨before, after, rfl⟩ := List.append_of_mem ht
  obtain ⟨ls, hTiled, hTokens⟩ := lex_eq_ok hLex
  obtain ⟨passed, l, rest, rfl, -, hToken⟩ := exists_of_ofLexemes hTokens.symm
  have hSound := (hTiled.sound l (by simp)).1
  unfold Lexeme.toToken? at hToken
  split at hToken
  · next kind hRole =>
    cases hToken
    simp only at hKind
    rw [hKind] at hRole
    simpa using hSound.name hRole
  · cases hToken
    cases hKind
  · cases hToken

theorem exists_cut_of_lex {file : Nat} {name text : String} {before after : List Token} {t : Token}
    (hLex : lex file name text = .ok (before ++ t :: after)) :
    ∃ passed chars rest, text.toList = passed ++ (chars ++ rest) ∧ chars ≠ [] ∧
      t.span.start = byteLength passed ∧ t.span.stop = byteLength passed + byteLength chars ∧
      1 ≤ t.line ∧ t.line + (before.map hiddenBreaks).sum = 1 + passed.count '\n' := by
  obtain ⟨ls, hTiled, hTokens⟩ := lex_eq_ok hLex
  obtain ⟨passed, l, rest, rfl, hBefore, hToken⟩ := exists_of_ofLexemes hTokens.symm
  obtain ⟨hSpan, hLine⟩ := span_of_toToken? hToken
  have hSound : ∀ m ∈ passed, m.Sound := fun m hm =>
    (hTiled.sound m (List.mem_append_left _ hm)).1
  have hCount := sum_lines_add_sum_hiddenBreaks hSound file 0 1
  refine ⟨passed.flatMap (·.chars), l.chars, rest.flatMap (·.chars), ?_, ?_, ?_, ?_, ?_, ?_⟩
  · rw [hTiled.flatMap_chars, List.flatMap_append, List.flatMap_cons]
  · exact (hTiled.sound l (by simp)).2
  · rw [hSpan, Nat.zero_add]
  · rw [hSpan, Nat.zero_add]
  · rw [hLine]
    exact Nat.le_add_right _ _
  · rw [hLine, hBefore]
    omega

/-- What holds of every token of a file: it covers some bytes, from one boundary to another, and
its line starts before it. -/
structure Stands (file : Source.File) (t : Token) : Prop where
  starts : IsBoundary file.text.toList t.span.start
  stops : IsBoundary file.text.toList t.span.stop
  start_lt_stop : t.span.start < t.span.stop
  lineStart_le : file.lineStart t.line ≤ t.span.start

theorem stands_of_lex {file : Source.File} {ts : List Token}
    (hLex : lex file.id file.path file.text = .ok ts) : ∀ t ∈ ts, t.Stands file := by
  intro t ht
  obtain ⟨before, after, rfl⟩ := List.append_of_mem ht
  obtain ⟨passed, chars, rest, hText, hSome, hStart, hStop, hFirst, hLine⟩ := exists_cut_of_lex hLex
  have hPos := byteLength_pos hSome
  refine ⟨⟨passed, chars ++ rest, hText, hStart.symm⟩, ⟨passed ++ chars, rest, ?_, ?_⟩, ?_, ?_⟩
  · rw [hText, List.append_assoc]
  · rw [hStop, byteLength_append]
  · omega
  · rw [Source.File.lineStart, hText, hStart]
    exact lineStart_le _ hFirst (by omega)

theorem le_start_of_mem_ofLexemes {file offset line : Nat} {ls : List Lexeme} {t : Token}
    (ht : t ∈ ofLexemes file offset line ls) : offset ≤ t.span.start := by
  obtain ⟨before, after, hTokens⟩ := List.append_of_mem ht
  obtain ⟨passed, l, rest, -, -, hToken⟩ := exists_of_ofLexemes hTokens
  rw [(span_of_toToken? hToken).1]
  exact Nat.le_add_right _ _

theorem pairwise_ofLexemes (file offset line : Nat) (ls : List Lexeme) :
    (ofLexemes file offset line ls).Pairwise fun t u => t.span.stop ≤ u.span.start := by
  induction ls generalizing offset line with
  | nil => exact .nil
  | cons l ls ih =>
    rw [ofLexemes]
    cases hToken : l.toToken? file offset line with
    | none => exact ih _ _
    | some t =>
      refine List.pairwise_cons.mpr ⟨?_, ih _ _⟩
      intro u hu
      rw [(span_of_toToken? hToken).1]
      exact le_start_of_mem_ofLexemes hu

theorem pairwise_of_lex {file : Nat} {name text : String} {ts : List Token}
    (hLex : lex file name text = .ok ts) :
    ts.Pairwise fun t u => t.span.stop ≤ u.span.start := by
  obtain ⟨ls, -, rfl⟩ := lex_eq_ok hLex
  exact pairwise_ofLexemes file 0 1 ls

/-- The line of a token falls short of the line feeds before it, counted from one, by those that
earlier literals hide, so it is exact just when they hide none. -/
theorem line_eq_iff_no_hiddenBreaks {file : Source.File} {before after : List Token} {t : Token}
    (hLex : lex file.id file.path file.text = .ok (before ++ t :: after)) :
    t.line + (before.map hiddenBreaks).sum =
        1 + (takeBytes t.span.start file.text.toList).count '\n' ∧
      (t.line = 1 + (takeBytes t.span.start file.text.toList).count '\n' ↔
        ∀ u ∈ before, hiddenBreaks u = 0) ∧
      (file.lineStartOf? t.span.start = some (file.lineStart t.line) ↔
        ∀ u ∈ before, hiddenBreaks u = 0) := by
  obtain ⟨passed, chars, rest, hText, -, hStart, -, hFirst, hLine⟩ := exists_cut_of_lex hLex
  have hTake : takeBytes t.span.start file.text.toList = passed := by
    rw [hText, hStart, takeBytes_append]
  have hExact : t.line = 1 + passed.count '\n' ↔ ∀ u ∈ before, hiddenBreaks u = 0 := by
    rw [← hLine]
    constructor
    · intro hEq u hMem
      have hNone : (before.map hiddenBreaks).sum = 0 := by omega
      exact List.sum_eq_zero_iff_forall_eq_nat.mp hNone _ (List.mem_map_of_mem hMem)
    · intro hNone
      have : (before.map hiddenBreaks).sum = 0 := by
        rw [List.sum_eq_zero_iff_forall_eq_nat]
        rintro _ hMem
        obtain ⟨u, hu, rfl⟩ := List.mem_map.mp hMem
        exact hNone u hu
      omega
  rw [hTake]
  refine ⟨hLine, hExact, ?_⟩
  rw [Source.File.lineStart, Source.File.lineStartOf?, hText, hStart,
    lineStartOf?_eq_lineStart_iff hFirst (by omega), hExact]

theorem line_after_block_comment :
    lex 0 "a.cpp" "/*\n*/ \"a\" x" =
        .ok ([⟨.string, "\"a\"", ⟨0, 6, 9⟩, 2⟩] ++ ⟨.identifier, "x", ⟨0, 10, 11⟩, 2⟩ :: []) ∧
      (Source.File.mk 0 "a.cpp" "/*\n*/ \"a\" x").lineStartOf? 10 =
        some ((Source.File.mk 0 "a.cpp" "/*\n*/ \"a\" x").lineStart 2) := by
  have hLex : lex 0 "a.cpp" "/*\n*/ \"a\" x" =
      .ok ([⟨.string, "\"a\"", ⟨0, 6, 9⟩, 2⟩] ++ ⟨.identifier, "x", ⟨0, 10, 11⟩, 2⟩ :: []) :=
    eq_ok_of_toOption (by decide +kernel)
  have hPlace := @line_eq_iff_no_hiddenBreaks ⟨0, "a.cpp", "/*\n*/ \"a\" x"⟩ _ _ _ hLex
  exact ⟨hLex, hPlace.2.2.mpr (by decide)⟩

/-- A literal that runs over a line feed leaves every later token on a line too early. -/
theorem line_after_continued_literal :
    ∃ before t, lex 0 "a.cpp" "\"a\\\nb\" x" = .ok (before ++ t :: []) ∧
      t.line = 1 ∧ 1 + (takeBytes t.span.start "\"a\\\nb\" x".toList).count '\n' = 2 ∧
      (Source.File.mk 0 "a.cpp" "\"a\\\nb\" x").lineStart t.line = 0 ∧
      (Source.File.mk 0 "a.cpp" "\"a\\\nb\" x").lineStartOf? t.span.start = some 4 := by
  refine ⟨[⟨.string, "\"a\\\nb\"", ⟨0, 0, 6⟩, 1⟩], ⟨.identifier, "x", ⟨0, 7, 8⟩, 1⟩, ?_, rfl, ?_⟩
  · exact eq_ok_of_toOption (by decide +kernel)
  · decide +kernel

end Token

end SkeletonWeave
