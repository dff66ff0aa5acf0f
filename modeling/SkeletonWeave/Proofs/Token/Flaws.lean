import SkeletonWeave.Proofs.Token.Relexing

/-!
# Where texts cannot be read

A flaw is a comment without end, told with its two opening characters, or a
literal without end, told from its start to the end of its line. Both are parts
of the text between boundaries, with one exception: where the text breaks off
after the backslash of an escape, the literal is said to end one byte after it.
-/

set_option autoImplicit false

namespace SkeletonWeave

open Text

namespace Source

def Cause.isLiteral : Cause → Bool
  | .unterminatedString | .unterminatedCharacter => true
  | _ => false

/-- Whether a text breaks off after the backslash of an escape, before any line feed outside of
escapes. -/
def breaksInEscape : List Char → Bool
  | [] => false
  | '\n' :: _ => false
  | '\\' :: [] => true
  | '\\' :: _ :: cs => breaksInEscape cs
  | _ :: cs => breaksInEscape cs

def EndsInEscape (cause : Cause) (start : Nat) (text : List Char) : Prop :=
  cause.isLiteral = true ∧
    ∃ before rest, text = before ++ rest ∧ byteLength before = start ∧ breaksInEscape rest = true

/-- Whether a failure points at a part of a text between boundaries, or at a literal that breaks off
in an escape. -/
structure PointsInto (cause : Cause) (start length : Nat) (text : List Char) : Prop where
  starts : IsBoundary text start
  stops : ¬EndsInEscape cause start text → IsBoundary text (start + length)
  overruns : EndsInEscape cause start text → start + length = byteLength text + 1

namespace PointsInto

variable {cause : Cause} {start length : Nat} {text : List Char}

theorem of_boundaries (hCause : cause.isLiteral = false) (hStart : IsBoundary text start)
    (hStop : IsBoundary text (start + length)) : PointsInto cause start length text where
  starts := hStart
  stops := fun _ => hStop
  overruns := by
    rintro ⟨hLiteral, -⟩
    rw [hCause] at hLiteral
    cases hLiteral

theorem after (h : PointsInto cause start length text) (before : List Char) :
    PointsInto cause (byteLength before + start) length (before ++ text) := by
  obtain ⟨first, second, hText, hStart⟩ := h.starts
  have hEscape : EndsInEscape cause (byteLength before + start) (before ++ text) ↔
      EndsInEscape cause start text := by
    refine and_congr_right fun _ => ⟨?_, ?_⟩
    · rintro ⟨passed, rest, hCut, hPassed, hBreaks⟩
      rw [hText, ← List.append_assoc] at hCut
      obtain ⟨-, rfl⟩ := cut_unique hCut (by rw [byteLength_append, hPassed, hStart])
      exact ⟨first, second, hText, hStart, hBreaks⟩
    · rintro ⟨passed, rest, rfl, rfl, hBreaks⟩
      exact ⟨before ++ passed, rest, (List.append_assoc ..).symm, byteLength_append .., hBreaks⟩
  constructor
  case starts =>
    exact ⟨before ++ first, second, by rw [hText, List.append_assoc],
      by rw [byteLength_append, hStart]⟩
  case stops =>
    rw [hEscape]
    intro hWhole
    obtain ⟨passed, rest, rfl, hPassed⟩ := h.stops hWhole
    exact ⟨before ++ passed, rest, by rw [List.append_assoc],
      by rw [byteLength_append, hPassed, Nat.add_assoc]⟩
  case overruns =>
    rw [hEscape]
    intro hBreaks
    rw [byteLength_append, Nat.add_assoc, h.overruns hBreaks, Nat.add_assoc]

end PointsInto

theorem breaksInEscape_cons {c : Char} (hBreak : c ≠ '\n') (hPlain : c ≠ '\\') (cs : List Char) :
    breaksInEscape (c :: cs) = breaksInEscape cs := by
  rw [breaksInEscape.eq_def]
  split <;> simp_all

theorem breaksInEscape_append {part : List Char} (h : ∀ c ∈ part, c ≠ '\n' ∧ c ≠ '\\')
    (cs : List Char) :
    breaksInEscape (part ++ cs) = breaksInEscape cs := by
  induction part with
  | nil => rfl
  | cons c part ih =>
    obtain ⟨⟨hBreak, hPlain⟩, hPart⟩ := List.forall_mem_cons.mp h
    rw [List.cons_append, breaksInEscape_cons hBreak hPlain, ih hPart]

end Source

namespace Lexeme

open Source (PointsInto EndsInEscape breaksInEscape breaksInEscape_cons breaksInEscape_append)

/-- A literal without end is told to the end of its line, or to one byte after the text. -/
theorem literalRestOnto_error {quote : Char} {taken cs : List Char} {bytes n : Nat}
    (h : literalRestOnto quote taken bytes cs = .error n) :
    (breaksInEscape cs = false → ∃ body rest, cs = body ++ rest ∧ n = bytes + byteLength body) ∧
      (breaksInEscape cs = true → n = bytes + byteLength cs + 1) := by
  fun_induction literalRestOnto quote taken bytes cs with
  | case1 taken bytes =>
    cases h
    exact ⟨fun _ => ⟨[], [], rfl, rfl⟩, by simp [breaksInEscape]⟩
  | case2 taken bytes cs =>
    cases h
    exact ⟨fun _ => ⟨[], _, rfl, rfl⟩, by simp [breaksInEscape]⟩
  | case3 taken bytes =>
    cases h
    exact ⟨by simp [breaksInEscape], fun _ => rfl⟩
  | case4 taken bytes c cs ih =>
    obtain ⟨hInside, hOver⟩ := ih h
    rw [breaksInEscape]
    refine ⟨fun hWhole => ?_, fun hBreaks => ?_⟩
    · obtain ⟨body, rest, rfl, rfl⟩ := hInside hWhole
      refine ⟨'\\' :: c :: body, rest, rfl, ?_⟩
      rw [byteLength_cons, byteLength_cons, show ('\\' : Char).utf8Size = 1 from rfl]
      omega
    · rw [hOver hBreaks, byteLength_cons, byteLength_cons, show ('\\' : Char).utf8Size = 1 from rfl]
      omega
  | case5 => cases h
  | case6 taken bytes c cs hBreak hEnd hPair hOther ih =>
    obtain ⟨hInside, hOver⟩ := ih h
    rw [breaksInEscape_cons hBreak (ne_backslash hEnd hPair)]
    refine ⟨fun hWhole => ?_, fun hBreaks => ?_⟩
    · obtain ⟨body, rest, rfl, rfl⟩ := hInside hWhole
      exact ⟨c :: body, rest, rfl, by rw [byteLength_cons, Nat.add_assoc]⟩
    · rw [hOver hBreaks, byteLength_cons]
      omega

theorem literal_error {mark cs : List Char} {quote : Char} {flaw : Flaw}
    (hQuote : isQuote quote = true) (hMark : ∀ c ∈ mark, c ≠ '\n' ∧ c ≠ '\\')
    (h : literal mark quote cs = .error flaw) :
    PointsInto flaw.cause flaw.start flaw.length (mark ++ quote :: cs) := by
  have hPlain : quote ≠ '\n' ∧ quote ≠ '\\' ∧ quote.utf8Size = 1 := by
    simp only [isQuote, Bool.or_eq_true, beq_iff_eq] at hQuote
    rcases hQuote with rfl | rfl <;> decide
  obtain ⟨hBreak, hPlain, hSize⟩ := hPlain
  have hBreaks : breaksInEscape (mark ++ quote :: cs) = breaksInEscape cs := by
    rw [breaksInEscape_append hMark, breaksInEscape_cons hBreak hPlain]
  obtain ⟨cause, length, hLength, hLiteral, rfl⟩ : ∃ cause length,
      literalRest quote (byteLength mark + 1) cs = .error length ∧ cause.isLiteral = true ∧
        flaw = ⟨cause, 0, length⟩ := by
    simp only [literal] at h
    split at h
    · cases h
    · next length hLength =>
      cases h
      refine ⟨_, length, hLength, ?_, rfl⟩
      split <;> rfl
  have hRest : literalRestOnto quote [] (byteLength mark + 1) cs = .error length := by
    rw [literalRest] at hLength
    cases hRead : literalRestOnto quote [] (byteLength mark + 1) cs with
    | ok rest =>
      rw [hRead] at hLength
      cases hLength
    | error n =>
      rw [hRead] at hLength
      exact hLength
  obtain ⟨hInside, hOver⟩ := literalRestOnto_error hRest
  have hEscape : EndsInEscape cause 0 (mark ++ quote :: cs) ↔ breaksInEscape cs = true := by
    rw [← hBreaks]
    constructor
    · rintro ⟨-, before, rest, hCut, hBefore, hRestBreaks⟩
      have hWhole : [] ++ (mark ++ quote :: cs) = before ++ rest := hCut
      obtain ⟨rfl, rfl⟩ := cut_unique hWhole hBefore.symm
      exact hRestBreaks
    · exact fun hWhole => ⟨hLiteral, [], _, rfl, rfl, hWhole⟩
  refine ⟨⟨[], _, rfl, rfl⟩, fun hWhole => ?_, fun hWhole => ?_⟩
  · rw [hEscape, Bool.not_eq_true] at hWhole
    obtain ⟨body, rest, rfl, rfl⟩ := hInside hWhole
    refine ⟨mark ++ quote :: body, rest, by simp, ?_⟩
    simp only [byteLength_append, byteLength_cons, hSize]
    omega
  · simp only [hOver (hEscape.mp hWhole), byteLength_append, byteLength_cons, hSize]
    omega

theorem ne_of_isNamePart {c : Char} (h : isNamePart c = true) : c ≠ '\n' ∧ c ≠ '\\' := by
  constructor <;> rintro rfl <;> exact absurd h (by decide)

theorem word_error {c : Char} {cs : List Char} {flaw : Flaw} (hStart : isNameStart c = true)
    (h : word c cs = .error flaw) :
    PointsInto flaw.cause flaw.start flaw.length (c :: cs) := by
  have hName : ∀ d ∈ c :: cs.takeWhile isNamePart, d ≠ '\n' ∧ d ≠ '\\' := by
    intro d hd
    refine ne_of_isNamePart ?_
    rcases List.mem_cons.mp hd with rfl | hd
    · exact isNamePart_of_isNameStart hStart
    · exact List.all_eq_true.mp List.all_takeWhile d hd
  have hCut : c :: cs = c :: cs.takeWhile isNamePart ++ cs.dropWhile isNamePart := by
    rw [List.cons_append, List.takeWhile_append_dropWhile]
  simp only [word] at h
  split at h
  · next quote rest hRest =>
    split at h
    · next hMark =>
      rw [hCut, hRest]
      exact literal_error (Bool.and_eq_true_iff.mp hMark).1 hName h
    · cases h
  · cases h

theorem token_error {c : Char} {cs : List Char} {flaw : Flaw} (h : token c cs = .error flaw) :
    PointsInto flaw.cause flaw.start flaw.length (c :: cs) := by
  unfold token at h
  split at h
  · next hStart => exact word_error hStart h
  · split at h
    · cases h
    · split at h
      · next hQuote =>
        have hMark : ∀ d ∈ ([] : List Char), d ≠ '\n' ∧ d ≠ '\\' := nofun
        exact literal_error hQuote hMark h
      · cases h

theorem pointsInto_comment (before rest : List Char) :
    PointsInto .unterminatedComment (byteLength before) 2 (before ++ '/' :: '*' :: rest) :=
  .of_boundaries rfl ⟨before, _, rfl, rfl⟩
    ⟨before ++ ['/', '*'], rest, by rw [List.append_assoc]; rfl, by rw [byteLength_append]; rfl⟩

theorem directivePiece?_eq_none {text cs : List Char} {c : Char}
    (h : directivePiece? text c cs = none) : c = '/' ∧ cs.head? = some '*' := by
  unfold directivePiece? at h
  split at h
  · cases h
  · cases h
  · cases h
  · exact ⟨rfl, rfl⟩
  · split at h <;> cases h

theorem directiveRestOnto_error {taken text cs : List Char} {offset n : Nat}
    (h : directiveRestOnto taken text offset cs = .error n) :
    ∃ before rest, cs = before ++ '/' :: '*' :: rest ∧ n = offset + byteLength before := by
  fun_induction directiveRestOnto taken text offset cs with
  | case1 => cases h
  | case2 => cases h
  | case3 taken text offset c cs hBreak hPiece =>
    cases h
    obtain ⟨rfl, hStar⟩ := directivePiece?_eq_none hPiece
    obtain ⟨rest, rfl⟩ := List.head?_eq_some_iff.mp hStar
    exact ⟨[], rest, rfl, rfl⟩
  | case4 taken text offset c cs hBreak piece hPiece ih =>
    obtain ⟨part, after, hChars, rfl⟩ := directivePiece?_eq_some hPiece
    obtain ⟨before, rest, hRest, rfl⟩ := ih h
    rw [hChars, List.length_cons, Nat.add_sub_cancel, List.drop_left] at hRest
    refine ⟨c :: part ++ before, rest, by rw [hRest, List.append_assoc, List.cons_append], ?_⟩
    rw [hChars, byteLength_append, Nat.add_assoc]

theorem directiveLine_error {cs : List Char} {flaw : Flaw} (h : directiveLine cs = .error flaw) :
    PointsInto flaw.cause flaw.start flaw.length ('#' :: cs) := by
  unfold directiveLine at h
  split at h
  · cases h
  · next offset hFound =>
    cases h
    obtain ⟨before, rest, rfl, rfl⟩ := directiveRestOnto_error hFound
    exact pointsInto_comment ('#' :: before) rest

theorem next_error {atLineStart : Bool} {c : Char} {cs : List Char} {flaw : Flaw}
    (h : next atLineStart c cs = .error flaw) :
    PointsInto flaw.cause flaw.start flaw.length (c :: cs) := by
  unfold next at h
  split at h
  · cases h
  · cases h
  · cases h
  · split at h
    · cases h
    · cases h
      exact pointsInto_comment [] _
  · split at h
    · cases h
    · split at h
      · next hHash =>
        obtain rfl : c = '#' := by simp_all
        exact directiveLine_error h
      · exact token_error h

end Lexeme

namespace Token

theorem lexOnto_error {taken : List Token} {file : Nat} {atLineStart : Bool} {offset line : Nat}
    {cs : List Char} {flaw : Flaw}
    (h : lexOnto taken file atLineStart offset line cs = .error flaw) :
    ∃ start, flaw.start = offset + start ∧ Source.PointsInto flaw.cause start flaw.length cs := by
  fun_induction lexOnto taken file atLineStart offset line cs with
  | case1 => cases h
  | case2 taken atLineStart offset line c cs flaw hNext =>
    cases h
    exact ⟨flaw.start, rfl, Lexeme.next_error hNext⟩
  | case3 taken atLineStart offset line c cs lexeme hNext ih =>
    obtain ⟨part, rest, hChars, rfl, -, -⟩ := Lexeme.next_cut hNext
    obtain ⟨start, hStart, hPoints⟩ := ih h
    rw [hChars, List.length_cons, Nat.add_sub_cancel, List.drop_left] at hPoints
    refine ⟨byteLength (c :: part) + start, by rw [hStart, hChars, Nat.add_assoc], ?_⟩
    exact hPoints.after (c :: part)

/-- A text that cannot be read is told with a part of it between boundaries, or with a literal that
breaks off in an escape. -/
theorem lex_error {file : Nat} {name text : String} {e : Source.Error}
    (h : lex file name text = .error e) :
    ∃ cause start length, e = .located cause name start length ∧
      Source.PointsInto cause start length text.toList := by
  rw [lex, lexChars] at h
  cases hRead : lexOnto [] file true 0 1 text.toList with
  | ok ts =>
    rw [hRead] at h
    cases h
  | error flaw =>
    rw [hRead] at h
    cases h
    obtain ⟨start, hStart, hPoints⟩ := lexOnto_error hRead
    rw [Nat.zero_add] at hStart
    exact ⟨_, _, _, rfl, hStart ▸ hPoints⟩

end Token

end SkeletonWeave
