import SkeletonWeave.Proofs.Token.ByteReader

/-!
# Logical lines of directives

A directive goes on over the joints of its physical lines. Its reader knows no
string literals and takes a comment opener for one wherever it stands, so it
reads a line to its end just if no literal in it holds a comment opener.
-/

set_option autoImplicit false

namespace SkeletonWeave

namespace Lexeme

open Text ByteReader

/-- A character of a logical line, or a joint of two physical ones. -/
inductive Stroke where
  | char (c : Char)
  | joint (hasReturn : Bool)
  deriving DecidableEq, Repr

namespace Stroke

def chars : Stroke → List Char
  | char c => [c]
  | joint false => ['\\', '\n']
  | joint true => ['\\', '\r', '\n']

/-- What a stroke adds to the logical text: its bytes, or a blank for a joint. -/
def text : Stroke → List Char
  | char c => byteChars c
  | joint _ => [' ']

end Stroke

def charsOf (strokes : List Stroke) : List Char :=
  strokes.flatMap Stroke.chars

def textOf (strokes : List Stroke) : List Char :=
  strokes.flatMap Stroke.text

def hasOpener : List Char → Bool
  | [] => false
  | c :: cs => (c = '/' && (cs.head? = some '/' || cs.head? = some '*')) || hasOpener cs

def opensFileName (text : List Char) : List Stroke → Bool
  | [] => false
  | s :: more =>
    ((s = .char '"' || s = .char '<') && namesFile text) || opensFileName (text ++ s.text) more

/-- What a logical line is made of where literals are known: strokes outside of them, and literals
between their quotes. -/
inductive LinePart where
  | plain (s : Stroke)
  | literal (body : List Char)
  deriving DecidableEq, Repr

namespace LinePart

def strokes : LinePart → List Stroke
  | plain s => [s]
  | literal body => .char '"' :: (body ++ ['"']).map .char

def outside : LinePart → List Char
  | plain s => s.chars
  | literal _ => ['"', '"']

def hidesOpener : LinePart → Bool
  | plain _ => false
  | literal body => hasOpener body

/-- Whether the part is what it says: no quote stands outside of a literal, and a literal is one
that ends at its last character. -/
def isWhole : LinePart → Bool
  | plain (.char c) => c ≠ '\n' && c ≠ '"'
  | plain (.joint _) => true
  | literal body =>
    !body.contains '\n' &&
      (Lexeme.literal [] '"' (body ++ ['"'])).toOption = some ⟨.plain .string, '"' :: (body ++ ['"'])⟩

end LinePart

/-- The logical line of a directive after its `#`, without comments, that asks for no file. -/
structure DirectiveLine where
  parts : List LinePart
  isWhole : parts.all LinePart.isWhole = true
  noComment : hasOpener (parts.flatMap LinePart.outside) = false
  noFileName : opensFileName [] (parts.flatMap LinePart.strokes) = false

namespace DirectiveLine

def strokes (line : DirectiveLine) : List Stroke :=
  line.parts.flatMap LinePart.strokes

def chars (line : DirectiveLine) : List Char :=
  charsOf line.strokes

def text (line : DirectiveLine) : List Char :=
  trim (textOf line.strokes)

end DirectiveLine

/-- Whether strokes end as a logical line does before a text: at the end of all, or at a line feed
that no backslash joins to the next line. -/
def EndsLine (strokes : List Stroke) (rest : List Char) : Prop :=
  rest = [] ∨
    rest.head? = some '\n' ∧ ¬[.char '\\'] <:+ strokes ∧ ¬[.char '\\', .char '\r'] <:+ strokes

theorem charsOf_cons (s : Stroke) (more : List Stroke) :
    charsOf (s :: more) = s.chars ++ charsOf more := rfl

theorem textOf_cons (s : Stroke) (more : List Stroke) :
    textOf (s :: more) = s.text ++ textOf more := rfl

theorem EndsLine.tail {s : Stroke} {more : List Stroke} {rest : List Char}
    (h : EndsLine (s :: more) rest) : EndsLine more rest := by
  have hSuffix {part : List Stroke} (hPart : part <:+ more) : part <:+ s :: more :=
    hPart.trans (List.suffix_cons s more)
  exact h.imp_right fun ⟨hHead, hLast, hReturn⟩ =>
    ⟨hHead, fun hPart => hLast (hSuffix hPart), fun hPart => hReturn (hSuffix hPart)⟩

theorem not_joint_of_endsLine {c : Char} {more : List Stroke} {rest : List Char}
    (hBreak : .char '\n' ∉ more) (hEnd : EndsLine (.char c :: more) rest) (hc : c = '\\') :
    (charsOf more ++ rest).head? ≠ some '\n' ∧
      ((charsOf more ++ rest).head? = some '\r' → (charsOf more ++ rest).tail.head? ≠ some '\n') := by
  subst hc
  match more with
  | [] =>
    rcases hEnd with rfl | ⟨-, hLast, -⟩
    · exact ⟨nofun, nofun⟩
    · exact absurd (List.suffix_refl _) hLast
  | .joint false :: more | .joint true :: more => exact ⟨by simp [charsOf_cons, Stroke.chars],
      by simp [charsOf_cons, Stroke.chars]⟩
  | .char d :: more =>
    rw [List.mem_cons, not_or] at hBreak
    refine ⟨fun hHead => hBreak.1 ?_, fun hHead => ?_⟩
    · rw [Option.some.inj hHead]
    · obtain rfl : d = '\r' := Option.some.inj hHead
      match more with
      | [] =>
        rcases hEnd with rfl | ⟨-, -, hReturn⟩
        · exact nofun
        · exact absurd (List.suffix_refl _) hReturn
      | .joint false :: more | .joint true :: more => simp [charsOf_cons, Stroke.chars]
      | .char e :: more =>
        intro hNext
        refine hBreak.2 ?_
        rw [Option.some.inj hNext]
        exact List.mem_cons_self

theorem namesFile_of_opensFileName {s : Stroke} {more : List Stroke} {text : List Char}
    (h : opensFileName text (s :: more) = false) :
    (∀ c, s = .char c → ((c = '"' || c = '<') && namesFile text) = false) ∧
      opensFileName (text ++ s.text) more = false := by
  rw [opensFileName, Bool.or_eq_false_iff] at h
  refine ⟨?_, h.2⟩
  rintro c rfl
  simpa using h.1

theorem directiveRestOnto_stroke {s : Stroke} {more : List Stroke} {text rest : List Char}
    (hBreak : .char '\n' ∉ s :: more) (hEnd : EndsLine (s :: more) rest)
    (hFile : opensFileName text (s :: more) = false)
    (hComment : s = .char '/' → (charsOf more ++ rest).head? ≠ some '/' ∧
      (charsOf more ++ rest).head? ≠ some '*') (taken : List Char) (offset : Nat) :
    directiveRestOnto taken text offset (charsOf (s :: more) ++ rest) =
      directiveRestOnto (s.chars.reverse ++ taken) (text ++ s.text) (offset + byteLength s.chars)
        (charsOf more ++ rest) := by
  rw [charsOf_cons, List.append_assoc]
  rw [List.mem_cons, not_or] at hBreak
  match s with
  | .joint hasReturn =>
    obtain ⟨part, hChars⟩ : ∃ part, (Stroke.joint hasReturn).chars = '\\' :: part := by
      cases hasReturn <;> exact ⟨_, rfl⟩
    have hPiece : directivePiece? text '\\' (part ++ (charsOf more ++ rest)) =
        some ⟨(Stroke.joint hasReturn).chars, [' ']⟩ := by
      cases hasReturn <;> cases hChars <;> rfl
    rw [hChars, List.cons_append, directiveRestOnto_cons (by decide) hPiece hChars rfl, hChars]
    rfl
  | .char c =>
    have hc : c ≠ '\n' := by
      rintro rfl
      exact hBreak.1 rfl
    have hStarts : StartsPiece c (charsOf more ++ rest) :=
      ⟨not_joint_of_endsLine hBreak.2 hEnd, fun hSlash => hComment (by rw [hSlash])⟩
    have hPiece : directivePiece? text c (charsOf more ++ rest) = some ⟨[c], byteChars c⟩ := by
      rw [directivePiece?_of_starts hStarts,
        if_neg (by simp [(namesFile_of_opensFileName hFile).1 c rfl])]
    exact directiveRestOnto_cons hc hPiece rfl rfl taken offset

theorem directiveRestOnto_end {rest : List Char} (h : rest = [] ∨ rest.head? = some '\n')
    (taken text : List Char) (offset : Nat) :
    directiveRestOnto taken text offset rest = .ok (taken, text) := by
  rcases h with rfl | hHead
  · rw [directiveRestOnto]
  · obtain ⟨more, rfl⟩ := List.head?_eq_some_iff.mp hHead
    rw [directiveRestOnto, if_pos rfl]

theorem EndsLine.rest {strokes : List Stroke} {rest : List Char} (h : EndsLine strokes rest) :
    rest = [] ∨ rest.head? = some '\n' :=
  h.imp_right And.left

theorem head?_before_rest {strokes : List Stroke} {rest : List Char} (h : EndsLine strokes rest)
    {more : List Stroke} {d : Char} (hd : d ≠ '\n') :
    (charsOf more ++ rest).head? = some d ↔ (charsOf more).head? = some d := by
  cases charsOf more with
  | cons => rfl
  | nil =>
    rcases h.rest with rfl | hHead
    · rfl
    · simp [hHead, Ne.symm hd]

theorem hasOpener_stroke (s : Stroke) (more : List Stroke) :
    hasOpener (charsOf (s :: more)) = false ↔
      (s = .char '/' → (charsOf more).head? ≠ some '/' ∧ (charsOf more).head? ≠ some '*') ∧
        hasOpener (charsOf more) = false := by
  rw [charsOf_cons]
  match s with
  | .joint false | .joint true => simp [Stroke.chars, hasOpener]
  | .char c => simp [Stroke.chars, hasOpener]

theorem directiveRestOnto_strokes {strokes : List Stroke} {text rest : List Char}
    (hBreak : .char '\n' ∉ strokes) (hEnd : EndsLine strokes rest)
    (hFile : opensFileName text strokes = false) (hOpener : hasOpener (charsOf strokes) = false)
    (taken : List Char) (offset : Nat) :
    directiveRestOnto taken text offset (charsOf strokes ++ rest) =
      .ok ((charsOf strokes).reverse ++ taken, text ++ textOf strokes) := by
  induction strokes generalizing taken text offset with
  | nil =>
    have hRead := directiveRestOnto_end hEnd.rest taken text offset
    simpa [charsOf, textOf] using hRead
  | cons s more ih =>
    obtain ⟨hComment, hMore⟩ := (hasOpener_stroke s more).mp hOpener
    rw [directiveRestOnto_stroke hBreak hEnd hFile, ih (fun hMem => hBreak (.tail s hMem)) hEnd.tail
      (namesFile_of_opensFileName hFile).2 hMore, charsOf_cons, textOf_cons]
    · simp
    · rwa [ne_eq, ne_eq, head?_before_rest hEnd (by decide), head?_before_rest hEnd (by decide)]

theorem count_slash_byteChars (cs : List Char) :
    (cs.flatMap byteChars).count '/' = cs.count '/' :=
  count_bytes_of_ascii (by decide) cs

theorem count_slash_stroke (s : Stroke) : s.text.count '/' = s.chars.count '/' := by
  match s with
  | .joint false | .joint true => rfl
  | .char c => simpa [Stroke.text, Stroke.chars] using count_slash_byteChars [c]

theorem count_slash_strokes (strokes : List Stroke) :
    (textOf strokes).count '/' = (charsOf strokes).count '/' := by
  induction strokes with
  | nil => rfl
  | cons s more ih =>
    rw [textOf_cons, charsOf_cons, List.count_append, List.count_append, ih, count_slash_stroke]

theorem count_slash_piece {text cs : List Char} {c : Char} {piece : Piece}
    (h : directivePiece? text c cs = some piece) :
    piece.text.count '/' ≤ piece.chars.count '/' := by
  unfold directivePiece? at h
  split at h
  · cases h
    exact Nat.zero_le _
  · cases h
    exact Nat.zero_le _
  · cases h
    exact Nat.zero_le _
  · obtain ⟨body, -, rfl⟩ := Option.map_eq_some_iff.mp h
    exact Nat.zero_le _
  · split at h
    · cases h
      exact (count_slash_byteChars _).le
    · cases h
      exact (count_slash_stroke (.char c)).le

theorem count_slash_comment {text cs : List Char} {piece : Piece}
    (hOpener : cs.head? = some '/' ∨ cs.head? = some '*')
    (h : directivePiece? text '/' cs = some piece) :
    piece.text.count '/' < piece.chars.count '/' := by
  rcases hOpener with hHead | hHead <;> obtain ⟨rest, rfl⟩ := List.head?_eq_some_iff.mp hHead
  · cases h
    simp
  · obtain ⟨body, -, rfl⟩ := Option.map_eq_some_iff.mp h
    simp

/-- Reading a directive line may lose slashes to comments, and adds none. -/
theorem count_slash_directive {taken text cs taken' text' : List Char} {offset : Nat}
    (h : directiveRestOnto taken text offset cs = .ok (taken', text')) :
    text'.count '/' + taken.count '/' ≤ text.count '/' + taken'.count '/' := by
  fun_induction directiveRestOnto taken text offset cs with
  | case1 =>
    cases h
    exact le_rfl
  | case2 =>
    cases h
    exact le_rfl
  | case3 => cases h
  | case4 taken text offset c cs _ piece hPiece ih =>
    have hRest := ih h
    have hFirst := count_slash_piece hPiece
    simp only [List.count_append, List.count_reverse] at hRest
    omega

theorem noOpener_of_count_slash {strokes : List Stroke} {taken text rest taken' text' : List Char}
    {offset : Nat} (hBreak : .char '\n' ∉ strokes) (hEnd : EndsLine strokes rest)
    (hFile : opensFileName text strokes = false)
    (h : directiveRestOnto taken text offset (charsOf strokes ++ rest) = .ok (taken', text'))
    (hCount : text.count '/' + taken'.count '/' ≤ text'.count '/' + taken.count '/') :
    hasOpener (charsOf strokes) = false := by
  induction strokes generalizing taken text offset with
  | nil => rfl
  | cons s more ih =>
    have hComment : s = .char '/' → (charsOf more ++ rest).head? ≠ some '/' ∧
        (charsOf more ++ rest).head? ≠ some '*' := by
      rintro rfl
      by_contra hOpener
      rw [← not_or, not_not] at hOpener
      rw [charsOf_cons, Stroke.chars, List.singleton_append, List.cons_append] at h
      cases hPiece : directivePiece? text '/' (charsOf more ++ rest) with
      | none =>
        rw [directiveRestOnto, if_neg (by decide), hPiece] at h
        cases h
      | some piece =>
        obtain ⟨part, after, hChars, hCut⟩ := directivePiece?_eq_some hPiece
        rw [directiveRestOnto_cons (by decide) hPiece hChars hCut] at h
        have hFirst := count_slash_comment hOpener hPiece
        have hRest := count_slash_directive h
        simp only [List.count_append, List.count_reverse] at hRest
        omega
    rw [directiveRestOnto_stroke hBreak hEnd hFile hComment] at h
    refine (hasOpener_stroke s more).mpr ⟨?_, ih (fun hMem => hBreak (.tail s hMem)) hEnd.tail
      (namesFile_of_opensFileName hFile).2 h ?_⟩
    · rwa [ne_eq, ne_eq, head?_before_rest hEnd (by decide),
        head?_before_rest hEnd (by decide)] at hComment
    · simp only [List.count_append, List.count_reverse, count_slash_stroke]
      omega

theorem count_slash_trim (cs : List Char) : (trim cs).count '/' = cs.count '/' := by
  have hBlanks {ds : List Char} : (ds.takeWhile isBlank).count '/' = 0 := by
    refine List.count_eq_zero.mpr fun hMem => ?_
    exact absurd (List.all_eq_true.mp List.all_takeWhile _ hMem) (by decide)
  have hDrop (ds : List Char) : (ds.dropWhile isBlank).count '/' = ds.count '/' := by
    conv_rhs => rw [← List.takeWhile_append_dropWhile (p := isBlank) (l := ds), List.count_append,
      hBlanks, Nat.zero_add]
  rw [trim, trimRight, dropEndWhile, List.count_reverse, hDrop, List.count_reverse, trimLeft, hDrop]

theorem hasOpener_append_cons {d : Char} (hSlash : d ≠ '/') (hStar : d ≠ '*') (cs ds : List Char) :
    hasOpener (cs ++ d :: ds) = (hasOpener cs || hasOpener ds) := by
  induction cs with
  | nil => simp [hasOpener, hSlash]
  | cons c cs ih =>
    have hHead : (cs ++ d :: ds).head? = if cs = [] then some d else cs.head? := by
      cases cs <;> rfl
    rw [List.cons_append, hasOpener, hasOpener, ih, hHead, Bool.or_assoc]
    split
    · next hEmpty => simp [hEmpty, hSlash, hStar]
    · rfl

theorem charsOf_literal (body : List Char) (more : List Stroke) :
    charsOf ((LinePart.literal body).strokes ++ more) = '"' :: (body ++ '"' :: charsOf more) := by
  simp [charsOf, LinePart.strokes, List.flatMap_map, Stroke.chars]

theorem head?_outside (parts : List LinePart) :
    (charsOf (parts.flatMap LinePart.strokes)).head? = (parts.flatMap LinePart.outside).head? := by
  match parts with
  | [] => rfl
  | .literal body :: parts => rw [List.flatMap_cons, charsOf_literal]; rfl
  | .plain (.char c) :: parts => rfl
  | .plain (.joint false) :: parts | .plain (.joint true) :: parts => rfl

theorem hasOpener_strokes (parts : List LinePart) :
    hasOpener (charsOf (parts.flatMap LinePart.strokes)) = false ↔
      hasOpener (parts.flatMap LinePart.outside) = false ∧
        ∀ part ∈ parts, part.hidesOpener = false := by
  induction parts with
  | nil => simp [charsOf, hasOpener]
  | cons part parts ih =>
    rw [List.flatMap_cons, List.flatMap_cons, List.forall_mem_cons]
    match part with
    | .plain s =>
      have hOutside : hasOpener (s.chars ++ parts.flatMap LinePart.outside) = false ↔
          (s = .char '/' → (parts.flatMap LinePart.outside).head? ≠ some '/' ∧
            (parts.flatMap LinePart.outside).head? ≠ some '*') ∧
          hasOpener (parts.flatMap LinePart.outside) = false := by
        match s with
        | .joint false | .joint true => simp [Stroke.chars, hasOpener]
        | .char c => simp [Stroke.chars, hasOpener]
      show hasOpener (charsOf (s :: parts.flatMap LinePart.strokes)) = false ↔
        hasOpener (s.chars ++ parts.flatMap LinePart.outside) = false ∧ _
      rw [hasOpener_stroke, hOutside, ih, head?_outside, and_assoc, LinePart.hidesOpener,
        eq_self_iff_true, true_and]
    | .literal body =>
      have hOutside : hasOpener ((LinePart.literal body).outside ++ parts.flatMap LinePart.outside) =
          hasOpener (parts.flatMap LinePart.outside) := by
        simp [LinePart.outside, hasOpener]
      have hStrokes : hasOpener ('"' :: (body ++ '"' :: charsOf (parts.flatMap LinePart.strokes))) =
          (hasOpener body || hasOpener (charsOf (parts.flatMap LinePart.strokes))) := by
        rw [← hasOpener_append_cons (d := '"') (by decide) (by decide), hasOpener]
        simp
      rw [charsOf_literal, hStrokes, hOutside, Bool.or_eq_false_iff, ih]
      exact and_left_comm

namespace DirectiveLine

theorem noBreak (line : DirectiveLine) : .char '\n' ∉ line.strokes := by
  intro hMem
  obtain ⟨part, hPart, hStroke⟩ := List.mem_flatMap.mp hMem
  have hWhole := List.all_eq_true.mp line.isWhole part hPart
  match part with
  | .plain s =>
    obtain rfl := List.mem_singleton.mp hStroke
    simp [LinePart.isWhole] at hWhole
  | .literal body =>
    simp only [LinePart.isWhole, Bool.and_eq_true, Bool.not_eq_true', List.contains_eq_mem,
      decide_eq_false_iff_not] at hWhole
    simp [LinePart.strokes, hWhole.1] at hStroke

end DirectiveLine

theorem next_directive (cs : List Char) : next true '#' cs = directiveLine cs := by
  have hStarts : StartsToken '#' cs := ⟨by decide, by decide, nofun, nofun⟩
  exact next_of_starts hStarts true

/-- A directive line is the lexeme that its literals make it, and reading goes on after its logical
line, just if no literal holds a comment opener. -/
theorem directive_ends_with_line_iff (line : DirectiveLine) {rest : List Char}
    (hEnd : EndsLine line.strokes rest) :
    (next true '#' (line.chars ++ rest) = .ok ⟨.directive line.text, '#' :: line.chars⟩ ∧
      ∀ (taken : List Token) (file offset number : Nat),
        Token.lexOnto taken file true offset number ('#' :: (line.chars ++ rest)) =
          Token.lexOnto
            (⟨.directive, String.ofList line.text,
              ⟨file, offset, offset + byteLength ('#' :: line.chars)⟩, number⟩ :: taken)
            file true (offset + byteLength ('#' :: line.chars)) (number + line.chars.count '\n')
            rest) ↔
      ∀ part ∈ line.parts, part.hidesOpener = false := by
  have hParts := hasOpener_strokes line.parts
  rw [and_iff_right line.noComment] at hParts
  rw [← hParts, next_directive]
  constructor
  · rintro ⟨hNext, -⟩
    rw [directiveLine] at hNext
    split at hNext
    · next taken text hRead =>
      have hLexeme := Except.ok.inj hNext
      have hText : trim text = line.text :=
        LexemeRole.directive.inj (congrArg Lexeme.role hLexeme)
      have hTaken : taken.reverse = '#' :: line.chars := congrArg Lexeme.chars hLexeme
      refine noOpener_of_count_slash line.noBreak hEnd line.noFileName hRead ?_
      rw [← List.count_reverse (l := taken), hTaken, ← count_slash_trim text, hText,
        DirectiveLine.text, count_slash_trim, count_slash_strokes]
      simp [DirectiveLine.chars]
    · cases hNext
  · intro hOpener
    have hRead : directiveLine (line.chars ++ rest) =
        .ok ⟨.directive line.text, '#' :: line.chars⟩ := by
      rw [directiveLine, DirectiveLine.chars,
        directiveRestOnto_strokes line.noBreak hEnd line.noFileName hOpener ['#'] 1]
      simp [DirectiveLine.text]
    refine ⟨hRead, fun taken file offset number => ?_⟩
    rw [Token.lexOnto, next_directive, hRead]
    simp [toToken?, keepsLineStart, lines]

theorem directive_with_escaped_quote :
    let strokes (text : String) : List LinePart := text.toList.map fun c => .plain (.char c)
    let parts := strokes "define X " ++ .literal "a\\\"/".toList :: .plain (.joint true) :: strokes " / 2"
    ∃ line : DirectiveLine, line.parts = parts ∧ EndsLine line.strokes "\nint y;".toList ∧
      (next true '#' (line.chars ++ "\nint y;".toList) =
        .ok ⟨.directive "define X \"a\\\"/\"  / 2".toList, '#' :: line.chars⟩) := by
  intro strokes parts
  let line : DirectiveLine :=
    ⟨parts, by decide +kernel, by decide +kernel, by decide +kernel⟩
  have hEnd : EndsLine line.strokes "\nint y;".toList :=
    .inr ⟨rfl, by decide +kernel, by decide +kernel⟩
  have hText : line.text = "define X \"a\\\"/\"  / 2".toList := by decide +kernel
  have hOpener : ∀ part ∈ line.parts, part.hidesOpener = false := by decide +kernel
  rw [← hText]
  exact ⟨line, rfl, hEnd, ((directive_ends_with_line_iff line hEnd).mpr hOpener).1⟩

/-- The comment that a literal opens goes on past the line and never ends. -/
theorem directive_lost_to_literal :
    ∃ line : DirectiveLine, '#' :: line.chars = "#define X \"/*\"".toList ∧
      EndsLine line.strokes "\nint y;".toList ∧
      next true '#' (line.chars ++ "\nint y;".toList) = .error ⟨.unterminatedComment, 11, 2⟩ := by
  let parts := ("define X ".toList.map fun c => LinePart.plain (.char c)) ++ [.literal ['/', '*']]
  refine ⟨⟨parts, by decide +kernel, by decide +kernel, by decide +kernel⟩, by decide +kernel,
    .inr ⟨rfl, by decide +kernel, by decide +kernel⟩, by decide +kernel⟩

end Lexeme

end SkeletonWeave
