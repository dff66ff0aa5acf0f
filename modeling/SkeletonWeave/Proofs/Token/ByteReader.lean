import SkeletonWeave.Proofs.Token.Relexing

/-!
# Reading byte by byte

Tokens can be read without regard to characters: from each byte to the next,
with a part cut out of the text where a token stops. All that a byte is
compared with is ASCII, so a reader that stands in the middle of a character
goes on to its end. Every cut is between characters, and what is read is the
same as character by character.
-/

set_option autoImplicit false

namespace SkeletonWeave

namespace ByteReader

open Text Lexeme

def bytesOf (text : String) : List Char :=
  text.toUTF8.data.toList.map fun b => Char.ofNat b.toNat

/-- What is read from a position on, and how many bytes it takes. -/
structure Extent where
  role : LexemeRole
  count : Nat

/-- Where a block comment ends. Here as below, `count` bytes are passed. -/
def blockEnd? (count : Nat) : List Char → Option Nat
  | [] => none
  | '*' :: '/' :: _ => some (count + 2)
  | _ :: bs => blockEnd? (count + 1) bs

/-- Where a literal ends. A backslash jumps over the next byte, which can leave the reader in the
middle of a character or behind the text. -/
def literalEnd (quote : Char) (count : Nat) : List Char → Except Nat Nat
  | [] => .error count
  | '\n' :: _ => .error count
  | '\\' :: [] => .error (count + 2)
  | '\\' :: _ :: bs => literalEnd quote (count + 2) bs
  | b :: bs => if b = quote then .ok (count + 1) else literalEnd quote (count + 1) bs

def literal (count : Nat) (quote : Char) (bs : List Char) : Except Flaw Extent :=
  let (kind, cause) := if quote = '"' then (TokenKind.string, Source.Cause.unterminatedString)
    else (.character, .unterminatedCharacter)
  match literalEnd quote (count + 1) bs with
  | .ok count => .ok ⟨.plain kind, count⟩
  | .error count => .error ⟨cause, 0, count⟩

/-- Where a directive line ends, and its logical text, to which bytes are added one by one. -/
def directiveEnd (text : List Char) (count : Nat) : List Char → Except Nat (Nat × List Char)
  | [] => .ok (count, text)
  | '\n' :: _ => .ok (count, text)
  | '\\' :: '\n' :: bs => directiveEnd (text ++ [' ']) (count + 2) bs
  | '\\' :: '\r' :: '\n' :: bs => directiveEnd (text ++ [' ']) (count + 3) bs
  | '/' :: '/' :: bs =>
    let line := lineRest bs
    directiveEnd text (count + 2 + line.length) (bs.drop line.length)
  | '/' :: '*' :: bs =>
    match blockEnd? 0 bs with
    | none => .error count
    | some length => directiveEnd (text ++ [' ']) (count + 2 + length) (bs.drop length)
  | b :: bs =>
    if (b = '"' || b = '<') && namesFile text then
      let name := fileNameRest (if b = '"' then '"' else '>') bs
      directiveEnd (text ++ b :: name) (count + 1 + name.length) (bs.drop name.length)
    else directiveEnd (text ++ [b]) (count + 1) bs
termination_by bs => bs.length
decreasing_by all_goals simp only [List.length_drop, List.length_cons]; omega

def directive (bs : List Char) : Except Flaw Extent :=
  match directiveEnd [] 1 bs with
  | .ok (count, text) => .ok ⟨.directive (trim text), count⟩
  | .error count => .error ⟨.unterminatedComment, count, 2⟩

section

variable (text : List Char) (start : Nat)

def word? (b : Char) (bs : List Char) : Option (Except Flaw Extent) :=
  let count := (b :: bs.takeWhile isNamePart).length
  match bs.dropWhile isNamePart with
  | quote :: rest =>
    if isQuote quote then
      (slice? text start (start + count)).map fun name =>
        if literalMarks.contains (String.ofList name) then literal count quote rest
        else .ok ⟨.plain .identifier, count⟩
    else some (.ok ⟨.plain .identifier, count⟩)
  | [] => some (.ok ⟨.plain .identifier, count⟩)

def punctuation? : Option Extent :=
  (splitAtByte? start text).map fun (_, rest) =>
    ⟨.plain .punctuation,
      match longPunctuation.find? fun p => p.toList.isPrefixOf rest with
      | some p => byteLength p.toList
      | none => (rest.head?.map Char.utf8Size).getD 1⟩

def token? (b : Char) (bs : List Char) : Option (Except Flaw Extent) :=
  if isNameStart b then word? text start b bs
  else if b.isDigit || (b == '.' && (bs.head?.any Char.isDigit)) then
    some (.ok ⟨.plain .number, (b :: numberRest b bs).length⟩)
  else if isQuote b then some (literal 0 b bs)
  else (punctuation? text start).map .ok

/-- What is read from a byte on; nothing where a part is cut out that is none. -/
def next? (atLineStart : Bool) (b : Char) (bs : List Char) : Option (Except Flaw Extent) :=
  match b, bs with
  | '\n', _ => some (.ok ⟨.newline, 1⟩)
  | '\\', '\n' :: _ => some (.ok ⟨.joint, 2⟩)
  | '/', '/' :: _ => some (.ok ⟨.comment, 1 + (lineRest bs).length⟩)
  | '/', '*' :: rest =>
    match blockEnd? 2 rest with
    | some count => some (.ok ⟨.comment, count⟩)
    | none => some (.error ⟨.unterminatedComment, 0, 2⟩)
  | _, _ =>
    if isBlankInLine b then some (.ok ⟨.blank, 1⟩)
    else if b = '#' && atLineStart then some (directive bs)
    else token? text start b bs

def Extent.token? (e : Extent) (file line : Nat) : Option (Option Token) :=
  let span : Source.Span := ⟨file, start, start + e.count⟩
  match e.role with
  | .plain kind =>
    (slice? text start (start + e.count)).map fun cs => some ⟨kind, String.ofList cs, span, line⟩
  | .directive cs => some (some ⟨.directive, String.ofList cs, span, line⟩)
  | _ => some none

end

def Extent.lexeme (e : Extent) (bs : List Char) : Lexeme :=
  ⟨e.role, bs.take e.count⟩

/-- Reads tokens in at most the given number of steps; nothing if these are too few, or if a part is
cut out that is none. -/
def read? (file : Nat) (text : List Char) :
    Nat → Bool → Nat → Nat → List Char → Option (Except Flaw (List Token))
  | _, _, _, _, [] => some (.ok [])
  | 0, _, _, _, _ :: _ => none
  | steps + 1, atLineStart, start, line, b :: bs => do
    match ← next? text start atLineStart b bs with
    | .error flaw => some (.error { flaw with start := start + flaw.start })
    | .ok e =>
      let token? ← e.token? text start file line
      let l := e.lexeme (b :: bs)
      let later ← read? file text steps (l.keepsLineStart atLineStart) (start + e.count)
        (line + l.lines) ((b :: bs).drop e.count)
      some (later.map (token?.toList ++ ·))

def lex? (file : Nat) (text : String) : Option (Except Flaw (List Token)) :=
  read? file text.toList (bytesOf text).length true 0 1 (bytesOf text)

def bytes (cs : List Char) : List Char :=
  cs.flatMap byteChars

def extentOf (l : Lexeme) : Extent :=
  ⟨l.role, byteLength l.chars⟩

def AllHigh (bs : List Char) : Prop :=
  ∀ b ∈ bs, 128 ≤ b.toNat

@[simp] theorem bytes_nil : bytes [] = [] := rfl

theorem bytes_cons (c : Char) (cs : List Char) : bytes (c :: cs) = byteChars c ++ bytes cs := rfl

theorem bytes_append (cs ds : List Char) : bytes (cs ++ ds) = bytes cs ++ bytes ds :=
  List.flatMap_append

theorem length_byteChars (c : Char) : (byteChars c).length = c.utf8Size := by
  rw [byteChars, List.length_map, String.length_utf8EncodeChar]

theorem length_bytes (cs : List Char) : (bytes cs).length = byteLength cs := by
  induction cs with
  | nil => rfl
  | cons c cs ih => rw [bytes_cons, List.length_append, ih, byteLength_cons, length_byteChars]

theorem bytesOf_eq (text : String) : bytesOf text = bytes text.toList := by
  have hBytes : text.toUTF8.data.toList = text.toList.flatMap String.utf8EncodeChar := by
    rw [String.toUTF8_eq_toByteArray, ← String.ofList_toList (s := text),
      String.toByteArray_ofList, String.toList_ofList, List.utf8Encode, List.toList_data_toByteArray]
  rw [bytesOf, hBytes, List.map_flatMap]
  rfl

theorem toNat_ofNat_byte (b : UInt8) : (Char.ofNat b.toNat).toNat = b.toNat := by
  have hValid : b.toNat.isValidChar := by
    have := b.toNat_lt
    exact .inl (by omega)
  rw [Char.ofNat, dif_pos hValid]
  rfl

theorem high_ofNat {n : Nat} (hHigh : 128 ≤ n) (hByte : n < 256) : 128 ≤ (UInt8.ofNat n).toNat := by
  rw [UInt8.toNat_ofNat', Nat.mod_eq_of_lt (by omega)]
  exact hHigh

theorem byteChars_eq_or_high (c : Char) :
    (c.toNat < 128 ∧ byteChars c = [c]) ∨
      (128 ≤ c.toNat ∧ AllHigh (byteChars c) ∧ byteChars c ≠ []) := by
  by_cases hAscii : c.toNat < 128
  · left
    have hByte : String.utf8EncodeChar c = [UInt8.ofNat c.toNat] := by
      rw [String.utf8EncodeChar]
      exact if_pos (Nat.le_of_lt_succ hAscii)
    refine ⟨hAscii, ?_⟩
    rw [byteChars, hByte, List.map_singleton, UInt8.toNat_ofNat', Nat.mod_eq_of_lt (by omega),
      Char.ofNat_toNat]
  · right
    have hEncoded : ∀ b ∈ String.utf8EncodeChar c, 128 ≤ b.toNat := by
      have hLarge : ¬c.val.toNat ≤ 127 := by
        have : c.val.toNat = c.toNat := rfl
        omega
      intro b hb
      simp only [String.utf8EncodeChar, if_neg hLarge] at hb
      split at hb
      · rcases List.mem_cons.mp hb with rfl | hb
        · exact high_ofNat (by omega) (by omega)
        · rw [List.mem_singleton.mp hb]
          exact high_ofNat (by omega) (by omega)
      · split at hb
        · simp only [List.mem_cons, List.not_mem_nil, or_false] at hb
          rcases hb with rfl | rfl | rfl <;> exact high_ofNat (by omega) (by omega)
        · simp only [List.mem_cons, List.not_mem_nil, or_false] at hb
          rcases hb with rfl | rfl | rfl | rfl <;> exact high_ofNat (by omega) (by omega)
    refine ⟨by omega, ?_, ?_⟩
    · intro b hb
      obtain ⟨byte, hByte, rfl⟩ := List.mem_map.mp hb
      rw [toNat_ofNat_byte]
      exact hEncoded byte hByte
    · have hPos := c.utf8Size_pos
      rw [← List.length_pos_iff, length_byteChars]
      exact hPos

theorem bytes_cons_of_ascii {c : Char} (h : c.toNat < 128) (cs : List Char) :
    bytes (c :: cs) = c :: bytes cs := by
  rcases byteChars_eq_or_high c with ⟨-, hByte⟩ | ⟨hHigh, -⟩
  · rw [bytes_cons, hByte, List.singleton_append]
  · omega

theorem utf8Size_of_ascii {c : Char} (h : c.toNat < 128) : c.utf8Size = 1 :=
  Char.utf8Size_eq_one_iff.mpr (UInt32.le_iff_toNat_le.mpr (Nat.le_of_lt_succ h))

theorem ne_of_high {b d : Char} (hHigh : 128 ≤ b.toNat) (hAscii : d.toNat < 128) : b ≠ d := by
  rintro rfl
  omega

theorem high_of_bytes_eq_cons {c b : Char} {cs bs : List Char} (hHigh : 128 ≤ c.toNat)
    (h : bytes (c :: cs) = b :: bs) : 128 ≤ b.toNat := by
  rcases byteChars_eq_or_high c with ⟨hc, -⟩ | ⟨-, hAll, hSome⟩
  · omega
  · obtain ⟨d, ds, hBytes⟩ := List.exists_cons_of_ne_nil hSome
    rw [bytes_cons, hBytes, List.cons_append] at h
    rw [← (List.cons.inj h).1]
    exact hAll d (hBytes ▸ List.mem_cons_self)

theorem exists_bytes_cons (c : Char) (cs : List Char) : ∃ b bs, bytes (c :: cs) = b :: bs := by
  refine List.exists_cons_of_ne_nil fun hNone => ?_
  have hLength := length_bytes (c :: cs)
  have hPos := c.utf8Size_pos
  rw [hNone, byteLength_cons, List.length_nil] at hLength
  omega

theorem head?_bytes_eq_some_iff {d : Char} (hAscii : d.toNat < 128) (cs : List Char) :
    (bytes cs).head? = some d ↔ cs.head? = some d := by
  cases cs with
  | nil => rfl
  | cons c cs =>
    rcases byteChars_eq_or_high c with ⟨hc, -⟩ | ⟨hc, -⟩
    · rw [bytes_cons_of_ascii hc, List.head?_cons, List.head?_cons]
    · obtain ⟨b, bs, hBytes⟩ := exists_bytes_cons c cs
      rw [hBytes, List.head?_cons, List.head?_cons, Option.some_inj, Option.some_inj]
      exact iff_of_false (ne_of_high (high_of_bytes_eq_cons hc hBytes) hAscii) (ne_of_high hc hAscii)

theorem isAlphanum_of_high {c : Char} (h : 128 ≤ c.toNat) : c.isAlphanum = false := by
  have hLetter : ¬c.isAlpha = true := fun hAlpha => by
    have := isAlpha_iff.mp hAlpha
    omega
  have hDigit : ¬c.isDigit = true := fun hDigit => by
    have : 48 ≤ c.toNat ∧ c.toNat ≤ 57 := Char.isDigit_iff_toNat.mp hDigit
    omega
  simp [Char.isAlphanum, hLetter, hDigit]

theorem isNamePart_of_high {c : Char} (h : 128 ≤ c.toNat) : isNamePart c = false := by
  simp [isNamePart, isAlphanum_of_high h, ne_of_high h (by decide : '_'.toNat < 128),
    ne_of_high h (by decide : '$'.toNat < 128)]

theorem isNameStart_of_high {c : Char} (h : 128 ≤ c.toNat) : isNameStart c = false := by
  rw [← Bool.not_eq_true]
  intro hStart
  have hPart := isNamePart_of_isNameStart hStart
  rw [isNamePart_of_high h] at hPart
  cases hPart

theorem toNat_of_isQuote {c : Char} (h : isQuote c = true) : c.toNat < 128 := by
  have hEither : c = '"' ∨ c = '\'' := by simpa [isQuote] using h
  rcases hEither with rfl | rfl <;> decide

theorem isQuote_of_high {c : Char} (h : 128 ≤ c.toNat) : isQuote c = false := by
  rw [← Bool.not_eq_true]
  intro hQuote
  have := toNat_of_isQuote hQuote
  omega

theorem isDigit_of_high {c : Char} (h : 128 ≤ c.toNat) : c.isDigit = false := by
  have hPart := isAlphanum_of_high h
  rw [Char.isAlphanum, Bool.or_eq_false_iff] at hPart
  exact hPart.2

theorem test_of_bytes_eq_cons {test : Char → Bool} (hTest : ∀ c, 128 ≤ c.toNat → test c = false)
    {c b : Char} {cs bs : List Char} (h : bytes (c :: cs) = b :: bs) : test b = test c := by
  rcases byteChars_eq_or_high c with ⟨hc, -⟩ | ⟨hc, -⟩
  · rw [bytes_cons_of_ascii hc] at h
    rw [(List.cons.inj h).1]
  · rw [hTest c hc, hTest b (high_of_bytes_eq_cons hc h)]

theorem any_head?_bytes {test : Char → Bool} (hTest : ∀ c, 128 ≤ c.toNat → test c = false)
    (cs : List Char) : (bytes cs).head?.any test = cs.head?.any test := by
  cases cs with
  | nil => rfl
  | cons c cs =>
    obtain ⟨b, bs, hBytes⟩ := exists_bytes_cons c cs
    rw [hBytes, List.head?_cons, List.head?_cons, Option.any_some, Option.any_some,
      test_of_bytes_eq_cons hTest hBytes]

theorem takeWhile_bytes {test : Char → Bool} {answer : Bool}
    (hTest : ∀ c, 128 ≤ c.toNat → test c = answer) (cs : List Char) :
    (bytes cs).takeWhile test = bytes (cs.takeWhile test) ∧
      (bytes cs).dropWhile test = bytes (cs.dropWhile test) := by
  induction cs with
  | nil => exact ⟨rfl, rfl⟩
  | cons c cs ih =>
    rcases byteChars_eq_or_high c with ⟨hc, -⟩ | ⟨hc, hHigh, hSome⟩
    · rw [bytes_cons_of_ascii hc]
      by_cases h : test c = true
      · rw [List.takeWhile_cons_of_pos h, List.takeWhile_cons_of_pos h, List.dropWhile_cons_of_pos h,
          List.dropWhile_cons_of_pos h, bytes_cons_of_ascii hc, ih.1, ih.2]
        exact ⟨rfl, rfl⟩
      · rw [List.takeWhile_cons_of_neg h, List.takeWhile_cons_of_neg h, List.dropWhile_cons_of_neg h,
          List.dropWhile_cons_of_neg h, bytes_cons_of_ascii hc]
        exact ⟨rfl, rfl⟩
    · have hAll : ∀ b ∈ byteChars c, test b = answer := fun b hb => hTest b (hHigh b hb)
      have hOne := hTest c hc
      cases answer with
      | true =>
        rw [bytes_cons, List.takeWhile_cons_of_pos hOne, List.dropWhile_cons_of_pos hOne, bytes_cons,
          List.takeWhile_append_of_pos hAll, List.dropWhile_append_of_pos hAll, ih.1, ih.2]
        exact ⟨rfl, rfl⟩
      | false =>
        have hNot : ¬test c = true := by rw [hOne]; exact Bool.false_ne_true
        rw [List.takeWhile_cons_of_neg hNot, List.dropWhile_cons_of_neg hNot, bytes_cons]
        obtain ⟨b, bs, hBytes⟩ := List.exists_cons_of_ne_nil hSome
        have hFirst : ¬test b = true := by
          rw [hAll b (hBytes ▸ List.mem_cons_self)]
          exact Bool.false_ne_true
        rw [hBytes, List.cons_append, List.takeWhile_cons_of_neg hFirst,
          List.dropWhile_cons_of_neg hFirst]
        exact ⟨rfl, rfl⟩

theorem lineRest_bytes (cs : List Char) : lineRest (bytes cs) = bytes (lineRest cs) := by
  have hKept (c : Char) (hc : 128 ≤ c.toNat) : decide (c ≠ '\n') = true := by
    simpa using ne_of_high hc (by decide : '\n'.toNat < 128)
  exact (takeWhile_bytes hKept cs).1

theorem blockEnd?_cons {b : Char} {bs : List Char} (h : b = '*' → bs.head? ≠ some '/')
    (count : Nat) : blockEnd? count (b :: bs) = blockEnd? (count + 1) bs := by
  rw [blockEnd?.eq_def]
  split
  · next hEmpty => cases hEmpty
  · next hEnd =>
    cases hEnd
    exact absurd rfl (h rfl)
  · next hRest =>
    cases hRest
    rfl

theorem blockEnd?_high {hs : List Char} (hHigh : AllHigh hs) (count : Nat) (bs : List Char) :
    blockEnd? count (hs ++ bs) = blockEnd? (count + hs.length) bs := by
  induction hs generalizing count with
  | nil => rfl
  | cons b hs ih =>
    obtain ⟨hb, hRest⟩ := List.forall_mem_cons.mp hHigh
    have hOther := ne_of_high hb (by decide : '*'.toNat < 128)
    rw [List.cons_append, blockEnd?_cons (fun h => absurd h hOther), ih hRest, List.length_cons]
    congr 1
    omega

theorem blockEnd?_bytes (base : Nat) (taken cs : List Char) :
    blockEnd? (base + byteLength taken) (bytes cs) =
      (blockRestOnto? taken cs).map (base + byteLength ·) := by
  fun_induction blockRestOnto? taken cs with
  | case1 => rfl
  | case2 taken rest =>
    rw [bytes_cons_of_ascii (by decide), bytes_cons_of_ascii (by decide), blockEnd?, Option.map_some,
      byteLength_cons, byteLength_cons, utf8Size_of_ascii (by decide), utf8Size_of_ascii (by decide)]
    congr 1
    omega
  | case3 taken c cs hOpen ih =>
    rw [← ih, byteLength_cons, ← length_byteChars]
    rcases byteChars_eq_or_high c with ⟨hc, hByte⟩ | ⟨hc, hHigh, -⟩
    · rw [bytes_cons_of_ascii hc, hByte, blockEnd?_cons]
      · congr 1
        rw [List.length_singleton]
        omega
      · intro hStar hSlash
        obtain ⟨rest, hRest⟩ :=
          List.head?_eq_some_iff.mp ((head?_bytes_eq_some_iff (by decide) cs).mp hSlash)
        exact hOpen rest hStar hRest
    · rw [bytes_cons, blockEnd?_high hHigh]
      congr 1
      omega

theorem literalEnd_cons {quote b : Char} (hBreak : b ≠ '\n') (hPlain : b ≠ '\\') (count : Nat)
    (bs : List Char) :
    literalEnd quote count (b :: bs) =
      if b = quote then .ok (count + 1) else literalEnd quote (count + 1) bs := by
  rw [literalEnd.eq_def]
  split <;> simp_all

theorem literalEnd_high {quote : Char} (hQuote : quote.toNat < 128) {hs : List Char}
    (hHigh : AllHigh hs) (count : Nat) (bs : List Char) :
    literalEnd quote count (hs ++ bs) = literalEnd quote (count + hs.length) bs := by
  induction hs generalizing count with
  | nil => rfl
  | cons b hs ih =>
    obtain ⟨hb, hRest⟩ := List.forall_mem_cons.mp hHigh
    rw [List.cons_append, literalEnd_cons (ne_of_high hb (by decide)) (ne_of_high hb (by decide)),
      if_neg (ne_of_high hb hQuote), ih hRest, List.length_cons]
    congr 1
    omega

/-- A backslash jumps into the character after it, and the bytes that are left of it are passed. -/
theorem literalEnd_escape {quote : Char} (hQuote : quote.toNat < 128) (c : Char) (count : Nat)
    (bs : List Char) :
    literalEnd quote count ('\\' :: (byteChars c ++ bs)) =
      literalEnd quote (count + 1 + c.utf8Size) bs := by
  have hLength := length_byteChars c
  rcases byteChars_eq_or_high c with ⟨hc, hByte⟩ | ⟨hc, hHigh, hSome⟩
  · rw [hByte, List.singleton_append, literalEnd, utf8Size_of_ascii hc]
  · obtain ⟨b, hs, hBytes⟩ := List.exists_cons_of_ne_nil hSome
    rw [hBytes] at hHigh hLength ⊢
    rw [List.cons_append, literalEnd, literalEnd_high hQuote (List.forall_mem_cons.mp hHigh).2,
      ← hLength, List.length_cons]
    congr 1
    omega

theorem literalEnd_bytes {quote : Char} (hQuote : quote.toNat < 128) (base count : Nat)
    (taken cs : List Char) (hCount : count = base + byteLength taken) :
    literalEnd quote count (bytes cs) =
      (literalRestOnto quote taken count cs).map (base + byteLength ·) := by
  have hNext (c : Char) {taken : List Char} {count : Nat} (h : count = base + byteLength taken) :
      count + c.utf8Size = base + byteLength (c :: taken) := by
    rw [byteLength_cons]
    omega
  fun_induction literalRestOnto quote taken count cs with
  | case1 => rfl
  | case2 => rfl
  | case3 => rfl
  | case4 taken count c cs ih =>
    rw [bytes_cons_of_ascii (by decide), bytes_cons, literalEnd_escape hQuote]
    have hSlash := hNext '\\' hCount
    rw [utf8Size_of_ascii (by decide)] at hSlash
    exact ih (hNext c hSlash)
  | case5 taken count cs hBreak hEnd hPair =>
    rw [bytes_cons_of_ascii hQuote, literalEnd_cons hBreak (ne_backslash hEnd hPair), if_pos rfl,
      hCount]
    have hClose := hNext quote hCount
    rw [utf8Size_of_ascii hQuote] at hClose
    rw [← hCount, hClose]
    rfl
  | case6 taken count c cs hBreak hEnd hPair hOther ih =>
    rw [← ih (hNext c hCount)]
    rcases byteChars_eq_or_high c with ⟨hc, -⟩ | ⟨-, hHigh, -⟩
    · rw [bytes_cons_of_ascii hc, literalEnd_cons hBreak (ne_backslash hEnd hPair), if_neg hOther,
        utf8Size_of_ascii hc]
    · rw [bytes_cons, literalEnd_high hQuote hHigh, length_byteChars]

theorem numberRest_of_high {b : Char} (hHigh : 128 ≤ b.toNat) (previous : Char) (bs : List Char) :
    numberRest previous (b :: bs) = [] := by
  have hOther {d : Char} (hAscii : d.toNat < 128) : (b == d) = false :=
    beq_eq_false_iff_ne.mpr (ne_of_high hHigh hAscii)
  rw [numberRest, isAlphanum_of_high hHigh, hOther (by decide), hOther (by decide),
    hOther (by decide), hOther (by decide)]
  rfl

theorem numberRest_bytes (previous : Char) (cs : List Char) :
    numberRest previous (bytes cs) = bytes (numberRest previous cs) := by
  induction cs generalizing previous with
  | nil => rfl
  | cons c cs ih =>
    rcases byteChars_eq_or_high c with ⟨hc, -⟩ | ⟨hc, hHigh, hSome⟩
    · rw [bytes_cons_of_ascii hc]
      simp only [numberRest]
      split
      · rw [bytes_cons_of_ascii hc, ih]
      · rfl
    · obtain ⟨b, bs, hBytes⟩ := List.exists_cons_of_ne_nil hSome
      rw [bytes_cons, hBytes, List.cons_append, numberRest_of_high hc,
        numberRest_of_high (hHigh b (hBytes ▸ List.mem_cons_self))]
      rfl

theorem fileNameRest_high {close : Char} (hClose : close.toNat < 128) {hs : List Char}
    (hHigh : AllHigh hs) (bs : List Char) :
    fileNameRest close (hs ++ bs) = hs ++ fileNameRest close bs := by
  induction hs with
  | nil => rfl
  | cons b hs ih =>
    obtain ⟨hb, hRest⟩ := List.forall_mem_cons.mp hHigh
    rw [List.cons_append, fileNameRest, if_neg (ne_of_high hb (by decide)),
      if_neg (ne_of_high hb hClose), ih hRest, List.cons_append]

theorem fileNameRest_bytes {close : Char} (hClose : close.toNat < 128) (cs : List Char) :
    fileNameRest close (bytes cs) = bytes (fileNameRest close cs) := by
  fun_induction fileNameRest close cs with
  | case1 => rfl
  | case2 => rfl
  | case3 cs hBreak =>
    rw [bytes_cons_of_ascii hClose, bytes_cons_of_ascii hClose, fileNameRest, if_neg hBreak,
      if_pos rfl]
    rfl
  | case4 c cs hBreak hOther ih =>
    rcases byteChars_eq_or_high c with ⟨hc, -⟩ | ⟨-, hHigh, -⟩
    · rw [bytes_cons_of_ascii hc, bytes_cons_of_ascii hc, fileNameRest, if_neg hBreak,
        if_neg hOther, ih]
    · rw [bytes_cons, bytes_cons, fileNameRest_high hClose hHigh, ih]

theorem directiveEnd_of_starts {b : Char} {bs : List Char} (h : StartsPiece b bs) (hBreak : b ≠ '\n')
    (text : List Char) (count : Nat) :
    directiveEnd text count (b :: bs) =
      if (b = '"' || b = '<') && namesFile text then
        let name := fileNameRest (if b = '"' then '"' else '>') bs
        directiveEnd (text ++ b :: name) (count + 1 + name.length) (bs.drop name.length)
      else directiveEnd (text ++ [b]) (count + 1) bs := by
  rw [directiveEnd.eq_def]
  split
  · next hEmpty => cases hEmpty
  · next hRest => exact absurd (List.cons.inj hRest).1 hBreak
  · next hRest =>
    cases hRest
    exact absurd rfl (h.not_joint rfl).1
  · next hRest =>
    cases hRest
    exact absurd rfl ((h.not_joint rfl).2 rfl)
  · next hRest =>
    cases hRest
    exact absurd rfl (h.not_comment rfl).1
  · next hRest =>
    cases hRest
    exact absurd rfl (h.not_comment rfl).2
  · next hRest =>
    cases hRest
    rfl

theorem startsPiece_of_ne {b : Char} (hJoint : b ≠ '\\') (hComment : b ≠ '/') (bs : List Char) :
    StartsPiece b bs :=
  ⟨fun h => absurd h hJoint, fun h => absurd h hComment⟩

theorem directiveEnd_high {hs : List Char} (hHigh : AllHigh hs) (text : List Char) (count : Nat)
    (bs : List Char) :
    directiveEnd text count (hs ++ bs) = directiveEnd (text ++ hs) (count + hs.length) bs := by
  induction hs generalizing text count with
  | nil => rw [List.nil_append, List.append_nil, List.length_nil, Nat.add_zero]
  | cons b hs ih =>
    obtain ⟨hb, hRest⟩ := List.forall_mem_cons.mp hHigh
    have hOther {d : Char} (hAscii : d.toNat < 128) : b ≠ d := ne_of_high hb hAscii
    rw [List.cons_append, directiveEnd_of_starts
      (startsPiece_of_ne (hOther (by decide)) (hOther (by decide)) _) (hOther (by decide)),
      if_neg (by simp [hOther (by decide : '"'.toNat < 128), hOther (by decide : '<'.toNat < 128)]),
      ih hRest, List.append_assoc, List.singleton_append, List.length_cons]
    congr 1
    omega

theorem startsPiece_bytes {c : Char} {cs : List Char} (h : StartsPiece c cs) :
    StartsPiece c (bytes cs) where
  not_joint hc := by
    obtain ⟨hBreak, hReturn⟩ := h.not_joint hc
    refine ⟨fun hHead => hBreak ((head?_bytes_eq_some_iff (by decide) cs).mp hHead),
      fun hHead hSecond => ?_⟩
    have hFirst := (head?_bytes_eq_some_iff (by decide) cs).mp hHead
    obtain ⟨rest, rfl⟩ := List.head?_eq_some_iff.mp hFirst
    rw [bytes_cons_of_ascii (by decide), List.tail_cons] at hSecond
    exact hReturn rfl ((head?_bytes_eq_some_iff (by decide) rest).mp hSecond)
  not_comment hc := by
    obtain ⟨hLine, hBlock⟩ := h.not_comment hc
    exact ⟨fun hHead => hLine ((head?_bytes_eq_some_iff (by decide) cs).mp hHead),
      fun hHead => hBlock ((head?_bytes_eq_some_iff (by decide) cs).mp hHead)⟩

theorem blockEnd?_eq (base : Nat) (cs : List Char) :
    blockEnd? base (bytes cs) = (blockRest? cs).map (base + byteLength ·) := by
  have hLoop := blockEnd?_bytes base [] cs
  rw [byteLength_nil, Nat.add_zero] at hLoop
  rw [hLoop, blockRest?, Option.map_map]
  congr 1
  funext body
  rw [Function.comp_apply, byteLength_reverse]

theorem drop_bytes (taken rest : List Char) :
    (bytes (taken ++ rest)).drop (byteLength taken) = bytes rest := by
  rw [bytes_append, ← length_bytes, List.drop_left]

theorem directiveEnd_piece {text cs part rest : List Char} {c : Char} {piece : Piece}
    (hBreak : c ≠ '\n') (hPiece : directivePiece? text c cs = some piece)
    (hChars : piece.chars = c :: part) (hCut : cs = part ++ rest) (count : Nat) :
    directiveEnd text count (bytes (c :: cs)) =
      directiveEnd (text ++ piece.text) (count + byteLength piece.chars) (bytes rest) := by
  have hSlash : '/'.toNat < 128 := by decide
  unfold directivePiece? at hPiece
  split at hPiece
  · cases hPiece
    obtain ⟨-, rfl⟩ := List.cons.inj hChars
    obtain ⟨-, rfl⟩ := List.cons.inj hCut
    rw [bytes_cons_of_ascii (by decide), bytes_cons_of_ascii (by decide), directiveEnd]
    rfl
  · cases hPiece
    obtain ⟨-, rfl⟩ := List.cons.inj hChars
    obtain ⟨-, hCut⟩ := List.cons.inj hCut
    obtain ⟨-, rfl⟩ := List.cons.inj hCut
    rw [bytes_cons_of_ascii (by decide), bytes_cons_of_ascii (by decide),
      bytes_cons_of_ascii (by decide), directiveEnd]
    rfl
  · next tail =>
    cases hPiece
    obtain ⟨-, rfl⟩ := List.cons.inj hChars
    have hLine : lineRest ('/' :: tail) = '/' :: lineRest tail := rfl
    have hTail : tail = lineRest tail ++ rest := (List.cons.inj hCut).2
    have hDrop := drop_bytes (lineRest tail) rest
    rw [← hTail] at hDrop
    rw [bytes_cons_of_ascii (by decide), bytes_cons_of_ascii (by decide), directiveEnd,
      lineRest_bytes, length_bytes]
    simp only [hDrop, hLine, List.append_nil, byteLength_cons, utf8Size_of_ascii hSlash]
    congr 1
    omega
  · next tail =>
    obtain ⟨body, hBody, rfl⟩ := Option.map_eq_some_iff.mp hPiece
    obtain ⟨-, rfl⟩ := List.cons.inj hChars
    obtain rfl : tail = body ++ rest := (List.cons.inj hCut).2
    rw [bytes_cons_of_ascii (by decide), bytes_cons_of_ascii (by decide), directiveEnd, blockEnd?_eq,
      hBody, Option.map_some]
    simp only [Nat.zero_add, drop_bytes, byteLength_cons, utf8Size_of_ascii hSlash,
      utf8Size_of_ascii (by decide : '*'.toNat < 128)]
    congr 1
    omega
  · next hJoint hReturn hLine hBlock =>
    have hStarts : StartsPiece c cs := .of_unlike hJoint hReturn hLine hBlock
    split at hPiece
    · next hFile =>
      cases hPiece
      obtain ⟨-, rfl⟩ := List.cons.inj hChars
      have hOpens : c = '"' ∨ c = '<' := by simpa using (Bool.and_eq_true_iff.mp hFile).1
      have hc : c.toNat < 128 := by rcases hOpens with rfl | rfl <;> decide
      have hClose : (if c = '"' then '"' else '>').toNat < 128 := by split <;> decide
      have hDrop := drop_bytes (fileNameRest (if c = '"' then '"' else '>') cs) rest
      rw [← hCut] at hDrop
      rw [bytes_cons_of_ascii hc, directiveEnd_of_starts (startsPiece_bytes hStarts) hBreak, if_pos hFile,
        fileNameRest_bytes hClose]
      simp only [length_bytes, hDrop, byteLength_cons, utf8Size_of_ascii hc, ← bytes_cons_of_ascii hc]
      rw [Nat.add_assoc]
      rfl
    · next hFile =>
      cases hPiece
      obtain ⟨-, rfl⟩ := List.cons.inj hChars
      obtain rfl : cs = rest := hCut
      rw [byteLength_cons, byteLength_nil, Nat.add_zero]
      rcases byteChars_eq_or_high c with ⟨hc, hByte⟩ | ⟨-, hHigh, -⟩
      · rw [bytes_cons_of_ascii hc, directiveEnd_of_starts (startsPiece_bytes hStarts) hBreak, if_neg hFile, hByte,
          utf8Size_of_ascii hc]
      · rw [bytes_cons, directiveEnd_high hHigh, length_byteChars]

theorem directiveEnd_of_endless {text cs : List Char} {c : Char}
    (hPiece : directivePiece? text c cs = none) (count : Nat) :
    directiveEnd text count (bytes (c :: cs)) = .error count := by
  unfold directivePiece? at hPiece
  split at hPiece
  · cases hPiece
  · cases hPiece
  · cases hPiece
  · have hBlock := Option.map_eq_none_iff.mp hPiece
    rw [bytes_cons_of_ascii (by decide), bytes_cons_of_ascii (by decide), directiveEnd, blockEnd?_eq,
      hBlock]
    rfl
  · split at hPiece
    · cases hPiece
    · cases hPiece

theorem directiveEnd_bytes (taken text cs : List Char) (count : Nat)
    (hCount : count = byteLength taken) :
    directiveEnd text count (bytes cs) =
      (directiveRestOnto taken text count cs).map fun r => (byteLength r.1, r.2) := by
  fun_induction directiveRestOnto taken text count cs with
  | case1 =>
    rw [bytes_nil, directiveEnd, hCount]
    rfl
  | case2 =>
    rw [bytes_cons_of_ascii (by decide), directiveEnd, hCount]
    rfl
  | case3 taken text count c cs hBreak hPiece =>
    rw [directiveEnd_of_endless hPiece]
    rfl
  | case4 taken text count c cs hBreak piece hPiece ih =>
    obtain ⟨part, rest, hChars, rfl⟩ := directivePiece?_eq_some hPiece
    rw [directiveEnd_piece hBreak hPiece hChars rfl]
    rw [hChars, List.length_cons, Nat.add_sub_cancel, List.drop_left] at ih ⊢
    refine ih ?_
    rw [byteLength_append, byteLength_reverse, hCount]
    omega

theorem directive_bytes (cs : List Char) :
    directive (bytes cs) = (directiveLine cs).map extentOf := by
  have hEnd := directiveEnd_bytes ['#'] [] cs 1 rfl
  rw [directive, directiveLine, hEnd]
  cases directiveRestOnto ['#'] [] 1 cs with
  | error count => rfl
  | ok found =>
    show Except.ok (Extent.mk (.directive (trim found.2)) (byteLength found.1)) =
      .ok ⟨.directive (trim found.2), byteLength found.1.reverse⟩
    rw [byteLength_reverse]

theorem literal_bytes {quote : Char} (hQuote : isQuote quote = true) (mark cs : List Char) :
    literal (byteLength mark) quote (bytes cs) = (Lexeme.literal mark quote cs).map extentOf := by
  have hAscii := toNat_of_isQuote hQuote
  have hEnd := literalEnd_bytes hAscii (byteLength mark + 1) (byteLength mark + 1) [] cs rfl
  simp only [literal, Lexeme.literal, literalRest, hEnd]
  cases literalRestOnto quote [] (byteLength mark + 1) cs with
  | error count => rfl
  | ok rest =>
    show Except.ok (Extent.mk _ (byteLength mark + 1 + byteLength rest)) =
      .ok (Extent.mk _ (byteLength (mark ++ quote :: rest.reverse)))
    rw [byteLength_append, byteLength_cons, byteLength_reverse, utf8Size_of_ascii hAscii,
      Nat.add_assoc]

theorem word?_bytes {passed cs : List Char} {c : Char} (hStart : isNameStart c = true) :
    word? (passed ++ c :: cs) (byteLength passed) c (bytes cs) =
      some ((word c cs).map extentOf) := by
  have hc : c.toNat < 128 := by
    by_contra hHigh
    rw [isNameStart_of_high (by omega)] at hStart
    cases hStart
  obtain ⟨hTake, hDrop⟩ := takeWhile_bytes (fun _ h => isNamePart_of_high h) cs
  have hLength : (c :: (bytes cs).takeWhile isNamePart).length =
      byteLength (c :: cs.takeWhile isNamePart) := by
    rw [hTake, ← bytes_cons_of_ascii hc, length_bytes]
  have hName : slice? (passed ++ c :: cs) (byteLength passed)
      (byteLength passed + byteLength (c :: cs.takeWhile isNamePart)) =
        some (c :: cs.takeWhile isNamePart) := by
    have hSlice := slice?_append passed (c :: cs.takeWhile isNamePart) (cs.dropWhile isNamePart)
    rwa [List.cons_append, List.takeWhile_append_dropWhile] at hSlice
  simp only [word?, word, hLength, hDrop]
  cases hRest : cs.dropWhile isNamePart with
  | nil => rfl
  | cons quote rest =>
    by_cases hQuote : isQuote quote = true
    · rw [bytes_cons_of_ascii (toNat_of_isQuote hQuote)]
      simp only [hQuote, if_true, hName, Option.map_some, Bool.true_and]
      split
      · rw [literal_bytes hQuote]
      · rfl
    · obtain ⟨b, bs, hBytes⟩ := exists_bytes_cons quote rest
      have hSame := test_of_bytes_eq_cons (fun _ h => isQuote_of_high h) hBytes
      rw [Bool.not_eq_true] at hQuote
      simp only [hBytes, hSame, hQuote, Bool.false_and, Bool.false_eq_true, if_false]
      rfl

theorem punctuation?_eq (passed cs : List Char) (c : Char) :
    punctuation? (passed ++ c :: cs) (byteLength passed) = some (extentOf (punctuation c cs)) := by
  have hCut := (splitAtByte?_eq_some_iff (byteLength passed) _ passed (c :: cs)).mpr ⟨rfl, rfl⟩
  rw [punctuation?, hCut, punctuation, Option.map_some]
  simp only
  cases longPunctuation.find? fun p => p.toList.isPrefixOf (c :: cs) with
  | none => rfl
  | some p => rfl

theorem token?_bytes {passed cs bs : List Char} {c b : Char} (hBytes : bytes (c :: cs) = b :: bs) :
    token? (passed ++ c :: cs) (byteLength passed) b bs = some ((token c cs).map extentOf) := by
  rcases byteChars_eq_or_high c with ⟨hc, -⟩ | ⟨hc, hHigh, -⟩
  · rw [bytes_cons_of_ascii hc] at hBytes
    obtain ⟨rfl, rfl⟩ := List.cons.inj hBytes
    rw [token?, token, any_head?_bytes fun _ h => isDigit_of_high h]
    split
    · next hStart => exact word?_bytes hStart
    · split
      · rw [numberRest_bytes, ← bytes_cons_of_ascii hc, length_bytes]
        rfl
      · split
        · next hQuote => exact congrArg some (literal_bytes hQuote [] cs)
        · rw [punctuation?_eq]
          rfl
  · have hb := high_of_bytes_eq_cons hc hBytes
    have hPoint {d : Char} (hd : 128 ≤ d.toNat) : (d == '.') = false :=
      beq_eq_false_iff_ne.mpr (ne_of_high hd (by decide))
    rw [token?, token, isNameStart_of_high hb, isNameStart_of_high hc, isDigit_of_high hb,
      isDigit_of_high hc, hPoint hb, hPoint hc, isQuote_of_high hb, isQuote_of_high hc,
      punctuation?_eq]
    rfl

theorem startsToken_bytes {c : Char} {cs : List Char} (h : StartsToken c cs) :
    StartsToken c (bytes cs) where
  not_break := h.not_break
  not_blank := h.not_blank
  not_joint hc hHead := h.not_joint hc ((head?_bytes_eq_some_iff (by decide) cs).mp hHead)
  not_comment hc :=
    ⟨fun hHead => (h.not_comment hc).1 ((head?_bytes_eq_some_iff (by decide) cs).mp hHead),
      fun hHead => (h.not_comment hc).2 ((head?_bytes_eq_some_iff (by decide) cs).mp hHead)⟩

theorem next?_of_starts {text bs : List Char} {b : Char} (h : StartsToken b bs) (start : Nat)
    (atLineStart : Bool) :
    next? text start atLineStart b bs =
      if b = '#' && atLineStart then some (directive bs) else token? text start b bs := by
  unfold next?
  split
  · exact absurd rfl h.not_break
  · exact absurd rfl (h.not_joint rfl)
  · exact absurd rfl (h.not_comment rfl).1
  · exact absurd rfl (h.not_comment rfl).2
  · rw [if_neg (by rw [h.not_blank]; exact Bool.false_ne_true)]

theorem next?_blank {b : Char} (h : isBlankInLine b = true) (text bs : List Char) (start : Nat)
    (atLineStart : Bool) : next? text start atLineStart b bs = some (.ok ⟨.blank, 1⟩) := by
  unfold next?
  split
  · exact absurd h (by decide)
  · exact absurd h (by decide)
  · exact absurd h (by decide)
  · exact absurd h (by decide)
  · rw [if_pos h]

theorem isBlankInLine_of_high {c : Char} (h : 128 ≤ c.toNat) : isBlankInLine c = false := by
  have hOther {d : Char} (hAscii : d.toNat < 128) : (c == d) = false :=
    beq_eq_false_iff_ne.mpr (ne_of_high h hAscii)
  rw [isBlankInLine, hOther (by decide), hOther (by decide), hOther (by decide),
    hOther (by decide), hOther (by decide)]
  rfl

theorem startsToken_of_high {c : Char} (h : 128 ≤ c.toNat) (cs : List Char) : StartsToken c cs where
  not_break := ne_of_high h (by decide)
  not_blank := isBlankInLine_of_high h
  not_joint hc := absurd hc (ne_of_high h (by decide))
  not_comment hc := absurd hc (ne_of_high h (by decide))

theorem next?_bytes (passed : List Char) {cs bs : List Char} {c b : Char}
    (hBytes : bytes (c :: cs) = b :: bs)
    (atLineStart : Bool) :
    next? (passed ++ c :: cs) (byteLength passed) atLineStart b bs =
      some ((next atLineStart c cs).map extentOf) := by
  rcases byteChars_eq_or_high c with ⟨hc, -⟩ | ⟨hc, -⟩
  · have hSame := hBytes
    rw [bytes_cons_of_ascii hc] at hSame
    obtain ⟨rfl, rfl⟩ := List.cons.inj hSame
    by_cases hStarts : StartsToken c cs
    · rw [next?_of_starts (startsToken_bytes hStarts), next_of_starts hStarts]
      split
      · rw [directive_bytes]
      · exact token?_bytes hBytes
    · unfold next
      split
      · rfl
      · rw [bytes_cons_of_ascii (by decide)]
        rfl
      · next tail =>
        have hLine : lineRest ('/' :: bytes tail) = bytes (lineRest ('/' :: tail)) := by
          rw [← lineRest_bytes, bytes_cons_of_ascii (by decide)]
        rw [bytes_cons_of_ascii (by decide), next?, hLine, length_bytes]
        rfl
      · next tail =>
        rw [bytes_cons_of_ascii (by decide), next?, blockEnd?_eq]
        cases blockRest? tail with
        | none => rfl
        | some body =>
          show some (Except.ok (Extent.mk .comment (2 + byteLength body))) =
            some (.ok ⟨.comment, byteLength ('/' :: '*' :: body)⟩)
          rw [byteLength_cons, byteLength_cons, ← Nat.add_assoc]
          rfl
      · next hBreak hJoint hLine hBlock =>
        split
        · next hBlank =>
          rw [next?_blank hBlank]
          show _ = some (Except.ok (Extent.mk .blank (byteLength [c])))
          rw [byteLength_cons, byteLength_nil, utf8Size_of_ascii hc]
        · next hBlank => exact absurd (.of_unlike hBreak hJoint hLine hBlock hBlank) hStarts
  · have hb := high_of_bytes_eq_cons hc hBytes
    have hHash {d : Char} (hd : 128 ≤ d.toNat) : (d = '#' && atLineStart) = false := by
      simp [ne_of_high hd (by decide : '#'.toNat < 128)]
    rw [next?_of_starts (startsToken_of_high hb bs), next_of_starts (startsToken_of_high hc cs),
      hHash hb, hHash hc]
    exact token?_bytes hBytes

theorem Extent.token?_extentOf {passed rest : List Char} (l : Lexeme) (file line : Nat) :
    (extentOf l).token? (passed ++ (l.chars ++ rest)) (byteLength passed) file line =
      some (l.toToken? file (byteLength passed) line) := by
  obtain ⟨role, chars⟩ := l
  cases role with
  | plain kind =>
    have hSlice := slice?_append passed chars rest
    simp only [extentOf, Extent.token?, hSlice, Lexeme.toToken?, Option.map_some]
  | directive text => rfl
  | blank => rfl
  | newline => rfl
  | joint => rfl
  | comment => rfl

theorem count_bytes_of_ascii {d : Char} (hAscii : d.toNat < 128) (cs : List Char) :
    (bytes cs).count d = cs.count d := by
  induction cs with
  | nil => rfl
  | cons c cs ih =>
    rcases byteChars_eq_or_high c with ⟨hc, -⟩ | ⟨hc, hHigh, -⟩
    · rw [bytes_cons_of_ascii hc, List.count_cons, List.count_cons, ih]
    · have hNone : (byteChars c).count d = 0 :=
        List.count_eq_zero.mpr fun hMem => absurd (hHigh _ hMem) (Nat.not_le.mpr hAscii)
      rw [bytes_cons, List.count_append, hNone, ih,
        List.count_cons_of_ne (ne_of_high hc hAscii), Nat.zero_add]

theorem lines_lexeme {l : Lexeme} {rest bs : List Char} (hBytes : bytes (l.chars ++ rest) = bs) :
    ((extentOf l).lexeme bs).lines = l.lines := by
  have hTake : bs.take (byteLength l.chars) = bytes l.chars := by
    rw [← hBytes, bytes_append, ← length_bytes, List.take_left]
  obtain ⟨role, chars⟩ := l
  rw [Extent.lexeme, extentOf, Lexeme.lines, Lexeme.lines]
  cases role with
  | plain kind => rfl
  | _ => simp only [hTake, count_bytes_of_ascii (d := '\n') (by decide)]

theorem read?_bytes {cs : List Char} {steps : Nat} (hSteps : byteLength cs ≤ steps) (file : Nat)
    (passed : List Char) (taken : List Token) (atLineStart : Bool) (line : Nat) :
    (read? file (passed ++ cs) steps atLineStart (byteLength passed) line (bytes cs)).map
        (·.map fun ts => ts.reverse ++ taken) =
      some (Token.lexOnto taken file atLineStart (byteLength passed) line cs) := by
  induction steps generalizing passed cs taken atLineStart line with
  | zero =>
    cases cs with
    | nil =>
      rw [Token.lexOnto]
      rfl
    | cons c cs =>
      have := c.utf8Size_pos
      rw [byteLength_cons] at hSteps
      omega
  | succ steps ih =>
    cases cs with
    | nil =>
      rw [Token.lexOnto]
      rfl
    | cons c cs =>
      obtain ⟨b, bs, hBytes⟩ := exists_bytes_cons c cs
      have hNext := next?_bytes passed hBytes atLineStart
      rw [hBytes, read?, hNext, Token.lexOnto]
      cases hLexeme : next atLineStart c cs with
      | error flaw => rfl
      | ok l =>
        obtain ⟨part, rest, hChars, rfl⟩ := (next_eq_ok hLexeme).1
        have hCut : c :: (part ++ rest) = l.chars ++ rest := by rw [hChars, List.cons_append]
        have hRest : byteLength rest ≤ steps := by
          have := c.utf8Size_pos
          rw [byteLength_cons, byteLength_append] at hSteps
          omega
        have hLater := ih hRest (passed ++ l.chars)
          ((l.toToken? file (byteLength passed) line).toList ++ taken)
          (l.keepsLineStart atLineStart) (line + l.lines)
        have hBytes' : bytes (l.chars ++ rest) = b :: bs := hCut ▸ hBytes
        have hDrop : (b :: bs).drop (extentOf l).count = bytes rest := by
          rw [← hBytes']
          exact drop_bytes l.chars rest
        have hStart : ((extentOf l).lexeme (b :: bs)).keepsLineStart atLineStart =
            l.keepsLineStart atLineStart := rfl
        rw [List.append_assoc, byteLength_append] at hLater
        have hDropChars : (part ++ rest).drop (l.chars.length - 1) = rest := by
          rw [hChars, List.length_cons, Nat.add_sub_cancel, List.drop_left]
        simp only [Except.map, Option.bind_eq_bind, Option.bind_some, hCut,
          Extent.token?_extentOf, hDrop, hStart, lines_lexeme hBytes', hDropChars]
        rw [← hLater]
        show Option.map _ ((read? file _ steps _ (byteLength passed + byteLength l.chars) _ _).bind _) =
          Option.map _ (read? file _ steps _ (byteLength passed + byteLength l.chars) _ _)
        rcases read? file (passed ++ (l.chars ++ rest)) steps (l.keepsLineStart atLineStart)
          (byteLength passed + byteLength l.chars) (line + l.lines) (bytes rest) with _ | _ | ts
        · rfl
        · rfl
        · show some (Except.ok _) = some (Except.ok _)
          cases l.toToken? file (byteLength passed) line with
          | none => rfl
          | some token =>
            rw [Option.toList_some, List.singleton_append, List.reverse_cons, List.append_assoc]

/-- Byte by byte the same is read as character by character: all cuts are between characters, and
there are enough steps. -/
theorem lex?_eq (file : Nat) (text : String) :
    lex? file text = some (Token.lexChars file text.toList) := by
  have hRead := read?_bytes (Nat.le_refl (byteLength text.toList)) file [] [] true 1
  rw [List.nil_append, byteLength_nil] at hRead
  rw [lex?, bytesOf_eq, length_bytes, Token.lexChars]
  rcases hResult : read? file text.toList (byteLength text.toList) true 0 1 (bytes text.toList)
    with _ | _ | ts
  · rw [hResult] at hRead
    cases hRead
  · rw [hResult] at hRead
    rw [← Option.some.inj hRead]
    rfl
  · rw [hResult] at hRead
    rw [← Option.some.inj hRead]
    show some (Except.ok ts) = some (Except.ok (ts.reverse ++ []).reverse)
    rw [List.append_nil, List.reverse_reverse]

end ByteReader

end SkeletonWeave
