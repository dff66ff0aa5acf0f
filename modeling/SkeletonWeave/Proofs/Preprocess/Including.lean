import SkeletonWeave.Proofs.Preprocess.Termination
import SkeletonWeave.Proofs.Token.DirectiveLines

/-!
# Including files

The name of an include is taken as it stands between its marks, whatever looks
like a comment in it, and searched along the path. It is taken byte by byte, each
byte for a character: a name of ASCII stays what it is, and no other does.
-/

set_option autoImplicit false

namespace SkeletonWeave

open Text (byteLength isBlank trim trimLeft trimRight dropEndWhile dropEndWhile_append)
open Lexeme (byteChars isBlankInLine)
open ByteReader (bytes bytes_append bytes_cons bytes_cons_of_ascii byteChars_eq_or_high
  count_bytes_of_ascii startsPiece_of_ne)

theorem not_mem_bytes {d : Char} (hAscii : d.toNat < 128) {cs : List Char} (h : d ∉ cs) :
    d ∉ bytes cs := by
  rw [← List.count_eq_zero, count_bytes_of_ascii hAscii]
  exact List.count_eq_zero.mpr h

theorem Text.length_le_byteLength (cs : List Char) : cs.length ≤ byteLength cs := by
  induction cs with
  | nil => exact Nat.zero_le _
  | cons c cs ih =>
    have hSize := c.utf8Size_pos
    rw [Text.byteLength_cons, List.length_cons]
    omega

theorem bytes_eq_self_iff (cs : List Char) : bytes cs = cs ↔ ∀ c ∈ cs, c.toNat < 128 := by
  induction cs with
  | nil => simp
  | cons c cs ih =>
    rw [List.forall_mem_cons, ← ih]
    rcases byteChars_eq_or_high c with ⟨hc, -⟩ | ⟨hc, -, -⟩
    · rw [bytes_cons_of_ascii hc, List.cons_inj_right, and_iff_right hc]
    · constructor
      · intro hSame
        -- the first byte alone could be the character, but there are more bytes than characters
        have hLength := congrArg List.length hSame
        rw [ByteReader.length_bytes, Text.byteLength_cons, List.length_cons] at hLength
        have hRest := Text.length_le_byteLength cs
        have hSize : c.utf8Size = 1 := by
          have := c.utf8Size_pos
          omega
        have hSmall := UInt32.le_iff_toNat_le.mp (Char.utf8Size_eq_one_iff.mp hSize)
        exact absurd hc (Nat.not_le.mpr (Nat.lt_succ_of_le hSmall))
      · rintro ⟨hAscii, -⟩
        omega

namespace Directive.Target

def marks : Target → Char × Char
  | .quoted _ => ('"', '"')
  | .angled _ => ('<', '>')

def written (target : Target) : List Char :=
  target.marks.1 :: (target.name.toList ++ [target.marks.2])

/-- Whether the name can stand between its marks: on one line, and without the closing one. -/
structure IsWritable (target : Target) : Prop where
  noBreak : '\n' ∉ target.name.toList
  noMark : target.marks.2 ∉ target.name.toList

/-- The target with every byte of its name as a character. -/
def bytewise : Target → Target
  | .quoted name => .quoted (String.ofList (bytes name.toList))
  | .angled name => .angled (String.ofList (bytes name.toList))

variable (target : Target)

theorem marks_cases : target.marks = ('"', '"') ∨ target.marks = ('<', '>') := by
  cases target with
  | quoted => exact .inl rfl
  | angled => exact .inr rfl

theorem isAscii_marks : target.marks.1.toNat < 128 ∧ target.marks.2.toNat < 128 := by
  rcases target.marks_cases with hMarks | hMarks <;> rw [hMarks] <;> decide

theorem isBlank_marks : isBlank target.marks.1 = false ∧ isBlank target.marks.2 = false := by
  rcases target.marks_cases with hMarks | hMarks <;> rw [hMarks] <;> decide

theorem name_bytewise : target.bytewise.name.toList = bytes target.name.toList := by
  cases target <;> exact String.toList_ofList

theorem marks_bytewise : target.bytewise.marks = target.marks := by
  cases target <;> rfl

theorem written_bytewise : target.bytewise.written = bytes target.written := by
  obtain ⟨hOpen, hClose⟩ := target.isAscii_marks
  rw [written, written, bytes_cons_of_ascii hOpen, bytes_append, bytes_cons_of_ascii hClose,
    marks_bytewise, name_bytewise, ByteReader.bytes_nil]

theorem bytewise_eq_self_iff :
    target.bytewise = target ↔ ∀ c ∈ target.name.toList, c.toNat < 128 := by
  rw [← bytes_eq_self_iff, ← name_bytewise, String.toList_inj]
  cases target <;> simp [bytewise, name]

variable {target}

theorem IsWritable.bytewise (h : target.IsWritable) : target.bytewise.IsWritable where
  noBreak := by
    rw [name_bytewise]
    exact not_mem_bytes (by decide) h.noBreak
  noMark := by
    rw [name_bytewise, marks_bytewise]
    exact not_mem_bytes target.isAscii_marks.2 h.noMark

theorem trim_written (target : Target) : trim (' ' :: target.written) = target.written := by
  have hLeft : trimLeft (' ' :: target.written) = target.written := by
    rw [trimLeft, List.dropWhile_cons_of_pos (by decide), written,
      List.dropWhile_cons_of_neg (by simp [target.isBlank_marks.1])]
  have hLast : ∀ c ∈ target.written.getLast?, isBlank c = false := by
    intro c hc
    rw [written, ← List.cons_append, List.getLast?_concat] at hc
    rw [← Option.some.inj hc]
    exact target.isBlank_marks.2
  have hRight : dropEndWhile isBlank (target.written ++ []) = target.written :=
    dropEndWhile_append (by simp) hLast
  rw [List.append_nil] at hRight
  rw [trim, hLeft, trimRight, hRight]

theorem target?_written (h : target.IsWritable) :
    target? (' ' :: target.written) = some target := by
  have hName {close : Char} (hMark : close ∉ target.name.toList) :
      String.ofList (dropEndWhile (· == close) (target.name.toList ++ [close])) = target.name := by
    rw [dropEndWhile_append (by simp), String.ofList_toList]
    intro c hc
    rw [beq_eq_false_iff_ne]
    rintro rfl
    exact hMark (List.mem_of_getLast? hc)
  have hMark := h.noMark
  rw [target?, trim_written]
  cases target with
  | quoted name => exact congrArg (some ∘ quoted) (hName hMark)
  | angled name => exact congrArg (some ∘ angled) (hName hMark)

end Directive.Target

namespace Lexeme

/-- What may stand between a directive and the end of its line: white space and comments. -/
inductive Trails : List Char → Prop
  | nil : Trails []
  | blank {c : Char} {tail : List Char} (hBlank : isBlankInLine c = true) (hTail : Trails tail) :
    Trails (c :: tail)
  | block {body tail : List Char} (hBody : blockRest? body = some body) (hTail : Trails tail) :
    Trails ('/' :: '*' :: (body ++ tail))
  | line {more : List Char} (hMore : '\n' ∉ more) : Trails ('/' :: '/' :: more)

def isInert (c : Char) : Bool :=
  c.toNat < 128 && c ∉ ['\n', '\\', '/', '"', '<']

theorem directiveRestOnto_inert {part : List Char} (hPart : part.all isInert = true)
    (taken text rest : List Char) (offset : Nat) :
    directiveRestOnto taken text offset (part ++ rest) =
      directiveRestOnto (part.reverse ++ taken) (text ++ part) (offset + byteLength part) rest := by
  induction part generalizing taken text offset with
  | nil => simp [Text.byteLength]
  | cons c part ih =>
    rw [List.all_cons, Bool.and_eq_true] at hPart
    obtain ⟨hc, hRest⟩ := hPart
    simp only [isInert, Bool.and_eq_true, decide_eq_true_eq, List.mem_cons, List.not_mem_nil,
      or_false, not_or] at hc
    obtain ⟨hAscii, hBreak, hJoint, hSlash, hQuote, hAngle⟩ := hc
    have hByte : byteChars c = [c] := by
      have := bytes_cons_of_ascii hAscii []
      rwa [bytes_cons, ByteReader.bytes_nil, List.append_nil] at this
    have hPiece : directivePiece? text c (part ++ rest) = some ⟨[c], [c]⟩ := by
      rw [directivePiece?_of_starts ⟨fun h => absurd h hJoint, fun h => absurd h hSlash⟩,
        if_neg (by simp [hQuote, hAngle]), hByte]
    have hCut : part ++ rest = [] ++ (part ++ rest) := rfl
    rw [List.cons_append, directiveRestOnto_cons hBreak hPiece rfl hCut, ih hRest]
    simp [Text.byteLength, Nat.add_assoc]

theorem isBlank_of_isBlankInLine {c : Char} (h : isBlankInLine c = true) :
    isBlank c = true ∧ isInert c = true := by
  simp only [isBlankInLine, Bool.or_eq_true, beq_iff_eq] at h
  rcases h with (((rfl | rfl) | rfl) | rfl) | rfl <;> exact ⟨by decide, by decide⟩

theorem fileNameRest_closed {close : Char} (hClose : close ≠ '\n') {name : List Char}
    (hBreak : '\n' ∉ name) (hMark : close ∉ name) (rest : List Char) :
    fileNameRest close (name ++ close :: rest) = name ++ [close] := by
  induction name with
  | nil => rw [List.nil_append, fileNameRest, if_neg hClose, if_pos rfl, List.nil_append]
  | cons c name ih =>
    rw [List.mem_cons, not_or] at hBreak hMark
    rw [List.cons_append, fileNameRest, if_neg (Ne.symm hBreak.1), if_neg (Ne.symm hMark.1),
      ih hBreak.2 hMark.2, List.cons_append]

theorem directiveRestOnto_written {target : Directive.Target} (h : target.IsWritable)
    {text : List Char} (hNames : namesFile text = true) (taken rest : List Char) (offset : Nat) :
    directiveRestOnto taken text offset (target.written ++ rest) =
      directiveRestOnto (target.written.reverse ++ taken) (text ++ target.bytewise.written)
        (offset + byteLength target.written) rest := by
  have hWritten : target.written ++ rest =
      target.marks.1 :: (target.name.toList ++ [target.marks.2] ++ rest) := rfl
  obtain ⟨hOpens, hCloses, hPlain, hBreak⟩ :
      (target.marks.1 = '"' || target.marks.1 = '<') = true ∧
        (if target.marks.1 = '"' then '"' else '>') = target.marks.2 ∧
        (target.marks.1 ≠ '\\' ∧ target.marks.1 ≠ '/') ∧
        target.marks.1 ≠ '\n' ∧ target.marks.2 ≠ '\n' := by
    rcases target.marks_cases with hMarks | hMarks <;> rw [hMarks] <;> decide
  have hPiece :
      directivePiece? text target.marks.1 (target.name.toList ++ [target.marks.2] ++ rest) =
        some ⟨target.written, target.bytewise.written⟩ := by
    have hName : fileNameRest target.marks.2 (target.name.toList ++ [target.marks.2] ++ rest) =
        target.name.toList ++ [target.marks.2] := by
      rw [List.append_assoc, List.singleton_append]
      exact fileNameRest_closed hBreak.2 h.noBreak h.noMark rest
    rw [directivePiece?_of_starts (startsPiece_of_ne hPlain.1 hPlain.2 _), hOpens, hNames,
      Bool.and_self, if_pos rfl, hCloses, hName, Directive.Target.written_bytewise]
    rfl
  rw [hWritten, directiveRestOnto_cons hBreak.1 hPiece rfl rfl]

theorem directiveRestOnto_trails {tail : List Char} (hTail : Trails tail) {rest : List Char}
    (hRest : rest = [] ∨ rest.head? = some '\n') (taken text : List Char) (offset : Nat) :
    ∃ added, (∀ c ∈ added, isBlank c = true) ∧
      directiveRestOnto taken text offset (tail ++ rest) =
        .ok (tail.reverse ++ taken, text ++ added) := by
  induction hTail generalizing taken text offset with
  | nil =>
    refine ⟨[], nofun, ?_⟩
    rw [List.append_nil]
    exact directiveRestOnto_end hRest taken text offset
  | @blank c tail hBlank hTail ih =>
    obtain ⟨hBlank, hInert⟩ := isBlank_of_isBlankInLine hBlank
    obtain ⟨added, hAdded, hRead⟩ := ih (c :: taken) (text ++ [c]) (offset + byteLength [c])
    refine ⟨c :: added, List.forall_mem_cons.mpr ⟨hBlank, hAdded⟩, ?_⟩
    have hOne : [c].all isInert = true := by simpa using hInert
    rw [← List.singleton_append, List.append_assoc, directiveRestOnto_inert hOne,
      List.reverse_singleton, List.singleton_append, hRead]
    simp
  | @block body tail hBody hTail ih =>
    have hPiece : directivePiece? text '/' ('*' :: (body ++ (tail ++ rest))) =
        some ⟨'/' :: '*' :: body, [' ']⟩ := by
      obtain ⟨-, -, -, hAgain⟩ := blockRest?_cut hBody
      rw [show directivePiece? text '/' ('*' :: (body ++ (tail ++ rest))) =
        (blockRest? (body ++ (tail ++ rest))).map fun body => ⟨'/' :: '*' :: body, [' ']⟩ from rfl,
        hAgain, Option.map_some]
    obtain ⟨added, hAdded, hRead⟩ := ih (('/' :: '*' :: body).reverse ++ taken) (text ++ [' '])
      (offset + byteLength ('/' :: '*' :: body))
    refine ⟨' ' :: added, List.forall_mem_cons.mpr ⟨by decide, hAdded⟩, ?_⟩
    have hCut : '*' :: (body ++ (tail ++ rest)) = '*' :: body ++ (tail ++ rest) := rfl
    rw [List.cons_append, List.cons_append, List.append_assoc,
      directiveRestOnto_cons (by decide) hPiece rfl hCut, hRead]
    simp
  | @line more hMore =>
    refine ⟨[], nofun, ?_⟩
    have hBreak : '\n' ∉ '/' :: '/' :: more := by simpa using hMore
    have hEnd : ∀ c ∈ rest.head?, c = '\n' := by
      rcases hRest with rfl | hHead
      · exact nofun
      · simp [hHead]
    have hLine : lineRest ('/' :: '/' :: (more ++ rest)) = '/' :: '/' :: more :=
      lineRest_append hBreak hEnd
    rw [List.cons_append, List.cons_append, directiveRestOnto_comment, hLine, List.append_nil]

theorem next_include {target : Directive.Target} (h : target.IsWritable) {tail rest : List Char}
    (hTail : Trails tail) (hRest : rest = [] ∨ rest.head? = some '\n') :
    next true '#' ("include ".toList ++ target.written ++ tail ++ rest) =
      .ok ⟨.directive ("include ".toList ++ target.bytewise.written),
        '#' :: ("include ".toList ++ target.written ++ tail)⟩ := by
  obtain ⟨added, hAdded, hRead⟩ := directiveRestOnto_trails hTail hRest
    (target.written.reverse ++ ("include ".toList.reverse ++ ['#']))
    ([] ++ "include ".toList ++ target.bytewise.written)
    (1 + byteLength "include ".toList + byteLength target.written)
  have hText : trim ("include ".toList ++ target.bytewise.written ++ added) =
      "include ".toList ++ target.bytewise.written := by
    have hLeft : trimLeft ("include ".toList ++ target.bytewise.written ++ added) =
        "include ".toList ++ target.bytewise.written ++ added := rfl
    rw [trim, hLeft, trimRight]
    refine dropEndWhile_append hAdded fun c hc => ?_
    rw [Directive.Target.written, ← List.cons_append, ← List.append_assoc,
      List.getLast?_concat] at hc
    rw [← Option.some.inj hc]
    exact target.bytewise.isBlank_marks.2
  rw [next_directive, directiveLine, List.append_assoc, List.append_assoc,
    directiveRestOnto_inert (by decide), directiveRestOnto_written h (by decide +kernel), hRead]
  simp only [List.nil_append, hText]
  simp

end Lexeme

theorem Token.lexOnto_directive {cs text rest : List Char}
    (h : Lexeme.next true '#' (cs ++ rest) = .ok ⟨.directive text, '#' :: cs⟩) (taken : List Token)
    (file offset number : Nat) :
    Token.lexOnto taken file true offset number ('#' :: (cs ++ rest)) =
      Token.lexOnto
        (⟨.directive, String.ofList text,
          ⟨file, offset, offset + byteLength ('#' :: cs)⟩, number⟩ :: taken)
        file true (offset + byteLength ('#' :: cs)) (number + ('#' :: cs).count '\n') rest := by
  rw [Token.lexOnto, h]
  simp [Lexeme.toToken?, Lexeme.keepsLineStart, Lexeme.lines]

namespace Preprocess

/-- The directories in which a file is looked for, in order: that of the including file counts only
for a name in quotes. -/
def searched (options : ReadOptions) (dir? : Option String) : Directive.Target → List String
  | .quoted _ => dir?.toList ++ options.includeDirs
  | .angled _ => options.includeDirs

/-- How the tokens of a file end after another file was read among them: with the failure of that
file, or as what is left of them does. -/
def EndsAfter (fs : FileSystem) (options : ReadOptions) (file : String) (dir? : Option String)
    (opened : List Conditional) (ts : List Token) (entered p : Progress) : Prop :=
  match entered.failure? with
  | none => Ends fs options (.tokens file dir? opened entered.state ts) p
  | some _ => p = entered

variable {fs : FileSystem} {options : ReadOptions} {file path : String} {dir? : Option String}
  {opened : List Conditional} {s s' : State} {t : Token} {ts : List Token} {p : Progress}

theorem resolve?_eq (fs : FileSystem) (options : ReadOptions) (dir? : Option String)
    (target : Directive.Target) :
    resolve? fs options dir? target =
      ((searched options dir? target).map (Path.join · target.name)).find? fs.isFile := by
  cases target <;> rfl

theorem searched_bytewise (options : ReadOptions) (dir? : Option String)
    (target : Directive.Target) : searched options dir? target.bytewise = searched options dir? target := by
  cases target <;> rfl

theorem action_include (fs : FileSystem) (options : ReadOptions) (dir? : Option String) (s : State)
    {target : Directive.Target} (h : target.IsWritable) (hKind : t.kind = .directive)
    (hText : t.text = String.ofList ("include ".toList ++ target.written))
    (hActive : isActive opened = true) :
    action fs options dir? opened s t =
      match resolve? fs options dir? target with
      | some path => .enter path
      | none => .proceed opened { s with unresolved := s.unresolved ++ [target.name] } := by
  have hSplit : Directive.splitName t.text.toList = ("include".toList, ' ' :: target.written) := by
    rw [hText, String.toList_ofList]
    rfl
  have hTarget := Directive.Target.target?_written h
  rw [action, if_pos hKind, conditionalAction, hSplit]
  cases hFound : resolve? fs options dir? target <;>
    simp [directiveAction, hActive, hTarget, hFound]

theorem ends_proceed (hAction : action fs options dir? opened s t = .proceed opened s') :
    Ends fs options (.tokens file dir? opened s (t :: ts)) p ↔
      Ends fs options (.tokens file dir? opened s' ts) p := by
  constructor
  · intro hEnds
    cases hEnds with
    | proceeds hProceeds hRest =>
      cases hAction.symm.trans hProceeds
      exact hRest
    | enters hEnters => cases hAction.symm.trans hEnters
    | breaks hEnters => cases hAction.symm.trans hEnters
    | stops hStops => cases hAction.symm.trans hStops
  · exact .proceeds hAction

theorem ends_enter (hAction : action fs options dir? opened s t = .enter path) :
    Ends fs options (.tokens file dir? opened s (t :: ts)) p ↔
      EndsAfter fs options file dir? opened ts (addRoot fs options path s) p := by
  -- the file ends in one way only, as `addRoot` says
  have hFile := ends_addRoot fs options path s
  unfold EndsAfter
  generalize addRoot fs options path s = entered at hFile ⊢
  obtain ⟨s', failure?⟩ := entered
  constructor
  · intro hEnds
    cases hEnds with
    | proceeds hProceeds => cases hAction.symm.trans hProceeds
    | enters hEnters hRead hRest =>
      cases hAction.symm.trans hEnters
      cases hRead.unique hFile
      exact hRest
    | breaks hEnters hRead =>
      cases hAction.symm.trans hEnters
      cases hRead.unique hFile
      rfl
    | stops hStops => cases hAction.symm.trans hStops
  · intro hEnds
    cases failure? with
    | none => exact .enters hAction hFile hEnds
    | some e =>
      cases hEnds
      exact .breaks hAction hFile

theorem addRoot_of_isSeen (hSeen : s.isSeen (canonicalPath fs path) = true) :
    addRoot fs options path s = ⟨s, none⟩ :=
  (ends_addRoot fs options path s).unique (.known hSeen)

/-- An include that ends its line, or has only comments after it, is one token whatever its name
holds, and in an active region it asks for the file that the bytes of this name give: the first
regular file of that name in the directories that are searched is read, unless the batch has it;
where there is none, the name is recorded, and reading goes on. The bytes are the name itself just
if it is one of ASCII. -/
theorem include_reads_bytes_of_name {target : Directive.Target} (hWritable : target.IsWritable)
    {tail rest : List Char} (hTail : Lexeme.Trails tail)
    (hRest : rest = [] ∨ rest.head? = some '\n') :
    let line := '#' :: ("include ".toList ++ target.written ++ tail)
    let text := String.ofList ("include ".toList ++ target.bytewise.written)
    (∀ (taken : List Token) (file offset number : Nat),
      Token.lexOnto taken file true offset number (line ++ rest) =
        Token.lexOnto
          (⟨.directive, text, ⟨file, offset, offset + byteLength line⟩, number⟩ :: taken)
          file true (offset + byteLength line) (number + line.count '\n') rest) ∧
      (∀ (fs : FileSystem) (options : ReadOptions) (file : String) (dir? : Option String)
        (opened : List Conditional) (s : State) (t : Token) (ts : List Token) (p : Progress),
        t.kind = .directive → t.text = text → isActive opened = true →
        (Ends fs options (.tokens file dir? opened s (t :: ts)) p ↔
          match ((searched options dir? target).map
            (Path.join · target.bytewise.name)).find? fs.isFile with
          | none => Ends fs options (.tokens file dir? opened
              { s with unresolved := s.unresolved ++ [target.bytewise.name] } ts) p
          | some path =>
            if s.isSeen (canonicalPath fs path) then
              Ends fs options (.tokens file dir? opened s ts) p
            else EndsAfter fs options file dir? opened ts (addRoot fs options path s) p)) ∧
      (target.bytewise = target ↔ ∀ c ∈ target.name.toList, c.toNat < 128) := by
  intro line text
  refine ⟨?_, ?_, target.bytewise_eq_self_iff⟩
  · exact Token.lexOnto_directive (Lexeme.next_include hWritable hTail hRest)
  · intro fs options file dir? opened s t ts p hKind hText hActive
    have hAction := action_include fs options dir? s hWritable.bytewise hKind hText hActive
    rw [← searched_bytewise, ← resolve?_eq]
    split
    · next hNone =>
      rw [hNone] at hAction
      exact ends_proceed hAction
    · next path hPath =>
      rw [hPath] at hAction
      rw [ends_enter hAction]
      split
      · next hSeen => rw [addRoot_of_isSeen hSeen, EndsAfter]
      · rfl

theorem include_of_name_with_slashes :
    let target : Directive.Target := .quoted "a//b.h"
    let line := "#include \"a//b.h\" // \"c\"".toList
    let t : Token := ⟨.directive, "include \"a//b.h\"", ⟨0, 0, byteLength line⟩, 1⟩
    let s := State.initial default
    target.IsWritable ∧ Lexeme.Trails " // \"c\"".toList ∧
      Token.lexOnto [] 0 true 0 1 (line ++ "\nint x;".toList) =
        Token.lexOnto [t] 0 true (byteLength line) 1 "\nint x;".toList ∧
      Ends ⟨[], []⟩ default (.tokens "t.cpp" none [] s [t])
        ⟨{ s with unresolved := ["a//b.h"] }, none⟩ := by
  intro target line t s
  have hWritable : target.IsWritable := ⟨by decide +kernel, by decide +kernel⟩
  have hTail : Lexeme.Trails " // \"c\"".toList := .blank (by decide) (.line (by decide))
  have hRest : "\nint x;".toList = [] ∨ "\nint x;".toList.head? = some '\n' := .inr rfl
  obtain ⟨hRead, hEnds, hAscii⟩ := include_reads_bytes_of_name hWritable hTail hRest
  have hAll : target.name.toList.all (·.toNat < 128) = true := by decide +kernel
  have hSame : target.bytewise = target := hAscii.mpr (by simpa using hAll)
  rw [hSame] at hRead hEnds
  have hLine : '#' :: ("include ".toList ++ target.written ++ " // \"c\"".toList) = line := by
    decide +kernel
  have hText : String.ofList ("include ".toList ++ target.written) = t.text := by decide +kernel
  have hBreaks : line.count '\n' = 0 := by decide +kernel
  rw [hLine, hText, hBreaks] at hRead
  refine ⟨hWritable, hTail, ?_, ?_⟩
  · simpa using hRead [] 0 0 1
  · exact (hEnds ⟨[], []⟩ default "t.cpp" none [] s t [] _ rfl hText.symm rfl).mpr .closed

/-- The two bytes of a letter are recorded as two letters. -/
theorem include_of_accented_name :
    let read := addSource ⟨[], []⟩ default "t.cpp" "#include <é.h>\n" (.initial default)
    read.failure? = none ∧ read.state.unresolved = ["Ã©.h"] ∧ read.state.unresolved ≠ ["é.h"] := by
  decide +kernel

end Preprocess

end SkeletonWeave
