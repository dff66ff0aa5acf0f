import SkeletonWeave.Source.Error
import SkeletonWeave.Text.Blank
import SkeletonWeave.Token.Basic

/-!
# Lexemes

A lexeme is what the reader takes from a text in one step: a blank, a line
feed, a comment, a directive line or a token, with the characters it covers.
Each of the readers below sees the text that follows and nothing else, so
the extent of a lexeme depends only on what comes after its first character.
-/

set_option autoImplicit false

namespace SkeletonWeave

inductive LexemeRole where
  | blank
  | newline
  | joint
  | comment
  | plain (kind : TokenKind)
  | directive (text : List Char)
  deriving DecidableEq, Repr

structure Lexeme where
  role : LexemeRole
  chars : List Char
  deriving DecidableEq, Repr

/-- What is wrong in a lexeme, and at which bytes counted from its start. -/
structure Flaw where
  cause : Source.Cause
  start : Nat
  length : Nat
  deriving DecidableEq, Repr

namespace Lexeme

open Text

def isBlankInLine (c : Char) : Bool :=
  c == ' ' || c == '\t' || c == '\r' || c == '\x0c' || c == '\x0b'

def isNameStart (c : Char) : Bool :=
  c.isAlpha || c == '_' || c == '$'

def isNamePart (c : Char) : Bool :=
  c.isAlphanum || c == '_' || c == '$'

def isQuote (c : Char) : Bool :=
  c == '"' || c == '\''

/-- Words that, directly before a quote, belong to the literal. -/
def literalMarks : List String :=
  ["L", "u", "U", "u8", "R"]

/-- Punctuation of more than one character. Two closing angle brackets stay apart, so that nested
template arguments close one at a time. -/
def longPunctuation : List String :=
  ["...", "::", "->", "&&", "||", "==", "!=", "++", "--"]

def lineRest (cs : List Char) : List Char :=
  cs.takeWhile (· ≠ '\n')

/-- The rest of a block comment through its end, put in reverse before `taken`. -/
def blockRestOnto? (taken : List Char) : List Char → Option (List Char)
  | [] => none
  | '*' :: '/' :: _ => some ('/' :: '*' :: taken)
  | c :: cs => blockRestOnto? (c :: taken) cs

def blockRest? (cs : List Char) : Option (List Char) :=
  (blockRestOnto? [] cs).map List.reverse

/-- The rest of a literal through its closing quote, put in reverse before `taken`; otherwise the
number of bytes read up to the line feed or end that cuts it off. A backslash takes the next
character with it, and at the end of the text one byte more than there is. -/
def literalRestOnto (quote : Char) (taken : List Char) (bytes : Nat) :
    List Char → Except Nat (List Char)
  | [] => .error bytes
  | '\n' :: _ => .error bytes
  | '\\' :: [] => .error (bytes + 2)
  | '\\' :: c :: cs => literalRestOnto quote (c :: '\\' :: taken) (bytes + 1 + c.utf8Size) cs
  | c :: cs =>
    if c = quote then .ok (c :: taken)
    else literalRestOnto quote (c :: taken) (bytes + c.utf8Size) cs

def literalRest (quote : Char) (bytes : Nat) (cs : List Char) : Except Nat (List Char) :=
  (literalRestOnto quote [] bytes cs).map List.reverse

/-- The rest of a number after `previous`: letters, digits, points, separators, and a sign after
an exponent letter. -/
def numberRest (previous : Char) : List Char → List Char
  | [] => []
  | c :: cs =>
    let isSign := (c == '+' || c == '-') && ['e', 'E', 'p', 'P'].contains previous
    if c.isAlphanum || c == '.' || c == '\'' || isSign then c :: numberRest c cs else []

def literal (mark : List Char) (quote : Char) (cs : List Char) : Except Flaw Lexeme :=
  let (kind, cause) := if quote = '"' then (TokenKind.string, Source.Cause.unterminatedString)
    else (.character, .unterminatedCharacter)
  match literalRest quote (byteLength mark + 1) cs with
  | .ok rest => .ok ⟨.plain kind, mark ++ quote :: rest⟩
  | .error length => .error ⟨cause, 0, length⟩

def word (c : Char) (cs : List Char) : Except Flaw Lexeme :=
  let name := c :: cs.takeWhile isNamePart
  match cs.dropWhile isNamePart with
  | quote :: rest =>
    if isQuote quote && literalMarks.contains (String.ofList name) then literal name quote rest
    else .ok ⟨.plain .identifier, name⟩
  | [] => .ok ⟨.plain .identifier, name⟩

def punctuation (c : Char) (cs : List Char) : Lexeme :=
  match longPunctuation.find? fun p => p.toList.isPrefixOf (c :: cs) with
  | some p => ⟨.plain .punctuation, p.toList⟩
  | none => ⟨.plain .punctuation, [c]⟩

def token (c : Char) (cs : List Char) : Except Flaw Lexeme :=
  if isNameStart c then word c cs
  else if c.isDigit || (c == '.' && (cs.head?.any Char.isDigit)) then
    .ok ⟨.plain .number, c :: numberRest c cs⟩
  else if isQuote c then literal [] c cs
  else .ok (punctuation c cs)

/-- The bytes of a character, each as a character of its own. -/
def byteChars (c : Char) : List Char :=
  (String.utf8EncodeChar c).map fun b => Char.ofNat b.toNat

/-- Whether the logical line so far asks for a file, so that the next quote or angle bracket opens
its name. -/
def namesFile (text : List Char) : Bool :=
  let start := trimLeft text
  ("include".toList.isPrefixOf start || "import".toList.isPrefixOf start) &&
    (words text).length == 1

def fileNameRest (close : Char) : List Char → List Char
  | [] => []
  | c :: cs => if c = '\n' then [] else if c = close then [c] else c :: fileNameRest close cs

/-- One piece of a directive line: the characters it covers and what they add to the logical text. -/
structure Piece where
  chars : List Char
  text : List Char
  deriving DecidableEq, Repr

/-- The piece of a directive line that starts with `c`, after the logical text so far; nothing if
a comment in it never ends. -/
def directivePiece? (text : List Char) (c : Char) (cs : List Char) : Option Piece :=
  match c, cs with
  | '\\', '\n' :: _ => some ⟨['\\', '\n'], [' ']⟩
  | '\\', '\r' :: '\n' :: _ => some ⟨['\\', '\r', '\n'], [' ']⟩
  | '/', '/' :: _ => some ⟨c :: lineRest cs, []⟩
  | '/', '*' :: rest => (blockRest? rest).map fun body => ⟨'/' :: '*' :: body, [' ']⟩
  | _, _ =>
    if (c = '"' || c = '<') && namesFile text then
      let name := c :: fileNameRest (if c = '"' then '"' else '>') cs
      some ⟨name, name.flatMap byteChars⟩
    else some ⟨[c], byteChars c⟩

/-- Reads a directive line up to its line feed. `offset` counts the bytes from the `#`; a comment
that never ends answers with its own. The covered characters come in reverse before `taken`. -/
def directiveRestOnto (taken text : List Char) (offset : Nat) :
    List Char → Except Nat (List Char × List Char)
  | [] => .ok (taken, text)
  | c :: cs =>
    if c = '\n' then .ok (taken, text)
    else
      match directivePiece? text c cs with
      | none => .error offset
      | some piece =>
        directiveRestOnto (piece.chars.reverse ++ taken) (text ++ piece.text)
          (offset + byteLength piece.chars) (cs.drop (piece.chars.length - 1))
termination_by cs => cs.length
decreasing_by simp only [List.length_drop, List.length_cons]; omega

def directiveLine (cs : List Char) : Except Flaw Lexeme :=
  match directiveRestOnto ['#'] [] 1 cs with
  | .ok (taken, text) => .ok ⟨.directive (trim text), taken.reverse⟩
  | .error offset => .error ⟨.unterminatedComment, offset, 2⟩

/-- The lexeme that starts with `c`. A `#` opens a directive only before any token of its line. -/
def next (atLineStart : Bool) (c : Char) (cs : List Char) : Except Flaw Lexeme :=
  match c, cs with
  | '\n', _ => .ok ⟨.newline, [c]⟩
  | '\\', '\n' :: _ => .ok ⟨.joint, ['\\', '\n']⟩
  | '/', '/' :: _ => .ok ⟨.comment, c :: lineRest cs⟩
  | '/', '*' :: rest =>
    match blockRest? rest with
    | some body => .ok ⟨.comment, '/' :: '*' :: body⟩
    | none => .error ⟨.unterminatedComment, 0, 2⟩
  | _, _ =>
    if isBlankInLine c then .ok ⟨.blank, [c]⟩
    else if c = '#' && atLineStart then directiveLine cs
    else token c cs

/-- The lines by which a lexeme moves the reader on. Literals count for none, even where a
backslash carries one over a line feed. -/
def lines (l : Lexeme) : Nat :=
  match l.role with
  | .plain _ => 0
  | _ => l.chars.count '\n'

def keepsLineStart (l : Lexeme) (atLineStart : Bool) : Bool :=
  match l.role with
  | .newline => true
  | .plain _ => false
  | _ => atLineStart

def toToken? (l : Lexeme) (file offset line : Nat) : Option Token :=
  let span : Source.Span := ⟨file, offset, offset + byteLength l.chars⟩
  match l.role with
  | .plain kind => some ⟨kind, String.ofList l.chars, span, line⟩
  | .directive text => some ⟨.directive, String.ofList text, span, line⟩
  | _ => none

end Lexeme

end SkeletonWeave
