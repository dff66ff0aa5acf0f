import SkeletonWeave.Token.Lexeme

/-!
# Reading tokens

The lexer takes one lexeme after the other and keeps the tokens among them,
with the byte position and the line at which each one starts.
-/

set_option autoImplicit false

namespace SkeletonWeave.Token

/-- Reads the tokens of a text that goes on with the given characters, put in reverse before
`taken`. A failure is told with its position in the whole text. -/
def lexOnto (taken : List Token) (file : Nat) (atLineStart : Bool) (offset line : Nat) :
    List Char → Except Flaw (List Token)
  | [] => .ok taken
  | c :: cs =>
    match Lexeme.next atLineStart c cs with
    | .error flaw => .error { flaw with start := offset + flaw.start }
    | .ok lexeme =>
      lexOnto ((lexeme.toToken? file offset line).toList ++ taken) file
        (lexeme.keepsLineStart atLineStart) (offset + Text.byteLength lexeme.chars)
        (line + lexeme.lines) (cs.drop (lexeme.chars.length - 1))
termination_by cs => cs.length
decreasing_by simp only [List.length_drop, List.length_cons]; omega

def lexChars (file : Nat) (cs : List Char) : Except Flaw (List Token) :=
  (lexOnto [] file true 0 1 cs).map List.reverse

def lex (file : Nat) (name text : String) : Except Source.Error (List Token) :=
  (lexChars file text.toList).mapError fun flaw =>
    .located flaw.cause name flaw.start flaw.length

end SkeletonWeave.Token
