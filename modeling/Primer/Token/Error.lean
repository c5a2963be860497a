import Primer.Source.Position

/-!
# Lexical errors

What stops the scanning of a text, with the offending piece of it and where that piece starts.
-/

namespace Primer

/-- What is wrong with the front of a text. -/
inductive LexFault where
  /-- No token starts with this character. -/
  | unexpectedCharacter
  /-- A character or string literal has no end or a bad body. -/
  | malformedLiteral
  /-- An integer literal does not fit into 64 bits. -/
  | integerOutOfRange
  deriving DecidableEq, Repr

/-- A lexical error with its place. -/
inductive LexError where
  | unexpectedCharacter (c : Char) (pos : Position)
  | malformedLiteral (lexeme : String) (pos : Position)
  | integerOutOfRange (lexeme : String) (pos : Position)
  deriving DecidableEq, Repr

namespace LexError

/-- The error for a fault in the piece `slice` that starts at `pos`. A piece that opens with a quote
is a malformed literal whatever else is wrong with it. -/
def ofFault (fault : LexFault) (slice : List Char) (pos : Position) : LexError :=
  let lexeme := String.ofList slice
  if slice.head? = some '\x22' ∨ slice.head? = some '\x27' then
    .malformedLiteral lexeme pos
  else
    match fault with
    | .integerOutOfRange => .integerOutOfRange lexeme pos
    | .malformedLiteral => .malformedLiteral lexeme pos
    | .unexpectedCharacter => .unexpectedCharacter (slice.head?.getD '\x00') pos

/-- Where the offending piece starts. -/
def pos : LexError → Position
  | .unexpectedCharacter _ pos => pos
  | .malformedLiteral _ pos => pos
  | .integerOutOfRange _ pos => pos

/-- The wording of the error. -/
def message : LexError → String
  | .unexpectedCharacter c pos => s!"Error at {pos.text}: Unexpected character '{c}'."
  | .malformedLiteral lexeme pos => s!"Error at {pos.text}: Malformed literal {lexeme}."
  | .integerOutOfRange lexeme pos =>
    s!"Error at {pos.text}: Integer literal {lexeme} is too large."

end LexError

end Primer
