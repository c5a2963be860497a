/-!
# Escapes inside quoted literals

Between quotes a backslash and a letter stand for one character. `Escape.encode` writes a text so
that it can stand between quotes, `Escape.decode` reads it back. Only the enclosing kind of quote is
written with a backslash, but both kinds are read with one.
-/

namespace Primer

namespace Escape

/-- The letter that stands for `c` after a backslash between two `quote` characters, if `c` has to
be escaped there. -/
def letterFor? (quote c : Char) : Option Char :=
  if c = '\n' then some 'n'
  else if c = '\t' then some 't'
  else if c = '\r' then some 'r'
  else if c = '\x00' then some '0'
  else if c = '\\' then some '\\'
  else if c = quote then some quote
  else none

/-- The character meant by a backslash and `letter`. -/
def meaning? (letter : Char) : Option Char :=
  if letter = 'n' then some '\n'
  else if letter = 't' then some '\t'
  else if letter = 'r' then some '\r'
  else if letter = '0' then some '\x00'
  else if letter = '\\' then some '\\'
  else if letter = '\x27' then some '\x27'
  else if letter = '\x22' then some '\x22'
  else none

/-- One character as it stands between two `quote` characters. -/
def encodeChar (quote c : Char) : List Char :=
  match letterFor? quote c with
  | some letter => ['\\', letter]
  | none => [c]

/-- A text as it stands between two `quote` characters. -/
def encode (quote : Char) (text : List Char) : List Char :=
  text.flatMap (encodeChar quote)

/-- The text meant by the body of a quoted literal, unless a backslash is followed by no letter of
the table. -/
def decode : List Char → Option (List Char)
  | [] => some []
  | [c] => if c = '\\' then none else some [c]
  | c :: letter :: rest =>
    if c = '\\' then do
      let meant ← meaning? letter
      let decoded ← decode rest
      return meant :: decoded
    else do
      let decoded ← decode (letter :: rest)
      return c :: decoded

/-- The character with the code `c`. -/
def charOfByte (c : UInt8) : Char :=
  Char.ofNat c.toNat

/-- A byte as it stands between single quotes. -/
def byteText (c : UInt8) : String :=
  String.ofList (encodeChar '\x27' (charOfByte c))

/-- A text as it stands between double quotes. -/
def stringText (s : String) : String :=
  String.ofList (encode '\x22' s.toList)

/-- A character literal: the byte between single quotes. -/
def quotedByte (c : UInt8) : String :=
  "'" ++ byteText c ++ "'"

/-- A string literal: the text between double quotes. -/
def quotedString (s : String) : String :=
  "\"" ++ stringText s ++ "\""

end Escape

end Primer
