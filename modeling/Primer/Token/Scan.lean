import Primer.Token.Basic
import Primer.Token.Error

/-!
# Scanning a text into tokens

At each point of a text the longest piece that forms a token, a comment or a run of blanks is taken.
Blanks, line breaks and comments are dropped; the first piece that forms nothing ends the scan.

- `Piece.front` says what stands at the front of a text and how far it reaches.
- `scan` walks over the text one character at a time, so that the position of every token is the
  position reached by advancing over all characters before it.
- `tokenize` is the whole text as a token list that ends with the end of the input.
-/

namespace Primer

/-! ## Character classes -/

/-- Blanks that separate tokens on a line. -/
def isBlank (c : Char) : Bool :=
  c == ' ' || c == '\t' || c == '\r' || c == '\x0c'

/-- Characters that may open an identifier. -/
def isNameStart (c : Char) : Bool :=
  c.isAlpha || c == '_'

/-- Characters that may continue an identifier. -/
def isNamePart (c : Char) : Bool :=
  c.isAlphanum || c == '_'

/-! ## Quoted literals and comments -/

/-- The part of a text after an opening quote. -/
inductive Quoted where
  /-- The closing quote was found, after `body`. -/
  | closed (body : List Char)
  /-- The line or the text ended first, after `seen`. -/
  | unclosed (seen : List Char)
  deriving DecidableEq, Repr

namespace Quoted

/-- Puts `before` in front of what was read. -/
def prepend (before : List Char) : Quoted → Quoted
  | .closed body => .closed (before ++ body)
  | .unclosed seen => .unclosed (before ++ seen)

/-- Reads up to the closing `quote`. A backslash hides the character after it, unless that is a line
break. -/
def read (quote : Char) : List Char → Quoted
  | [] => .unclosed []
  | [c] =>
    if c = quote then .closed []
    else if c = '\n' then .unclosed []
    else .unclosed [c]
  | c :: d :: rest =>
    if c = quote then .closed []
    else if c = '\n' then .unclosed []
    else if c = '\\' then
      if d = '\n' then .unclosed [c] else (read quote rest).prepend [c, d]
    else (read quote (d :: rest)).prepend [c]

end Quoted

/-- The number of characters up to and including the first end of a block comment. -/
def blockCommentEnd? : List Char → Option Nat
  | [] => none
  | [_] => none
  | c :: d :: rest =>
    if c = '*' ∧ d = '/' then some 2 else (blockCommentEnd? (d :: rest)).map (· + 1)

/-! ## The front of a text -/

/-- What stands at the front of a text. The number of characters is given without the first one,
which every piece has. -/
inductive Piece where
  /-- A blank run, a line break or a comment. -/
  | skip (more : Nat)
  | token (t : Token) (more : Nat)
  /-- Nothing can be made of `slice`. -/
  | fault (fault : LexFault) (slice : List Char)
  deriving DecidableEq, Repr

namespace Piece

/-- An integer literal, `digits` being all of its digits. -/
def ofDigits (digits : List Char) (more : Nat) : Piece :=
  let n := Nat.ofDigitChars 10 digits 0
  if n ≤ Int64.maxValue.toInt then .token (.integer (Int64.ofNat n)) more
  else .fault .integerOutOfRange digits

/-- A reserved word or an identifier. -/
def ofWord (word : List Char) (more : Nat) : Piece :=
  let text := String.ofList word
  match Keyword.ofText? text with
  | some k => .token (.keyword k) more
  | none => .token (.identifier text) more

/-- A character literal holds exactly one ASCII character. -/
def ofCharLiteral : Quoted → Piece
  | .unclosed seen => .fault .malformedLiteral ('\x27' :: seen)
  | .closed body =>
    let slice := '\x27' :: (body ++ ['\x27'])
    match Escape.decode body with
    | some [c] =>
      if c.toNat < 128 then .token (.char c.toNat.toUInt8) (body.length + 1)
      else .fault .malformedLiteral slice
    | _ => .fault .malformedLiteral slice

/-- A string literal holds any text whose escapes are known. -/
def ofStringLiteral : Quoted → Piece
  | .unclosed seen => .fault .malformedLiteral ('\x22' :: seen)
  | .closed body =>
    match Escape.decode body with
    | some text => .token (.string (String.ofList text)) (body.length + 1)
    | none => .fault .malformedLiteral ('\x22' :: (body ++ ['\x22']))

/-- An operator or delimiter that opens with `c`, the longer one if there are two. -/
def ofPunct (c : Char) (rest : List Char) : Piece :=
  match rest.head?.bind (Punct.ofPair? c) with
  | some p => .token (.punct p) 1
  | none =>
    match Punct.ofChar? c with
    | some p => .token (.punct p) 0
    | none => .fault .unexpectedCharacter [c]

/-- What a slash opens: a line comment, a block comment if it ends, or the operator. -/
def ofSlash (rest : List Char) : Piece :=
  match rest with
  | [] => .token (.punct .slash) 0
  | d :: inside =>
    if d = '/' then .skip (1 + (inside.takeWhile (· != '\n')).length)
    else if d = '*' then
      match blockCommentEnd? inside with
      | some n => .skip (1 + n)
      -- an opening that is never closed opens nothing: the slash stands for itself
      | none => .token (.punct .slash) 0
    else .token (.punct .slash) 0

/-- The longest piece at the front of the text `c :: rest`. -/
def front (c : Char) (rest : List Char) : Piece :=
  if c = '\n' then .skip 0
  else if isBlank c then .skip (rest.takeWhile isBlank).length
  else if c.isDigit then
    let more := rest.takeWhile Char.isDigit
    ofDigits (c :: more) more.length
  else if isNameStart c then
    let more := rest.takeWhile isNamePart
    ofWord (c :: more) more.length
  else if c = '\x27' then ofCharLiteral (Quoted.read '\x27' rest)
  else if c = '\x22' then ofStringLiteral (Quoted.read '\x22' rest)
  else if c = '/' then ofSlash rest
  else ofPunct c rest

end Piece

/-! ## Whole texts -/

/-- Where a scan ended. -/
inductive Ending where
  /-- At the end of the text. -/
  | complete (pos : Position)
  /-- At the first lexical error. -/
  | failed (e : LexError)
  deriving DecidableEq, Repr

/-- The tokens of a text up to its end, or up to the first lexical error. -/
structure Scanned where
  lexemes : List Lexeme
  ending : Ending
  deriving DecidableEq, Repr

/-- Puts a lexeme in front of what was scanned after it. -/
def Scanned.cons (l : Lexeme) (s : Scanned) : Scanned :=
  { s with lexemes := l :: s.lexemes }

/-- Scans a text from position `pos` on; the first `pending` characters belong to a piece that was
dealt with when it began. -/
def scan : (pending : Nat) → (pos : Position) → List Char → Scanned
  | _, pos, [] => ⟨[], .complete pos⟩
  | pending + 1, pos, c :: rest => scan pending (pos.advance c) rest
  | 0, pos, c :: rest =>
    match Piece.front c rest with
    | .skip more => scan more (pos.advance c) rest
    -- the first character is taken here, the `more` after it one by one
    | .token t more => (scan more (pos.advance c) rest).cons ⟨t, pos⟩
    | .fault fault slice => ⟨[], .failed (.ofFault fault slice pos)⟩

/-- The scan of a whole text. -/
def scanText (source : String) : Scanned :=
  scan 0 .start source.toList

/-- The lexemes of a scan, closed by the end of the input if the scan got there. -/
def Scanned.stream (s : Scanned) : List Lexeme :=
  match s.ending with
  | .complete pos => s.lexemes ++ [⟨.endOfInput, pos⟩]
  | .failed _ => s.lexemes

/-- The tokens of a text, closed by the end of the input, or its first lexical error. -/
def tokenize (source : String) : Except LexError (List Lexeme) :=
  let scanned := scanText source
  match scanned.ending with
  | .complete _ => .ok scanned.stream
  | .failed e => .error e

end Primer
