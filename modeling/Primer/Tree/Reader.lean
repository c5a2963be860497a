import Primer.Tree.Basic
import Primer.Tree.Error

/-!
# Readers of token lists

A reader takes what it understands from the front of a token list. It looks at most one token ahead
and never goes back, so its first failure is the answer.

- `Reading` is the answer of a reader: a result with the tokens left over, a syntax error, `overflow`
  if it broke down over a number that does not fit, or `unfinished` if a recursive reader was given too
  small a bound.
- `Reader` is the monad of readers.
- `Reader.read?` runs a bounded reader with a bound above the number of tokens. Every round of a
  recursive reader takes a token, so this bound is never used up.
-/

namespace Primer

/-- The answer of a reader. -/
inductive Reading (α : Type) where
  | ok (a : α) (rest : List Lexeme)
  | error (e : SyntaxError)
  /-- A number did not fit, and there is neither a result nor an error. -/
  | overflow
  /-- The bound on the rounds of a recursive reader was too small. -/
  | unfinished

/-- A reader of the front of a token list. -/
def Reader (α : Type) : Type :=
  List Lexeme → Reading α

namespace Reader

variable {α β : Type}

/-- Reads nothing. -/
@[inline] protected def pure (a : α) : Reader α :=
  fun tokens => .ok a tokens

/-- Reads with `x`, and then with `f` of its result. -/
@[inline] protected def bind (x : Reader α) (f : α → Reader β) : Reader β :=
  fun tokens =>
    match x tokens with
    | .ok a rest => f a rest
    | .error e => .error e
    | .overflow => .overflow
    | .unfinished => .unfinished

instance : Monad Reader where
  pure := Reader.pure
  bind := Reader.bind

/-- Gives up with an error. -/
def fail (e : SyntaxError) : Reader α :=
  fun _ => .error e

/-- Breaks down over a number that does not fit. -/
def overflow : Reader α :=
  fun _ => .overflow

/-- The answer of a recursive reader whose bound is used up. -/
def unfinished : Reader α :=
  fun _ => .unfinished

/-! ## Single tokens -/

/-- The error for finding the front of `tokens` where something else was expected. A list that ran
out without an end marker counts as ended at the start of the text. -/
def unexpected (expected : Expected) : List Lexeme → SyntaxError
  | [] => .unexpectedEnd expected .start
  | l :: _ =>
    if l.token = .endOfInput then .unexpectedEnd expected l.pos
    else .unexpectedToken expected l.token l.pos

/-- Gives up at the next token. -/
def reject (expected : Expected) : Reader α :=
  fun tokens => .error (unexpected expected tokens)

/-- The next token, which is left in place. -/
def peek : Reader (Option Token) :=
  fun tokens => .ok (tokens.head?.map Lexeme.token) tokens

/-- The position of the next token, or the start of the text if there is none. -/
def here : Reader Position :=
  fun tokens => .ok ((tokens.head?.map Lexeme.pos).getD .start) tokens

/-- Drops the next token. -/
def skip : Reader Unit :=
  fun tokens => .ok () tokens.tail

/-- Takes the next token if `choose` makes something of it, and gives its position too. -/
def take? (choose : Token → Option α) : Reader (Option (α × Position)) :=
  fun tokens =>
    match tokens with
    | [] => .ok none []
    | l :: rest =>
      match choose l.token with
      | some a => .ok (some (a, l.pos)) rest
      | none => .ok none tokens

/-- Takes the next token if `choose` makes something of it, and gives up otherwise. -/
def take (choose : Token → Option α) (expected : Expected) : Reader (α × Position) := do
  match ← take? choose with
  | some found => return found
  | none => reject expected

/-- Takes the next token if it is `t`, and says whether it was. -/
def accept (t : Token) : Reader (Option Position) := do
  match ← take? fun u => if u = t then some () else none with
  | some (_, pos) => return some pos
  | none => return none

/-- Takes the next token, which has to be `t`. -/
def expect (t : Token) (expected : Expected) : Reader Position := do
  match ← accept t with
  | some pos => return pos
  | none => reject expected

/-- Takes a punctuator. -/
def punct (p : Punct) (expected : Expected) : Reader Position :=
  expect (.punct p) expected

/-- Takes an identifier. -/
def identifier (expected : Expected) : Reader (String × Position) :=
  take (fun
    | .identifier name => some name
    | _ => none) expected

/-- Takes the name of a type. -/
def typeName : Reader (Ty × Position) :=
  take Token.type? .type

/-- Whether the next token names a type. -/
def atType : Reader Bool := do
  match ← peek with
  | some t => return t.type?.isSome
  | none => return false

/-! ## Repetition -/

/-- Items separated by commas and closed by a parenthesis, at least one. -/
def commaList (item : Reader α) : (bound : Nat) → Reader (List α)
  | 0 => unfinished
  | bound + 1 => do
    let first ← item
    match ← accept (.punct .comma) with
    | some _ =>
      let rest ← commaList item bound
      return first :: rest
    | none =>
      let _ ← punct .rightParen .commaOrParen
      return [first]

/-- Items separated by commas and closed by a parenthesis, possibly none. -/
def parenthesized (item : Reader α) (bound : Nat) : Reader (List α) := do
  match ← accept (.punct .rightParen) with
  | some _ => return []
  | none => commaList item bound

/-- Items as long as the next token satisfies `more`. -/
def manyWhile (more : Token → Bool) (item : Reader α) : (bound : Nat) → Reader (List α)
  | 0 => unfinished
  | bound + 1 => do
    match ← peek with
    | some t =>
      if more t then
        let first ← item
        let rest ← manyWhile more item bound
        return first :: rest
      else return []
    | none => return []

/-! ## Running a reader -/

/-- Runs a bounded reader on a token list. There is no answer if it breaks down. -/
def read? (reader : (bound : Nat) → Reader α) (tokens : List Lexeme) :
    Option (Except SyntaxError (α × List Lexeme)) :=
  match reader (tokens.length + 1) tokens with
  | .ok a rest => some (.ok (a, rest))
  | .error e => some (.error e)
  | .overflow => none
  -- does not happen, as every round takes a token
  | .unfinished => some (.error (unexpected .expression []))

/-- Runs a bounded reader that does not break down. -/
def read (reader : (bound : Nat) → Reader α) (tokens : List Lexeme) :
    Except SyntaxError (α × List Lexeme) :=
  (read? reader tokens).getD (.error (unexpected .expression []))

end Reader

end Primer
