import Primer.Source.Escape
import Primer.Source.Position
import Primer.Value.Ty

/-!
# Tokens

A token is a keyword, a punctuator, a literal or an identifier; comments, line breaks and the end of
the input have kinds of their own, which a token list may hold although scanning only ever yields
the last of them.

- `Token.text` is the source text of a token, used in messages and token listings.
- `Keyword.ofText?`, `Punct.ofChar?` and `Punct.ofPair?` recognise the fixed tokens.
- `Lexeme` pairs a token with the position of its first character.
-/

namespace Primer

/-- The reserved words. The words for types carry the type they name. -/
inductive Keyword where
  | programWord
  | typeWord (type : Ty)
  | ifWord
  | elseWord
  | whileWord
  | forWord
  | switchWord
  | caseWord
  | defaultWord
  | breakWord
  | returnWord
  deriving DecidableEq, Repr

namespace Keyword

/-- The spelling of a reserved word. -/
def text : Keyword → String
  | .programWord => "Program"
  | .typeWord t => t.text
  | .ifWord => "if"
  | .elseWord => "else"
  | .whileWord => "while"
  | .forWord => "for"
  | .switchWord => "switch"
  | .caseWord => "case"
  | .defaultWord => "default"
  | .breakWord => "break"
  | .returnWord => "return"

/-- Every reserved word, once. -/
def all : List Keyword :=
  [.programWord, .typeWord .void, .typeWord .int, .typeWord .char, .typeWord .string, .ifWord,
    .elseWord, .whileWord, .forWord, .switchWord, .caseWord, .defaultWord, .breakWord, .returnWord]

/-- The reserved word spelled `word`. -/
def ofText? (word : String) : Option Keyword :=
  all.find? fun k => k.text == word

end Keyword

/-- Operators and delimiters. -/
inductive Punct where
  | plus
  | minus
  | star
  | slash
  | percent
  | equals
  | equalEqual
  | bangEqual
  | less
  | lessEqual
  | greater
  | greaterEqual
  | andAnd
  | orOr
  | bang
  | leftParen
  | rightParen
  | leftBrace
  | rightBrace
  | leftBracket
  | rightBracket
  | semicolon
  | comma
  | colon
  deriving DecidableEq, Repr

namespace Punct

/-- The spelling of an operator or delimiter. -/
def text : Punct → String
  | .plus => "+"
  | .minus => "-"
  | .star => "*"
  | .slash => "/"
  | .percent => "%"
  | .equals => "="
  | .equalEqual => "=="
  | .bangEqual => "!="
  | .less => "<"
  | .lessEqual => "<="
  | .greater => ">"
  | .greaterEqual => ">="
  | .andAnd => "&&"
  | .orOr => "||"
  | .bang => "!"
  | .leftParen => "("
  | .rightParen => ")"
  | .leftBrace => "\x7b"
  | .rightBrace => "\x7d"
  | .leftBracket => "["
  | .rightBracket => "]"
  | .semicolon => ";"
  | .comma => ","
  | .colon => ":"

/-- The operator or delimiter made of the single character `c`. -/
def ofChar? (c : Char) : Option Punct :=
  match c with
  | '+' => some .plus
  | '-' => some .minus
  | '*' => some .star
  | '/' => some .slash
  | '%' => some .percent
  | '=' => some .equals
  | '<' => some .less
  | '>' => some .greater
  | '!' => some .bang
  | '(' => some .leftParen
  | ')' => some .rightParen
  | '\x7b' => some .leftBrace
  | '\x7d' => some .rightBrace
  | '[' => some .leftBracket
  | ']' => some .rightBracket
  | ';' => some .semicolon
  | ',' => some .comma
  | ':' => some .colon
  | _ => none

/-- The operator made of the two characters `c` and `d`. -/
def ofPair? (c d : Char) : Option Punct :=
  match c, d with
  | '=', '=' => some .equalEqual
  | '!', '=' => some .bangEqual
  | '<', '=' => some .lessEqual
  | '>', '=' => some .greaterEqual
  | '&', '&' => some .andAnd
  | '|', '|' => some .orOr
  | _, _ => none

end Punct

/-- The smallest meaningful pieces of a source text. -/
inductive Token where
  | integer (n : Int64)
  | char (c : UInt8)
  | string (s : String)
  | identifier (name : String)
  | keyword (k : Keyword)
  | punct (p : Punct)
  | comment
  | blockComment
  | newline
  | endOfInput
  deriving DecidableEq, Repr

namespace Token

/-- The source text of a token. Kinds without a text of their own are named instead. -/
def text : Token → String
  | .integer n => toString n.toInt
  | .char c => Escape.quotedByte c
  | .string s => Escape.quotedString s
  | .identifier name => name
  | .keyword k => k.text
  | .punct p => p.text
  | .comment => "comment"
  | .blockComment => "comment"
  | .newline => "newline"
  | .endOfInput => "end of input"

/-- The type that the token names. -/
def type? : Token → Option Ty
  | .keyword (.typeWord t) => some t
  | _ => none

end Token

/-- A token and the position of its first character. -/
structure Lexeme where
  token : Token
  pos : Position
  deriving DecidableEq, Repr

end Primer
