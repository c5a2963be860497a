import Primer.Tree.Expression

/-!
# Reading statements

A statement is a block, a control statement or an expression with a semicolon. Declarations are not
statements: they are read as items of a block, where a type name announces them, and a type name
anywhere else is refused.

A case label may be a negated number, and the least number has no negative. What comes of negating it
depends on the arithmetic that the readers are built with.

- `Arithmetic` tells the two kinds apart.
- `Stmt.reader` reads a statement, `Stmt.itemReader` an item of a block. The bound limits how deeply
  statements nest and how long a block may be.
- `readBlockItem` is the item reader with its bound supplied.
-/

namespace Primer

/-- What becomes of results that do not fit into 64 bits. -/
inductive Arithmetic where
  /-- They wrap around. -/
  | wrapping
  /-- They are noticed, and nothing can be done about them. -/
  | checked
  deriving DecidableEq, Repr

/-- The negative of a number, unless it is found not to fit. -/
def Arithmetic.negate? : Arithmetic → Int64 → Option Int64
  | .wrapping, n => some (-n)
  | .checked, n => if n = Int64.minValue then none else some (-n)

namespace VarDecl

open Reader

/-- Reads what may follow the name of a variable: an initial value, or nothing. -/
def tail (bound : Nat) (type : Ty) (name : String) (pos : Position) : Reader VarDecl := do
  match ← accept (.punct .equals) with
  | some _ =>
    let e ← Expr.reader bound
    return ⟨type, name, some e, pos⟩
  | none => return ⟨type, name, none, pos⟩

/-- Reads a declaration without its semicolon. -/
def reader (bound : Nat) : Reader VarDecl := do
  let (type, pos) ← typeName
  let (name, _) ← identifier .variableName
  tail bound type name pos

end VarDecl

namespace Stmt

open Reader

/-- An expression unless the next token is the punctuator `p`, which is left in place. -/
def exprUnless (bound : Nat) (p : Punct) : Reader (Option Expr) := do
  if (← peek) = some (.punct p) then return none
  else
    let e ← Expr.reader bound
    return some e

/-- The condition in parentheses after `keyword`. -/
def condition (bound : Nat) (keyword : Keyword) : Reader Expr := do
  let _ ← punct .leftParen (.parenAfter keyword)
  let e ← Expr.reader bound
  let _ ← punct .rightParen (.parenAfterCondition keyword)
  return e

/-- Reads the items of a block up to its closing brace. -/
def blockTail (item : Reader Stmt) : (bound : Nat) → Reader (List Stmt)
  | 0 => unfinished
  | bound + 1 => do
    match ← peek with
    | some (.punct .rightBrace) =>
      skip
      return []
    | some .endOfInput => reject .blockEnd
    | none => reject .blockEnd
    | some _ =>
      let first ← item
      let rest ← blockTail item bound
      return first :: rest

/-- Reads an item of a block: a declaration with its semicolon, or a statement. -/
def blockItem (statement : Reader Stmt) (bound : Nat) : Reader Stmt := do
  if ← atType then
    let decl ← VarDecl.reader bound
    let _ ← punct .semicolon .semicolonAfterDeclaration
    return .declare decl
  else statement

/-- Reads the rest of an `if` statement. -/
def branchTail (statement : Reader Stmt) (bound : Nat) (pos : Position) : Reader Stmt := do
  let cond ← condition bound .ifWord
  let onTrue ← statement
  -- an `else` goes to the nearest `if`: this one, unless its own branch took it
  match ← accept (.keyword .elseWord) with
  | some _ =>
    let onFalse ← statement
    return .branch cond onTrue (some onFalse) pos
  | none => return .branch cond onTrue none pos

/-- Reads the rest of a `while` statement. -/
def whileTail (statement : Reader Stmt) (bound : Nat) (pos : Position) : Reader Stmt := do
  let cond ← condition bound .whileWord
  let body ← statement
  return .whileLoop cond body pos

/-- Reads the first clause of a `for` header. -/
def forInit (bound : Nat) : Reader (Option ForInit) := do
  if ← atType then
    let decl ← VarDecl.reader bound
    return some (.declare decl)
  else
    let e ← exprUnless bound .semicolon
    return e.map .eval

/-- Reads the rest of a `for` statement. -/
def forTail (statement : Reader Stmt) (bound : Nat) (pos : Position) : Reader Stmt := do
  let _ ← punct .leftParen (.parenAfter .forWord)
  let init ← forInit bound
  let _ ← punct .semicolon .semicolonAfterForInit
  let cond ← exprUnless bound .semicolon
  let _ ← punct .semicolon .semicolonAfterForCondition
  let step ← exprUnless bound .rightParen
  let _ ← punct .rightParen .parenAfterForClauses
  let body ← statement
  return .forLoop init cond step body pos

/-- The number that a token stands for. -/
def integer? : Token → Option Int64
  | .integer n => some n
  | _ => none

/-- The label for a negated number. The number of a token may be any, but those of a text are not
negative, so that their negatives fit. -/
def negatedLabel (arith : Arithmetic) (n : Int64) : Reader CaseLabel :=
  match arith.negate? n with
  | some negative => return .int negative
  | none => overflow

/-- Reads the constant of a case label. -/
def caseLabel (arith : Arithmetic) : Reader CaseLabel := do
  match ← peek with
  | some (.integer n) =>
    skip
    return .int n
  | some (.char c) =>
    skip
    return .char c
  | some (.punct .minus) =>
    skip
    let (n, _) ← take integer? .integerAfterMinus
    negatedLabel arith n
  | _ => reject .caseConstant

/-- Tokens that do not end the statements of a case group. -/
def inGroup : Token → Bool
  | .keyword .caseWord | .keyword .defaultWord | .punct .rightBrace | .endOfInput => false
  | _ => true

/-- Reads the statements of a case group after its label. -/
def groupTail (statement : Reader Stmt) (bound : Nat) (label : Option CaseLabel) (pos : Position) :
    Reader CaseGroup := do
  let _ ← punct .colon .colonAfterLabel
  let body ← manyWhile inGroup statement bound
  return .mk label body pos

/-- Reads the case groups of a `switch` up to its closing brace. -/
def groups (arith : Arithmetic) (statement : Reader Stmt) : (bound : Nat) → Reader (List CaseGroup)
  | 0 => unfinished
  | bound + 1 => do
    let pos ← here
    match ← peek with
    | some (.keyword .caseWord) =>
      skip
      let label ← caseLabel arith
      let first ← groupTail statement (bound + 1) (some label) pos
      let rest ← groups arith statement bound
      return first :: rest
    | some (.keyword .defaultWord) =>
      skip
      let first ← groupTail statement (bound + 1) none pos
      let rest ← groups arith statement bound
      return first :: rest
    | some (.punct .rightBrace) =>
      skip
      return []
    | _ => reject .caseOrEnd

/-- Reads the rest of a `switch` statement. -/
def switchTail (arith : Arithmetic) (statement : Reader Stmt) (bound : Nat) (pos : Position) :
    Reader Stmt := do
  let scrutinee ← condition bound .switchWord
  let _ ← punct .leftBrace .switchBody
  let cases ← groups arith statement bound
  return .switch scrutinee cases pos

/-- Reads the rest of a `return` statement. -/
def returnTail (bound : Nat) (pos : Position) : Reader Stmt := do
  let value ← exprUnless bound .semicolon
  let _ ← punct .semicolon .semicolonAfterReturn
  return .ret value pos

/-- Reads the rest of a `break` statement. -/
def breakTail (pos : Position) : Reader Stmt := do
  let _ ← punct .semicolon .semicolonAfterBreak
  return .brk pos

/-- Reads an expression used as a statement. -/
def evalStatement (bound : Nat) (pos : Position) : Reader Stmt := do
  let e ← Expr.reader bound
  let _ ← punct .semicolon .semicolonAfterExpression
  return .eval e pos

/-- Reads a statement. -/
def reader (arith : Arithmetic) : (bound : Nat) → Reader Stmt
  | 0 => unfinished
  | bound + 1 => do
    let pos ← here
    match ← peek with
    | some (.keyword (.typeWord _)) => fail (.declarationNotAllowed pos)
    | some (.punct .leftBrace) =>
      skip
      let body ← blockTail (blockItem (reader arith bound) (bound + 1)) (bound + 1)
      return .block body pos
    | some (.keyword .ifWord) =>
      skip
      branchTail (reader arith bound) (bound + 1) pos
    | some (.keyword .whileWord) =>
      skip
      whileTail (reader arith bound) (bound + 1) pos
    | some (.keyword .forWord) =>
      skip
      forTail (reader arith bound) (bound + 1) pos
    | some (.keyword .switchWord) =>
      skip
      switchTail arith (reader arith bound) (bound + 1) pos
    | some (.keyword .returnWord) =>
      skip
      returnTail (bound + 1) pos
    | some (.keyword .breakWord) =>
      skip
      breakTail pos
    | _ => evalStatement (bound + 1) pos

/-- Reads an item of a block. -/
def itemReader (arith : Arithmetic) (bound : Nat) : Reader Stmt :=
  blockItem (reader arith bound) bound

end Stmt

/-- Reads one item of a block from the front of a token list, in wrapping arithmetic. -/
def readBlockItem (tokens : List Lexeme) : Except SyntaxError (Stmt × List Lexeme) :=
  Reader.read (Stmt.itemReader .wrapping) tokens

end Primer
