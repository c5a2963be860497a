import Primer.Tree.Reader

/-!
# Reading expressions

Expressions have eight levels: assignment, which associates to the right and takes a variable on its
left, six levels of infix operators that associate to the left (`Expr.operatorsAt`), and prefix
operators. Below them stand literals, variables, calls and expressions in parentheses.

- `Expr.chain` reads one level of infix operators, `Expr.ladder` all of them.
- `Expr.reader` reads an expression. Its bound limits how deeply expressions nest.
- `readExpression` is the reader with its bound supplied.
-/

namespace Primer

/-- The infix operator that a token stands for. -/
def Token.binaryOp? : Token → Option BinaryOp
  | .punct .plus => some .add
  | .punct .minus => some .sub
  | .punct .star => some .mul
  | .punct .slash => some .div
  | .punct .percent => some .mod
  | .punct .less => some .less
  | .punct .greater => some .greater
  | .punct .lessEqual => some .lessEqual
  | .punct .greaterEqual => some .greaterEqual
  | .punct .equalEqual => some .equal
  | .punct .bangEqual => some .notEqual
  | .punct .andAnd => some .and
  | .punct .orOr => some .or
  | _ => none

/-- The prefix operator that a token stands for. -/
def Token.unaryOp? : Token → Option UnaryOp
  | .punct .minus => some .negate
  | .punct .bang => some .not
  | _ => none

/-- The constant that a token stands for. -/
def Token.literal? : Token → Option Literal
  | .integer n => some (.int n)
  | .char c => some (.char c)
  | .string s => some (.string s)
  | _ => none

namespace Expr

open Reader

/-- The infix operators of one level: `||`, `&&`, equality, comparison, sums and products. -/
def operatorsAt : (level : Nat) → List BinaryOp
  | 2 => [.or]
  | 3 => [.and]
  | 4 => [.equal, .notEqual]
  | 5 => [.less, .greater, .lessEqual, .greaterEqual]
  | 6 => [.add, .sub]
  | 7 => [.mul, .div, .mod]
  | _ => []

/-- The infix operator of the given level that a token stands for. -/
def operatorAt? (level : Nat) (t : Token) : Option BinaryOp :=
  t.binaryOp?.filter (operatorsAt level).contains

/-- Reads further operands of one level after `left`. -/
def chain (level : Nat) (operand : Reader Expr) : (bound : Nat) → (left : Expr) → Reader Expr
  | 0, _ => unfinished
  | bound + 1, left => do
    match ← take? (operatorAt? level) with
    | some (op, pos) =>
      let right ← operand
      -- what was read so far is the left operand, so operators associate to the left
      chain level operand bound (.binary op left right pos)
    | none => return left

/-- Reads an expression of the given levels of infix operators, loosest first, over `operand`. -/
def ladder (operand : Reader Expr) (bound : Nat) : (levels : List Nat) → Reader Expr
  | [] => operand
  | level :: tighter => do
    let left ← ladder operand bound tighter
    chain level (ladder operand bound tighter) bound left

/-- The levels of the infix operators, loosest first. -/
def levels : List Nat := [2, 3, 4, 5, 6, 7]

/-- Reads prefix operators and what they apply to. -/
def prefixed (primary : Reader Expr) : (bound : Nat) → Reader Expr
  | 0 => unfinished
  | bound + 1 => do
    match ← take? Token.unaryOp? with
    | some (op, pos) =>
      let operand ← prefixed primary bound
      return .unary op operand pos
    | none => primary

/-- Reads what may follow a name: the arguments of a call, or nothing. -/
def nameTail (expression : Reader Expr) (bound : Nat) (name : String) (pos : Position) :
    Reader Expr := do
  match ← accept (.punct .leftParen) with
  | some _ =>
    let args ← parenthesized expression bound
    return .call name args pos
  | none => return .var name pos

/-- Reads a literal, a variable, a call or an expression in parentheses. -/
def primary (expression : Reader Expr) (bound : Nat) : Reader Expr := do
  match ← take? Token.literal? with
  | some (value, pos) => return .literal value pos
  | none =>
    match ← peek with
    | some (.identifier name) =>
      let pos ← here
      skip
      nameTail expression bound name pos
    | some (.punct .leftParen) =>
      skip
      -- parentheses leave no trace in the tree
      let inner ← expression
      let _ ← punct .rightParen .closingParen
      return inner
    | _ => reject .expression

/-- Turns `target = value` into an assignment, if the target is a variable. -/
def assignTo (target value : Expr) (pos : Position) : Reader Expr :=
  match target with
  | .var name _ => return .assign name value pos
  | _ => fail (.invalidTarget pos)

/-- Reads an expression. -/
def reader : (bound : Nat) → Reader Expr
  | 0 => unfinished
  | bound + 1 => do
    let target ← ladder (prefixed (primary (reader bound) (bound + 1)) (bound + 1)) (bound + 1) levels
    match ← accept (.punct .equals) with
    | some pos =>
      let value ← reader bound
      -- a target that cannot be assigned to is refused only after the value was read
      assignTo target value pos
    | none => return target

end Expr

/-- Reads one expression from the front of a token list. -/
def readExpression (tokens : List Lexeme) : Except SyntaxError (Expr × List Lexeme) :=
  Reader.read Expr.reader tokens

end Primer
