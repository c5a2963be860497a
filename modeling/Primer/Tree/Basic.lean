import Primer.Source.Escape
import Primer.Source.Position
import Primer.Value.Ty

/-!
# Syntax trees

A program is a named list of global variables and functions. Every node carries the position that
messages about it point at: an operator node that of its operator, a call or variable that of its
name, a declaration that of its type, a statement that of its first token.

Statement lists may hold declarations; the branches and bodies of control statements may not, so a
declaration is always inside a block, a function body, a `for` header or at the top level. The type
`Stmt` does not enforce this: it is a fact about the trees that are read from tokens.
-/

namespace Primer

/-! ## Expressions -/

/-- Constants written in the source. -/
inductive Literal where
  | int (n : Int64)
  | char (c : UInt8)
  | string (s : String)
  deriving DecidableEq, Repr

/-- The type of a constant. -/
def Literal.type : Literal → Ty
  | .int _ => .int
  | .char _ => .char
  | .string _ => .string

/-- Prefix operators. -/
inductive UnaryOp where
  | negate
  | not
  deriving DecidableEq, Repr

/-- The spelling of a prefix operator. -/
def UnaryOp.text : UnaryOp → String
  | .negate => "-"
  | .not => "!"

/-- Infix operators. -/
inductive BinaryOp where
  | add
  | sub
  | mul
  | div
  | mod
  | less
  | greater
  | lessEqual
  | greaterEqual
  | equal
  | notEqual
  | and
  | or
  deriving DecidableEq, Repr

namespace BinaryOp

/-- How tightly an infix operator binds: the larger, the tighter. -/
def precedence : BinaryOp → Nat
  | .or => 2
  | .and => 3
  | .equal | .notEqual => 4
  | .less | .greater | .lessEqual | .greaterEqual => 5
  | .add | .sub => 6
  | .mul | .div | .mod => 7

/-- Operators that compare two integers. -/
def isComparison : BinaryOp → Bool
  | .less | .greater | .lessEqual | .greaterEqual | .equal | .notEqual => true
  | .add | .sub | .mul | .div | .mod | .and | .or => false

/-- The spelling of an infix operator. -/
def text : BinaryOp → String
  | .add => "+"
  | .sub => "-"
  | .mul => "*"
  | .div => "/"
  | .mod => "%"
  | .less => "<"
  | .greater => ">"
  | .lessEqual => "<="
  | .greaterEqual => ">="
  | .equal => "=="
  | .notEqual => "!="
  | .and => "&&"
  | .or => "||"

end BinaryOp

/-- Expressions. -/
inductive Expr where
  | literal (value : Literal) (pos : Position)
  | var (name : String) (pos : Position)
  | assign (name : String) (value : Expr) (pos : Position)
  | unary (op : UnaryOp) (operand : Expr) (pos : Position)
  | binary (op : BinaryOp) (left right : Expr) (pos : Position)
  | call (name : String) (args : List Expr) (pos : Position)
  deriving Repr

/-- The position that messages about an expression point at. -/
def Expr.pos : Expr → Position
  | .literal _ pos => pos
  | .var _ pos => pos
  | .assign _ _ pos => pos
  | .unary _ _ pos => pos
  | .binary _ _ _ pos => pos
  | .call _ _ pos => pos

/-! ## Statements -/

/-- A variable declaration, with the expression that initialises it if there is one. -/
structure VarDecl where
  type : Ty
  name : String
  init : Option Expr
  pos : Position
  deriving Repr

/-- The first clause of a `for` header. -/
inductive ForInit where
  | declare (decl : VarDecl)
  | eval (e : Expr)
  deriving Repr

/-- The constant after `case`. -/
inductive CaseLabel where
  | int (n : Int64)
  | char (c : UInt8)
  deriving DecidableEq, Repr

/-- The type of a case constant. -/
def CaseLabel.type : CaseLabel → Ty
  | .int _ => .int
  | .char _ => .char

mutual

/-- Statements. -/
inductive Stmt where
  | declare (decl : VarDecl)
  | eval (e : Expr) (pos : Position)
  | block (body : List Stmt) (pos : Position)
  | branch (cond : Expr) (onTrue : Stmt) (onFalse : Option Stmt) (pos : Position)
  | whileLoop (cond : Expr) (body : Stmt) (pos : Position)
  | forLoop (init : Option ForInit) (cond step : Option Expr) (body : Stmt) (pos : Position)
  | switch (scrutinee : Expr) (groups : List CaseGroup) (pos : Position)
  | ret (value : Option Expr) (pos : Position)
  | brk (pos : Position)

/-- A label of a `switch` and the statements after it. The label `none` is the default. -/
inductive CaseGroup where
  | mk (label : Option CaseLabel) (body : List Stmt) (pos : Position)

end

/-- The position that messages about a statement point at. -/
def Stmt.pos : Stmt → Position
  | .declare decl => decl.pos
  | .eval _ pos => pos
  | .block _ pos => pos
  | .branch _ _ _ pos => pos
  | .whileLoop _ _ pos => pos
  | .forLoop _ _ _ _ pos => pos
  | .switch _ _ pos => pos
  | .ret _ pos => pos
  | .brk pos => pos

namespace CaseGroup

/-- The constant of a case group, or `none` for the default. -/
def label : CaseGroup → Option CaseLabel
  | .mk label _ _ => label

/-- The statements of a case group. -/
def body : CaseGroup → List Stmt
  | .mk _ body _ => body

/-- The position of the `case` or `default` that opens a group. -/
def pos : CaseGroup → Position
  | .mk _ _ pos => pos

end CaseGroup

/-! ## Programs -/

/-- A function parameter. -/
structure Param where
  name : String
  type : Ty
  pos : Position
  deriving Repr

/-- A function with its body. -/
structure FunctionDef where
  name : String
  params : List Param
  returns : Ty
  body : List Stmt
  /-- The position of the brace that opens the body. -/
  bodyPos : Position
  pos : Position

/-- A top-level item. -/
inductive Item where
  | function (f : FunctionDef)
  | global (decl : VarDecl)

/-- A whole program. -/
structure Program where
  name : String
  items : List Item
  pos : Position

namespace Program

/-- The functions of a program, in source order. -/
def functions (p : Program) : List FunctionDef :=
  p.items.filterMap fun
    | .function f => some f
    | .global _ => none

/-- The global variables of a program, in source order. -/
def globals (p : Program) : List VarDecl :=
  p.items.filterMap fun
    | .global decl => some decl
    | .function _ => none

/-- The first function with the given name. -/
def function? (p : Program) (name : String) : Option FunctionDef :=
  p.functions.find? fun f => f.name == name

end Program

end Primer
