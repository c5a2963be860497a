import Primer.Token.Basic
import Primer.Tree.Printer

/-!
# The tokens of a printed tree

A tree is printed by writing tokens with blanks and line breaks between them. These are the tokens,
without the layout: `Expr.tokens`, `Stmt.tokens` and `Program.tokens` follow the printing functions
clause by clause.
-/

namespace Primer

/-! ## Pieces -/

/-- The punctuator of a prefix operator. -/
def UnaryOp.punct : UnaryOp → Punct
  | .negate => .minus
  | .not => .bang

/-- The punctuator of an infix operator. -/
def BinaryOp.punct : BinaryOp → Punct
  | .add => .plus
  | .sub => .minus
  | .mul => .star
  | .div => .slash
  | .mod => .percent
  | .less => .less
  | .greater => .greater
  | .lessEqual => .lessEqual
  | .greaterEqual => .greaterEqual
  | .equal => .equalEqual
  | .notEqual => .bangEqual
  | .and => .andAnd
  | .or => .orOr

theorem UnaryOp.text_punct (op : UnaryOp) : op.punct.text = op.text := by
  cases op <;> rfl

theorem BinaryOp.text_punct (op : BinaryOp) : op.punct.text = op.text := by
  cases op <;> rfl

/-- Token lists separated by commas. -/
def commaTokens : List (List Token) → List Token
  | [] => []
  | [ts] => ts
  | ts :: rest => ts ++ .punct .comma :: commaTokens rest

/-- Tokens in parentheses, if `wrap` holds. -/
def wrapTokens (wrap : Bool) (ts : List Token) : List Token :=
  if wrap then .punct .leftParen :: (ts ++ [.punct .rightParen]) else ts

/-- The token of a literal. -/
def Literal.token : Literal → Token
  | .int n => .integer n
  | .char c => .char c
  | .string s => .string s

/-- The tokens of a case constant. -/
def CaseLabel.tokens : CaseLabel → List Token
  | .int n => if n.toInt < 0 then [.punct .minus, .integer (-n)] else [.integer n]
  | .char c => [.char c]

/-! ## Expressions -/

mutual

/-- The tokens of an expression with the fewest parentheses. -/
def Expr.tokens : Expr → List Token
  | .literal value _ => [value.token]
  | .var name _ => [.identifier name]
  | .assign name value _ => .identifier name :: .punct .equals :: value.tokens
  | .unary op operand _ =>
    .punct op.punct :: wrapTokens (operand.precedence < unaryPrecedence) operand.tokens
  | .binary op left right _ =>
    wrapTokens (left.precedence < op.precedence) left.tokens ++
      .punct op.punct :: wrapTokens (right.precedence ≤ op.precedence) right.tokens
  | .call name args _ =>
    .identifier name :: .punct .leftParen ::
      (commaTokens (Expr.tokenLists args) ++ [.punct .rightParen])

/-- The tokens of a list of expressions. -/
def Expr.tokenLists : List Expr → List (List Token)
  | [] => []
  | e :: es => e.tokens :: Expr.tokenLists es

end

/-! ## Statements -/

/-- The tokens of a declaration without its semicolon. -/
def VarDecl.tokens (d : VarDecl) : List Token :=
  match d.init with
  | some e => .keyword (.typeWord d.type) :: .identifier d.name :: .punct .equals :: e.tokens
  | none => [.keyword (.typeWord d.type), .identifier d.name]

/-- The tokens of the first clause of a `for` header. -/
def ForInit.tokens : ForInit → List Token
  | .declare decl => decl.tokens
  | .eval e => e.tokens

/-- The tokens of a clause that may be left out. -/
def clauseTokens : Option Expr → List Token
  | some e => e.tokens
  | none => []

/-- The tokens of the line that opens a case group. -/
def labelTokens : Option CaseLabel → List Token
  | some label => .keyword .caseWord :: (label.tokens ++ [.punct .colon])
  | none => [.keyword .defaultWord, .punct .colon]

/-- The tokens of a header with a condition in parentheses. -/
def headerTokens (keyword : Keyword) (cond : Expr) : List Token :=
  .keyword keyword :: .punct .leftParen :: (cond.tokens ++ [.punct .rightParen])

mutual

/-- The tokens of a statement. -/
def Stmt.tokens : Stmt → List Token
  | .declare decl => decl.tokens ++ [.punct .semicolon]
  | .eval e _ => e.tokens ++ [.punct .semicolon]
  | .block body _ => .punct .leftBrace :: (Stmt.lineTokens body ++ [.punct .rightBrace])
  | .branch cond onTrue none _ => headerTokens .ifWord cond ++ onTrue.tokens
  | .branch cond onTrue (some onFalse) _ =>
    headerTokens .ifWord cond ++ onTrue.tokens ++ .keyword .elseWord :: onFalse.tokens
  | .whileLoop cond body _ => headerTokens .whileWord cond ++ body.tokens
  | .forLoop init cond step body _ =>
    .keyword .forWord :: .punct .leftParen :: ((init.map ForInit.tokens).getD [] ++
      .punct .semicolon :: (clauseTokens cond ++
        .punct .semicolon :: (clauseTokens step ++ .punct .rightParen :: body.tokens)))
  | .switch scrutinee groups _ =>
    headerTokens .switchWord scrutinee ++
      .punct .leftBrace :: (CaseGroup.lineTokens groups ++ [.punct .rightBrace])
  | .ret value _ => .keyword .returnWord :: (clauseTokens value ++ [.punct .semicolon])
  | .brk _ => [.keyword .breakWord, .punct .semicolon]

/-- The tokens of statements, one after the other. -/
def Stmt.lineTokens : List Stmt → List Token
  | [] => []
  | s :: rest => s.tokens ++ Stmt.lineTokens rest

/-- The tokens of case groups. -/
def CaseGroup.lineTokens : List CaseGroup → List Token
  | [] => []
  | .mk label body _ :: rest =>
    labelTokens label ++ Stmt.lineTokens body ++ CaseGroup.lineTokens rest

end

/-! ## Programs -/

/-- The tokens of a parameter. -/
def Param.tokens (p : Param) : List Token :=
  [.keyword (.typeWord p.type), .identifier p.name]

/-- The tokens of a function. -/
def FunctionDef.tokens (f : FunctionDef) : List Token :=
  .keyword (.typeWord f.returns) :: .identifier f.name :: .punct .leftParen ::
    (commaTokens (f.params.map Param.tokens) ++ .punct .rightParen ::
      .punct .leftBrace :: (Stmt.lineTokens f.body ++ [.punct .rightBrace]))

/-- The tokens of a top-level item. -/
def Item.tokens : Item → List Token
  | .function f => f.tokens
  | .global decl => decl.tokens ++ [.punct .semicolon]

/-- The tokens of a program. -/
def Program.tokens (p : Program) : List Token :=
  .keyword .programWord :: .identifier p.name :: .punct .semicolon :: p.items.flatMap Item.tokens

end Primer
