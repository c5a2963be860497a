import Primer.Tree.Basic

/-!
# Printing trees

Trees are printed in one canonical layout: four blanks of indentation, blocks on the line of the
statement they belong to, other bodies on a line of their own, and only the parentheses that the
shape of the tree needs. Reading the printed text gives the tree back, positions aside.

- `Expr.text`, `Stmt.text`, `Program.text` print the three levels.
- `Expr.precedence` decides about parentheses: an operand is wrapped when it binds more loosely than
  its place allows.
-/

namespace Primer

/-! ## Pieces -/

/-- Indentation of `depth` levels. -/
def indentation (depth : Nat) : String :=
  String.ofList (List.replicate (4 * depth) ' ')

/-- Texts separated by a comma and a blank. -/
def commaSeparated : List String → String
  | [] => ""
  | [s] => s
  | s :: rest => s ++ ", " ++ commaSeparated rest

/-- A text in parentheses, if `wrap` holds. -/
def parenthesize (wrap : Bool) (s : String) : String :=
  if wrap then "(" ++ s ++ ")" else s

/-- A literal as it is written. -/
def Literal.text : Literal → String
  | .int n => toString n.toInt
  | .char c => Escape.quotedByte c
  | .string s => Escape.quotedString s

/-- A case constant as it is written. -/
def CaseLabel.text : CaseLabel → String
  | .int n => toString n.toInt
  | .char c => Escape.quotedByte c

/-! ## Expressions -/

/-- How tightly a prefix operator binds. -/
def unaryPrecedence : Nat := 8

/-- How tightly an expression binds when it stands without parentheses. -/
def Expr.precedence : Expr → Nat
  | .assign .. => 1
  | .binary op .. => op.precedence
  | .unary .. => unaryPrecedence
  | .literal .. | .var .. | .call .. => 9

mutual

/-- An expression with the fewest parentheses. Infix operators associate to the left, so a right
operand of the same precedence is wrapped. -/
def Expr.text : Expr → String
  | .literal value _ => value.text
  | .var name _ => name
  | .assign name value _ => name ++ " = " ++ value.text
  | .unary op operand _ =>
    op.text ++ parenthesize (operand.precedence < unaryPrecedence) operand.text
  | .binary op left right _ =>
    parenthesize (left.precedence < op.precedence) left.text ++ " " ++ op.text ++ " " ++
      parenthesize (right.precedence ≤ op.precedence) right.text
  | .call name args _ => name ++ "(" ++ commaSeparated (Expr.texts args) ++ ")"

/-- The texts of a list of expressions. -/
def Expr.texts : List Expr → List String
  | [] => []
  | e :: es => e.text :: Expr.texts es

end

/-! ## Statements -/

/-- A declaration without its semicolon. -/
def VarDecl.text (d : VarDecl) : String :=
  match d.init with
  | some e => d.type.text ++ " " ++ d.name ++ " = " ++ e.text
  | none => d.type.text ++ " " ++ d.name

/-- The first clause of a `for` header. -/
def ForInit.text : ForInit → String
  | .declare decl => decl.text
  | .eval e => e.text

/-- A clause of a header after a semicolon, set off by a blank if it is there. -/
def clauseText : Option Expr → String
  | some e => " " ++ e.text
  | none => ""

/-- Statements whose text opens with a brace. -/
def Stmt.isBlock : Stmt → Bool
  | .block .. => true
  | _ => false

/-- Statements that continue an `else` on its own line. -/
def Stmt.followsElse : Stmt → Bool
  | .block .. | .branch .. => true
  | _ => false

/-- The depth of a body under a header at `depth`: unchanged if the body stays on that line. -/
def bodyDepth (inline : Bool) (depth : Nat) : Nat :=
  if inline then depth else depth + 1

/-- What leads from a header at `depth` to its body. -/
def bodyLead (inline : Bool) (depth : Nat) : String :=
  if inline then " " else "\n" ++ indentation (depth + 1)

/-- Where `else` goes after a branch: on the line of a closing brace, or on a line of its own. -/
def elseLead (afterBlock : Bool) (depth : Nat) : String :=
  if afterBlock then " else" else "\n" ++ indentation depth ++ "else"

/-- The line that opens a case group. -/
def labelText : Option CaseLabel → String
  | some label => "case " ++ label.text ++ ":\n"
  | none => "default:\n"

mutual

/-- A statement whose first line is already indented to `depth`, without a final line break. -/
def Stmt.text (depth : Nat) : Stmt → String
  | .declare decl => decl.text ++ ";"
  | .eval e _ => e.text ++ ";"
  | .block body _ => "\x7b\n" ++ Stmt.lines (depth + 1) body ++ indentation depth ++ "\x7d"
  | .branch cond onTrue none _ =>
    "if (" ++ cond.text ++ ")" ++ bodyLead onTrue.isBlock depth ++
      onTrue.text (bodyDepth onTrue.isBlock depth)
  | .branch cond onTrue (some onFalse) _ =>
    "if (" ++ cond.text ++ ")" ++ bodyLead onTrue.isBlock depth ++
      onTrue.text (bodyDepth onTrue.isBlock depth) ++ elseLead onTrue.isBlock depth ++
      bodyLead onFalse.followsElse depth ++ onFalse.text (bodyDepth onFalse.followsElse depth)
  | .whileLoop cond body _ =>
    "while (" ++ cond.text ++ ")" ++ bodyLead body.isBlock depth ++
      body.text (bodyDepth body.isBlock depth)
  | .forLoop init cond step body _ =>
    "for (" ++ (init.map ForInit.text).getD "" ++ ";" ++ clauseText cond ++ ";" ++
      clauseText step ++ ")" ++ bodyLead body.isBlock depth ++
      body.text (bodyDepth body.isBlock depth)
  | .switch scrutinee groups _ =>
    "switch (" ++ scrutinee.text ++ ") \x7b\n" ++ CaseGroup.lines (depth + 1) groups ++
      indentation depth ++ "\x7d"
  | .ret (some value) _ => "return " ++ value.text ++ ";"
  | .ret none _ => "return;"
  | .brk _ => "break;"

/-- Statements at `depth`, one after the other, each ended by a line break. -/
def Stmt.lines (depth : Nat) : List Stmt → String
  | [] => ""
  | s :: rest => indentation depth ++ s.text depth ++ "\n" ++ Stmt.lines depth rest

/-- Case groups at `depth`, their statements one level deeper. -/
def CaseGroup.lines (depth : Nat) : List CaseGroup → String
  | [] => ""
  | .mk label body _ :: rest =>
    indentation depth ++ labelText label ++ Stmt.lines (depth + 1) body ++
      CaseGroup.lines depth rest

end

/-! ## Programs -/

/-- A parameter as it is declared. -/
def Param.text (p : Param) : String :=
  p.type.text ++ " " ++ p.name

/-- A function, ended by a line break. -/
def FunctionDef.text (f : FunctionDef) : String :=
  f.returns.text ++ " " ++ f.name ++ "(" ++ commaSeparated (f.params.map Param.text) ++ ") " ++
    "\x7b\n" ++ Stmt.lines 1 f.body ++ "\x7d\n"

/-- A top-level item after an empty line. -/
def Item.text : Item → String
  | .function f => "\n" ++ f.text
  | .global decl => "\n" ++ decl.text ++ ";\n"

/-- A whole program. -/
def Program.text (p : Program) : String :=
  "Program " ++ p.name ++ ";\n" ++ String.join (p.items.map Item.text)

end Primer
