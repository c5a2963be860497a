import Primer.Tree.Statement

/-!
# Reading programs

A program is a header and a list of functions and global variables. It is read from a whole token list;
what stands after the end marker is not looked at.

- `parseIn` reads a program in either kind of arithmetic. In the checked one there may be no answer.
- `parse` reads in wrapping arithmetic, where there always is one. Texts hold no negative numbers, so for
  their tokens the arithmetic makes no difference.
-/

namespace Primer

open Reader

/-- Reads a function parameter. -/
def Param.reader : Reader Param := do
  let (type, pos) ← typeName
  let (name, _) ← identifier .parameterName
  return ⟨name, type, pos⟩

/-- Reads the rest of a function after the parenthesis that opens its parameters. -/
def FunctionDef.tail (arith : Arithmetic) (bound : Nat) (returns : Ty) (name : String)
    (pos : Position) : Reader FunctionDef := do
  let params ← parenthesized Param.reader bound
  let bodyPos ← punct .leftBrace .functionBody
  let body ← Stmt.blockTail (Stmt.itemReader arith bound) bound
  return { name, params, returns, body, bodyPos, pos }

/-- Reads a function or a global variable. -/
def Item.reader (arith : Arithmetic) (bound : Nat) : Reader Item := do
  let (type, pos) ← typeName
  let (name, _) ← identifier .itemName
  match ← accept (.punct .leftParen) with
  | some _ =>
    let f ← FunctionDef.tail arith bound type name pos
    return .function f
  | none =>
    let decl ← VarDecl.tail bound type name pos
    let _ ← punct .semicolon .semicolonAfterDeclaration
    return .global decl

/-- Reads a program up to the end marker. -/
def Program.reader (arith : Arithmetic) (bound : Nat) : Reader Program := do
  let pos ← expect (.keyword .programWord) .programHeader
  let (name, _) ← identifier .programName
  let _ ← punct .semicolon .semicolonAfterName
  let items ← manyWhile (fun t => t != .endOfInput) (Item.reader arith bound) bound
  return ⟨name, items, pos⟩

/-- The program that a token list spells, or its first syntax error. There is neither if the negative of
a case label is found not to fit. -/
def parseIn (arith : Arithmetic) (tokens : List Lexeme) : Option (Except SyntaxError Program) :=
  (Reader.read? (Program.reader arith) tokens).map (Except.map Prod.fst)

/-- The program that a token list spells, or its first syntax error. -/
def parse (tokens : List Lexeme) : Except SyntaxError Program :=
  (Reader.read (Program.reader .wrapping) tokens).map Prod.fst

end Primer
