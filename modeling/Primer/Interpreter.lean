import Primer.Machine.Run
import Primer.Token.Scan
import Primer.Tree.Program
import Primer.Typing.Program

/-!
# From source text to a run

A text goes through four stages, each of which may stop it: it is cut into tokens, read as a tree,
checked, and run. `Failure` says which stage stopped it and why.
-/

namespace Primer

/-- What stopped a source text. -/
inductive Failure where
  | lexical (e : LexError)
  | syntactic (e : SyntaxError)
  | semantic (es : List SemanticError)
  | runtime (e : RuntimeError)
  deriving DecidableEq, Repr

namespace Failure

/-- The name of the stage that failed. -/
def stage : Failure → String
  | .lexical _ => "lexer"
  | .syntactic _ => "parser"
  | .semantic _ => "checker"
  | .runtime _ => "evaluator"

/-- The exit code of the command for a failure. -/
def exitCode : Failure → Nat
  | .lexical _ => 2
  | .syntactic _ => 3
  | .semantic _ => 4
  | .runtime _ => 5

/-- The wording of a failure. -/
def message : Failure → String
  | .lexical e => e.message
  | .syntactic e => e.message
  | .semantic es => SemanticError.messages es
  | .runtime e => e.message

end Failure

/-- The tokens of a source text. -/
def tokenizeSource (source : String) : Except Failure (List Lexeme) :=
  (tokenize source).mapError .lexical

/-- The tree of a source text. -/
def parseSource (source : String) : Except Failure Program := do
  let tokens ← tokenizeSource source
  (parse tokens).mapError .syntactic

/-- A program that keeps the static rules, with its cross-reference table. -/
structure CheckedProgram where
  program : Program
  table : CrossReference

/-- The tree of a source text that keeps the static rules. -/
def checkSource (source : String) : Except Failure CheckedProgram := do
  let program ← parseSource source
  let table ← (check program).mapError .semantic
  return ⟨program, table⟩

/-- One expression from the front of a source text, and the tokens after it. -/
def parseExpression (source : String) : Except Failure (Expr × List Lexeme) := do
  let tokens ← tokenizeSource source
  (readExpression tokens).mapError .syntactic

/-- One item of a block from the front of a source text, and the tokens after it. -/
def parseBlockItem (source : String) : Except Failure (Stmt × List Lexeme) := do
  let tokens ← tokenizeSource source
  (readBlockItem tokens).mapError .syntactic

end Primer
