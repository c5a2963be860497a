import Primer.Token.Basic

/-!
# Syntax errors

A token list stops being a program at one token. The error says what was expected there, what was
found, and where.
-/

namespace Primer

/-- What a reader expected to find next. -/
inductive Expected where
  | programHeader
  | programName
  | semicolonAfterName
  | type
  | itemName
  | parameterName
  | variableName
  | semicolonAfterDeclaration
  | functionBody
  | commaOrParen
  | blockEnd
  | parenAfter (keyword : Keyword)
  | parenAfterCondition (keyword : Keyword)
  | semicolonAfterForInit
  | semicolonAfterForCondition
  | parenAfterForClauses
  | switchBody
  | caseOrEnd
  | colonAfterLabel
  | caseConstant
  | integerAfterMinus
  | semicolonAfterReturn
  | semicolonAfterBreak
  | semicolonAfterExpression
  | expression
  | closingParen
  deriving DecidableEq, Repr

/-- The wording of an expectation. -/
def Expected.text : Expected → String
  | .programHeader => "'Program' header"
  | .programName => "program name"
  | .semicolonAfterName => "';' after program name"
  | .type => "a type"
  | .itemName => "function or variable name"
  | .parameterName => "parameter name"
  | .variableName => "variable name"
  | .semicolonAfterDeclaration => "';' after declaration"
  | .functionBody => "'\x7b' to start the function body"
  | .commaOrParen => "',' or ')'"
  | .blockEnd => "'\x7d' to close the block"
  | .parenAfter keyword => "'(' after '" ++ keyword.text ++ "'"
  | .parenAfterCondition keyword => "')' after the " ++ keyword.text ++ " condition"
  | .semicolonAfterForInit => "';' after the for initializer"
  | .semicolonAfterForCondition => "';' after the for condition"
  | .parenAfterForClauses => "')' after the for clauses"
  | .switchBody => "'\x7b' to start the switch body"
  | .caseOrEnd => "'case', 'default' or '\x7d'"
  | .colonAfterLabel => "':' after the case label"
  | .caseConstant => "an integer or character constant"
  | .integerAfterMinus => "an integer after '-'"
  | .semicolonAfterReturn => "';' after return"
  | .semicolonAfterBreak => "';' after break"
  | .semicolonAfterExpression => "';' after expression"
  | .expression => "an expression"
  | .closingParen => "')' to close the parenthesized expression"

/-- Why a token list is not a program. -/
inductive SyntaxError where
  | unexpectedToken (expected : Expected) (found : Token) (pos : Position)
  | unexpectedEnd (expected : Expected) (pos : Position)
  /-- The left side of an assignment is not a variable; `pos` is that of the assignment sign. -/
  | invalidTarget (pos : Position)
  /-- A declaration stands where only a statement may. -/
  | declarationNotAllowed (pos : Position)
  deriving DecidableEq, Repr

namespace SyntaxError

/-- Where the error points. -/
def pos : SyntaxError → Position
  | .unexpectedToken _ _ pos => pos
  | .unexpectedEnd _ pos => pos
  | .invalidTarget pos => pos
  | .declarationNotAllowed pos => pos

/-- The wording of the error. -/
def message : SyntaxError → String
  | .unexpectedToken expected found pos =>
    s!"Error at {pos.text}: Expected {expected.text}, found '{found.text}'."
  | .unexpectedEnd expected pos =>
    s!"Error at {pos.text}: Expected {expected.text}, found end of input."
  | .invalidTarget pos =>
    s!"Error at {pos.text}: Invalid assignment target. Only variables can be assigned."
  | .declarationNotAllowed pos =>
    s!"Error at {pos.text}: A declaration is not allowed here. Wrap it in a block."

end SyntaxError

end Primer
