import Primer.Tree.Builtin
import Primer.Typing.CrossReference
import Primer.Typing.Error

/-!
# The state of checking

Checking walks over a program once and keeps a state: the errors so far, the open scopes, every name
declared so far, the sections of the cross-reference table, the signatures of the functions, and
where the walk is (in which function, inside how many loops and switches).

Names are kept in one list of `Symbol`s; scopes and signatures refer to them by number, so that a use
can be recorded with the declaration it resolves to.
-/

namespace Primer

/-- A declared name: what it stands for, the section it belongs to, and where it occurs. -/
structure Symbol where
  name : String
  kind : SymbolKind
  type : Ty
  /-- How many scopes inside the global one enclose the declaration. -/
  level : Nat
  /-- The number of the section. -/
  routine : Nat
  /-- The line of the declaration. -/
  line : Nat
  /-- The lines of the uses, the latest first. -/
  uses : List Nat
  deriving DecidableEq, Repr

/-- The entry of a symbol in the table. -/
def Symbol.entry (s : Symbol) : Entry :=
  ⟨s.name, s.kind, s.type, s.level, s.line :: s.uses.reverse⟩

/-- The types of a function, and the number of its symbol. -/
structure Signature where
  params : List Ty
  returns : Ty
  symbol : Nat
  deriving DecidableEq, Repr

/-- The function whose body is being checked. -/
structure CurrentFunction where
  name : String
  returns : Ty
  /-- Whether a `return` with a value was met that control can reach. -/
  hasReturn : Bool
  deriving DecidableEq, Repr

/-- The names of one scope and the numbers of their symbols. -/
abbrev StaticScope := List (String × Nat)

/-- The state of checking. -/
structure Checker where
  errors : List SemanticError
  /-- The open scopes, the innermost first; the last is the global one. -/
  scopes : List StaticScope
  symbols : List Symbol
  /-- The sections opened so far: name, and whether it is that of the program. -/
  routines : List (String × Bool)
  /-- The number of the section being filled. -/
  routine : Nat
  functions : List (String × Signature)
  function : Option CurrentFunction
  /-- How many loops and switches are open. -/
  breakable : Nat
  deriving DecidableEq, Repr

/-- Computations that check. -/
abbrev Check := StateM Checker

namespace Checker

/-- The state before a program of the given name is checked. -/
def new (programName : String) : Checker where
  errors := []
  scopes := [[]]
  symbols := []
  routines := [(programName, true)]
  routine := 0
  functions := []
  function := none
  breakable := 0

/-! ## Errors, sections and scopes -/

/-- Adds an error. -/
def report (c : Checker) (violation : Violation) (pos : Position) : Checker :=
  { c with errors := c.errors ++ [⟨violation, pos⟩] }

/-- Opens the section of a function. -/
def enterRoutine (c : Checker) (name : String) : Checker :=
  { c with routines := c.routines ++ [(name, false)], routine := c.routines.length }

/-- Goes back to the section of the program. -/
def leaveRoutine (c : Checker) : Checker :=
  { c with routine := 0 }

/-- Opens a scope. -/
def pushScope (c : Checker) : Checker :=
  { c with scopes := [] :: c.scopes }

/-- Closes the innermost scope. -/
def popScope (c : Checker) : Checker :=
  { c with scopes := c.scopes.tail }

/-! ## Declarations -/

/-- Adds a symbol declared at `pos`. Its number is the number of symbols before. -/
def addSymbol (c : Checker) (name : String) (kind : SymbolKind) (type : Ty) (level : Nat)
    (routine : Nat) (pos : Position) : Checker :=
  { c with symbols := c.symbols ++ [⟨name, kind, type, level, routine, pos.line, []⟩] }

/-- Binds a name to a symbol in the innermost scope. -/
def bind (c : Checker) (name : String) (symbol : Nat) : Checker :=
  match c.scopes with
  | [] => c
  | scope :: outer => { c with scopes := ((name, symbol) :: scope) :: outer }

/-- Whether the innermost scope already declares `name`. -/
def declaresHere (c : Checker) (name : String) : Bool :=
  match c.scopes with
  | [] => false
  | scope :: _ => (scope.lookup name).isSome

/-- Declares a variable or parameter in the innermost scope. A name that is already there keeps its
first meaning, and the second declaration is an error. -/
def declare (c : Checker) (name : String) (kind : SymbolKind) (type : Ty) (pos : Position) :
    Checker :=
  if c.declaresHere name then c.report (.redeclared name) pos
  else
    (c.addSymbol name kind type (c.scopes.length - 1) c.routine pos).bind name c.symbols.length

/-- Registers a function, whose symbol belongs to the section of the program. -/
def declareFunction (c : Checker) (f : FunctionDef) : Checker :=
  let signature : Signature := ⟨f.params.map Param.type, f.returns, c.symbols.length⟩
  let c := c.addSymbol f.name .function f.returns 0 0 f.pos
  { c with functions := (f.name, signature) :: c.functions }

/-! ## Uses -/

/-- The symbol that `name` means in the innermost scope that declares it. -/
def symbolOf? (scopes : List StaticScope) (name : String) : Option Nat :=
  scopes.findSome? fun scope => scope.lookup name

/-- Records a use of a symbol on a line. -/
def recordUse (c : Checker) (symbol line : Nat) : Checker :=
  { c with symbols := c.symbols.modify symbol fun s => { s with uses := line :: s.uses } }

/-- The declared type of a symbol. -/
def typeOf? (c : Checker) (symbol : Nat) : Option Ty :=
  c.symbols[symbol]?.map Symbol.type

/-! ## The table -/

/-- The entries of one section, in the order in which they were declared. -/
def entriesOf (c : Checker) (routine : Nat) : List Entry :=
  (c.symbols.filter fun s => s.routine == routine).map Symbol.entry

/-- The cross-reference table of what was checked. -/
def crossReference (c : Checker) : CrossReference :=
  .ofRoutines (c.routines.mapIdx fun i (name, isProgram) => ⟨name, isProgram, c.entriesOf i⟩)

end Checker

namespace Check

/-- Adds an error. -/
def report (violation : Violation) (pos : Position) : Check Unit :=
  modify fun c => c.report violation pos

/-- Adds an error if `condition` holds. -/
def reportIf (condition : Bool) (violation : Violation) (pos : Position) : Check Unit :=
  if condition then report violation pos else pure ()

/-- Uses a variable: records the line and gives its declared type, or reports that it is unknown. -/
def resolve (name : String) (pos : Position) : Check (Option Ty) := do
  let c ← get
  match Checker.symbolOf? c.scopes name with
  | some symbol =>
    modify fun c => c.recordUse symbol pos.line
    return c.typeOf? symbol
  | none =>
    report (.unknownVariable name) pos
    return none

/-- Uses a function: records the line and gives its signature, or reports that it is unknown. -/
def resolveFunction (name : String) (pos : Position) : Check (Option Signature) := do
  let c ← get
  match c.functions.lookup name with
  | some signature =>
    modify fun c => c.recordUse signature.symbol pos.line
    return some signature
  | none =>
    report (.unknownFunction name) pos
    return none

/-- Checks inside a scope of its own. -/
def inScope {α : Type} (x : Check α) : Check α := do
  modify Checker.pushScope
  let a ← x
  modify Checker.popScope
  return a

/-- Checks inside a loop or switch. -/
def insideLoop {α : Type} (x : Check α) : Check α := do
  modify fun c => { c with breakable := c.breakable + 1 }
  let a ← x
  modify fun c => { c with breakable := c.breakable - 1 }
  return a

end Check

end Primer
