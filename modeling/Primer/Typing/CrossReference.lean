import Primer.Value.Ty

/-!
# Cross references

The cross-reference table of a program has one section for the program itself and one for each
function. A section lists the names declared in it with kind, type, nesting level and the lines on
which they are declared and used.

- `CrossReference.ofRoutines` sorts each section by name and then by line of declaration.
- `CrossReference.lookup?` finds a name in a section.
- `CrossReference.listing` prints the table.
-/

namespace Primer

/-- What a declared name stands for. -/
inductive SymbolKind where
  | variable_
  | parameter
  | function
  deriving DecidableEq, Repr

/-- The wording of a kind. -/
def SymbolKind.text : SymbolKind → String
  | .variable_ => "variable"
  | .parameter => "parameter"
  | .function => "function"

/-- A declared name and where it occurs. -/
structure Entry where
  name : String
  kind : SymbolKind
  type : Ty
  /-- How many scopes inside the global one enclose the declaration. -/
  level : Nat
  /-- The line of the declaration, then the lines of the uses. -/
  lines : List Nat
  deriving DecidableEq, Repr

namespace Entry

/-- Orders entries by name, then by line of declaration. -/
def precedes (a b : Entry) : Bool :=
  if a.name = b.name then a.lines.headD 0 ≤ b.lines.headD 0 else a.name < b.name

/-- Puts an entry in front of the first one that it precedes. -/
def insert (e : Entry) : List Entry → List Entry
  | [] => [e]
  | x :: rest => if e.precedes x then e :: x :: rest else x :: insert e rest

/-- Sorts entries; those that compare equal keep their order. -/
def sort (entries : List Entry) : List Entry :=
  entries.foldr insert []

end Entry

/-- A section of the table. -/
structure Routine where
  name : String
  /-- Whether the section is that of the program itself. -/
  isProgram : Bool
  entries : List Entry
  deriving DecidableEq, Repr

/-- The cross-reference table of a program. -/
structure CrossReference where
  routines : List Routine
  deriving DecidableEq, Repr

namespace CrossReference

/-- The table with the given sections, each sorted. -/
def ofRoutines (routines : List Routine) : CrossReference :=
  ⟨routines.map fun r => { r with entries := Entry.sort r.entries }⟩

/-- The first entry for `name` in the first section called `routine`. -/
def lookup? (table : CrossReference) (routine name : String) : Option Entry := do
  let r ← table.routines.find? fun r => r.name == routine
  r.entries.find? fun e => e.name == name

/-! ## Printing -/

/-- The width of the column of names. -/
def nameWidth : Nat := 16

/-- The heading of the column of lines. -/
def linesHeading : String := " Line numbers    "

/-- A text filled up with blanks to the width of the column of names. -/
def padded (s : String) : String :=
  s ++ String.ofList (List.replicate (nameWidth - s.length) ' ')

/-- A line number with at least three digits. -/
def lineText (n : Nat) : String :=
  let digits := toString n
  " " ++ String.ofList (List.replicate (3 - digits.length) '0') ++ digits

/-- The headings above a section. -/
def headings : String :=
  "\n" ++ padded "Identifier" ++ linesHeading ++ "Type specification\n" ++
    padded "----------" ++ " ------------    " ++ "------------------\n"

/-- The blanks under the columns of names and lines. -/
def margin : String :=
  String.ofList (List.replicate (nameWidth + linesHeading.length) ' ')

/-- The four lines of an entry. -/
def entryText (e : Entry) : String :=
  padded e.name ++ String.join (e.lines.map lineText) ++ "\n" ++
    margin ++ "Kind: " ++ e.kind.text ++ "\n" ++
    margin ++ "Scope nesting level: " ++ toString e.level ++ "\n" ++
    margin ++ "Type: " ++ e.type.text ++ "\n"

/-- A section with its headings. -/
def routineText (r : Routine) : String :=
  let label := if r.isProgram then "PROGRAM" else "FUNCTION"
  "\n*** " ++ label ++ " " ++ r.name ++ " ***\n" ++ headings ++
    String.join (r.entries.map entryText)

/-- The printed table. -/
def listing (table : CrossReference) : String :=
  "===== CROSS-REFERENCE TABLE =====\n" ++ String.join (table.routines.map routineText)

end CrossReference

end Primer
