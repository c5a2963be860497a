/-!
# Positions in a source text

A position is a line and a column, both counted from one. Columns count the bytes of the UTF-8 form
of the text, so a character beyond ASCII moves the column by more than one.

- `Position.advance` moves over one character; everything that knows where it is gets there by
  advancing from `Position.start`.
- `Position.text` is the wording used by every error message.
-/

namespace Primer

/-- A place in a source text: line and column, counted from one. -/
structure Position where
  line : Nat
  column : Nat
  deriving DecidableEq, Repr

namespace Position

/-- The place of the first character of a text. -/
def start : Position := ⟨1, 1⟩

instance : Inhabited Position := ⟨start⟩

/-- The place just after the character `c` standing at `p`: a line break opens the next line, any
other character takes as many columns as it has bytes. -/
def advance (p : Position) (c : Char) : Position :=
  if c = '\n' then ⟨p.line + 1, 1⟩ else ⟨p.line, p.column + c.utf8Size⟩

/-- The wording of a place in messages. -/
def text (p : Position) : String :=
  s!"line {p.line}, column {p.column}"

end Position

end Primer
