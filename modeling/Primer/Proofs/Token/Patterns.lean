import Mathlib.Computability.Language
import Primer.Token.Scan

/-!
# The patterns of tokens

What a token looks like is a regular language, and a text is cut by always taking the longest piece that
matches one of the patterns. This module says so without the scanner.

- `Rule` are the kinds of pieces, and `Rule.pattern` their languages.
- `Munches`: a rule takes a piece from the front of a text. No rule matches a longer one, and a reserved
  word is no identifier.
- `Cuts` is the repetition of this, from left to right, until nothing matches.
- `Rule.Decodes` is the token that a piece stands for, and `Reads` what becomes of the pieces of a text:
  its tokens with their positions, and where they end.
-/

namespace Primer

open Computability

/-! ## Languages -/

namespace Pattern

/-- One character of a class. -/
def one (P : Char → Prop) : Language Char :=
  {w | ∃ c, P c ∧ w = [c]}

/-- A fixed text. -/
def text (s : String) : Language Char :=
  {w | w = s.toList}

/-- Once or more often. -/
def repeated (L : Language Char) : Language Char :=
  L * L∗

/-- Characters that are neither the quote, a backslash nor a line break, and pairs of a backslash and any
character but a line break. -/
def quotedBody (quote : Char) : Language Char :=
  (one (fun c => c ≠ quote ∧ c ≠ '\\' ∧ c ≠ '\n') + one (· = '\\') * one (· ≠ '\n'))∗

/-- Such a body between two quotes. -/
def quoted (quote : Char) : Language Char :=
  one (· = quote) * (quotedBody quote * one (· = quote))

/-- Stars. -/
def stars : Language Char :=
  repeated (one (· = '*'))

/-- The inside of a block comment: characters but stars, and stars in front of a character that does not
end the comment. -/
def commentBody : Language Char :=
  (one (· ≠ '*') + stars * one fun c => c ≠ '*' ∧ c ≠ '/')∗

/-- The inside of a block comment with the end of it. -/
def commentTail : Language Char :=
  commentBody * (stars * one (· = '/'))

/-- Letters and the underscore. -/
def letter : Char → Prop := fun c =>
  ('a' ≤ c ∧ c ≤ 'z') ∨ ('A' ≤ c ∧ c ≤ 'Z') ∨ c = '_'

/-- Decimal digits. -/
def digit : Char → Prop := fun c =>
  '0' ≤ c ∧ c ≤ '9'

end Pattern

/-- The kinds of pieces of a text. -/
inductive Rule where
  | blank
  | newline
  | comment
  | blockComment
  | integer
  | char
  | string
  | keyword (k : Keyword)
  | identifier
  | punct (p : Punct)
  deriving DecidableEq

namespace Rule

open Pattern

/-- What pieces of the kind look like. -/
def pattern : Rule → Language Char
  | .blank => repeated (one (· ∈ [' ', '\t', '\r', '\x0c']))
  | .newline => text "\n"
  | .comment => text "//" * (one (· ≠ '\n'))∗
  | .blockComment => text "/*" * commentTail
  | .integer => repeated (one digit)
  | .char => quoted '\x27'
  | .string => quoted '\x22'
  | .keyword k => text k.text
  | .identifier => one letter * (one fun c => letter c ∨ digit c)∗
  | .punct p => text p.text

/-- Pieces that are dropped. -/
def isSkipped : Rule → Bool
  | .blank | .newline | .comment | .blockComment => true
  | _ => false

end Rule

/-! ## Cutting a text -/

/-- The rule takes the piece from the front of the text. -/
structure Munches (input : List Char) (r : Rule) (piece : List Char) : Prop where
  front : piece <+: input
  fits : piece ∈ r.pattern
  /-- No rule matches more of the text. -/
  longest : ∀ (r' : Rule) (piece' : List Char), piece' <+: input → piece' ∈ r'.pattern →
    piece'.length ≤ piece.length
  /-- A reserved word is no identifier. -/
  unreserved : r = .identifier → ∀ k, piece ∉ (Rule.keyword k).pattern

/-- A text is cut into pieces from left to right until no rule matches; `stuck` is what is left then. -/
inductive Cuts : (input : List Char) → List (Rule × List Char) → (stuck : List Char) → Prop where
  | stop {input : List Char} (nothing : ∀ (r : Rule) (piece : List Char), piece <+: input →
      piece ∉ r.pattern) : Cuts input [] input
  | step {r : Rule} {piece rest stuck : List Char} {pieces : List (Rule × List Char)}
    (munches : Munches (piece ++ rest) r piece) (cuts : Cuts rest pieces stuck) :
    Cuts (piece ++ rest) ((r, piece) :: pieces) stuck

/-! ## Reading the pieces -/

/-- The characters that a backslash and a letter stand for. -/
def Escape.table : List (Char × Char) :=
  [('n', '\n'), ('t', '\t'), ('r', '\r'), ('0', '\x00'), ('\\', '\\'), ('\x27', '\x27'), ('\x22', '\x22')]

/-- The body of a quoted literal stands for the text. -/
inductive Escape.Means : (body text : List Char) → Prop where
  | nil : Means [] []
  | plain {c : Char} {body text : List Char} (notEscape : c ≠ '\\') (rest : Means body text) :
    Means (c :: body) (c :: text)
  | escape {letter c : Char} {body text : List Char} (known : (letter, c) ∈ table)
    (rest : Means body text) : Means ('\\' :: letter :: body) (c :: text)

/-- The token that a piece stands for. An integer is in range, and a character literal holds exactly one
ASCII character. -/
inductive Rule.Decodes : Rule → (piece : List Char) → Token → Prop where
  | integer {digits : List Char} {n : Int64} (value : n.toInt = Nat.ofDigitChars 10 digits 0) :
    Decodes .integer digits (.integer n)
  | char {body : List Char} {c : Char} (means : Escape.Means body [c]) (ascii : c.toNat < 128) :
    Decodes .char ('\x27' :: (body ++ ['\x27'])) (.char c.toNat.toUInt8)
  | string {body text : List Char} (means : Escape.Means body text) :
    Decodes .string ('\x22' :: (body ++ ['\x22'])) (.string (String.ofList text))
  | keyword {k : Keyword} {piece : List Char} : Decodes (.keyword k) piece (.keyword k)
  | identifier {piece : List Char} : Decodes .identifier piece (.identifier (String.ofList piece))
  | punct {p : Punct} {piece : List Char} : Decodes (.punct p) piece (.punct p)

/-- The error for a piece that stands for no token. -/
def Rule.error (r : Rule) (piece : List Char) (pos : Position) : LexError :=
  if r = .integer then .integerOutOfRange (String.ofList piece) pos
  else .malformedLiteral (String.ofList piece) pos

/-- The error for a text at whose front nothing matches. A quote there opens a literal that is not closed
on its line; everything else is blamed on the first character. -/
def stuckError (c : Char) (rest : List Char) (pos : Position) : LexError :=
  if c = '\x27' ∨ c = '\x22' then .malformedLiteral (String.ofList (c :: rest.takeWhile (· ≠ '\n'))) pos
  else .unexpectedCharacter c pos

/-- From `pos` on, the pieces and what is left after them give the lexemes and the ending. -/
inductive Reads : Position → List (Rule × List Char) → (stuck : List Char) → List Lexeme → Ending →
    Prop where
  | complete {pos : Position} : Reads pos [] [] [] (.complete pos)
  | stuck {pos : Position} {c : Char} {rest : List Char} :
    Reads pos [] (c :: rest) [] (.failed (stuckError c rest pos))
  | skip {pos : Position} {r : Rule} {piece stuck : List Char} {pieces : List (Rule × List Char)}
    {ls : List Lexeme} {ending : Ending} (skipped : r.isSkipped = true)
    (reads : Reads (piece.foldl Position.advance pos) pieces stuck ls ending) :
    Reads pos ((r, piece) :: pieces) stuck ls ending
  | token {pos : Position} {r : Rule} {piece stuck : List Char} {pieces : List (Rule × List Char)}
    {t : Token} {ls : List Lexeme} {ending : Ending} (decodes : r.Decodes piece t)
    (reads : Reads (piece.foldl Position.advance pos) pieces stuck ls ending) :
    Reads pos ((r, piece) :: pieces) stuck (⟨t, pos⟩ :: ls) ending
  | bad {pos : Position} {r : Rule} {piece stuck : List Char} {pieces : List (Rule × List Char)}
    (kept : r.isSkipped = false) (meaningless : ∀ t, ¬ r.Decodes piece t) :
    Reads pos ((r, piece) :: pieces) stuck [] (.failed (r.error piece pos))

/-! ## Members of the languages -/

namespace Pattern

variable {L : Language Char} {P : Char → Prop} {w : List Char}

/-- What is repeated can be taken off the front, piece by piece. -/
theorem kstar_induction {Q : List Char → Prop} (nil : Q [])
    (append : ∀ u v, u ∈ L → Q v → Q (u ++ v)) (h : w ∈ L∗) : Q w := by
  obtain ⟨us, rfl, hus⟩ := Language.mem_kstar.mp h
  clear h
  induction us with
  | nil => exact nil
  | cons u us ih =>
    obtain ⟨hu, hrest⟩ := List.forall_mem_cons.mp hus
    exact append u us.flatten hu (ih hrest)

theorem append_mem_kstar {u : List Char} (hu : u ∈ L) (hw : w ∈ L∗) : u ++ w ∈ L∗ := by
  rw [← Language.one_add_self_mul_kstar_eq_kstar]
  exact .inr (Language.append_mem_mul hu hw)

theorem singleton_mem_one {c : Char} (hc : P c) : [c] ∈ one P := ⟨c, hc, rfl⟩

theorem mem_one_mul : w ∈ one P * L ↔ ∃ c v, w = c :: v ∧ P c ∧ v ∈ L := by
  constructor
  · rintro ⟨_, ⟨c, hc, rfl⟩, v, hv, rfl⟩
    exact ⟨c, v, rfl, hc, hv⟩
  · rintro ⟨c, v, rfl, hc, hv⟩
    exact Language.append_mem_mul (singleton_mem_one hc) hv

theorem mem_mul_one : w ∈ L * one P ↔ ∃ v c, w = v ++ [c] ∧ v ∈ L ∧ P c := by
  constructor
  · rintro ⟨v, hv, _, ⟨c, hc, rfl⟩, rfl⟩
    exact ⟨v, c, rfl, hv, hc⟩
  · rintro ⟨v, c, rfl, hv, hc⟩
    exact Language.append_mem_mul hv (singleton_mem_one hc)

theorem mem_text_mul {s : String} : w ∈ text s * L ↔ ∃ v, w = s.toList ++ v ∧ v ∈ L := by
  constructor
  · rintro ⟨_, rfl, v, hv, rfl⟩
    exact ⟨v, rfl, hv⟩
  · rintro ⟨v, rfl, hv⟩
    exact Language.append_mem_mul (show s.toList ∈ text s from rfl) hv

theorem mem_kstar_one : w ∈ (one P)∗ ↔ ∀ c ∈ w, P c := by
  constructor
  · refine kstar_induction (Q := fun w => ∀ c ∈ w, P c) (fun _ hc => (nomatch hc)) ?_
    rintro _ v ⟨c, hc, rfl⟩ hv
    exact List.forall_mem_cons.mpr ⟨hc, hv⟩
  · intro h
    induction w with
    | nil => exact Language.nil_mem_kstar _
    | cons c w ih =>
      obtain ⟨hc, hw⟩ := List.forall_mem_cons.mp h
      exact append_mem_kstar (singleton_mem_one hc) (ih hw)

theorem mem_repeated_one : w ∈ repeated (one P) ↔ ∃ c v, w = c :: v ∧ P c ∧ ∀ d ∈ v, P d := by
  rw [repeated, mem_one_mul]
  simp only [mem_kstar_one]

end Pattern

end Primer
