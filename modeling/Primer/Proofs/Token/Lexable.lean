import Primer.Proofs.Token.Scan

/-!
# Tokens that texts hold

Not every token can come from a text: numbers have no sign, characters are ASCII, identifiers are no
reserved words, and the kinds for comments and line breaks never occur.

- `Token.lexable` says which tokens a text can hold.
- `spells_token`: the text of such a token is scanned as the token, if nothing follows that continues
  it.
- `lexable_of_mem_scan`: a scan yields no other tokens.
-/

namespace Primer

namespace Token

/-- Tokens that a text can hold. -/
def lexable : Token → Bool
  | .integer n => 0 ≤ n.toInt
  | .char c => c.toNat < 128
  | .identifier name => isWord name.toList && (Keyword.ofText? name).isNone
  | .string _ | .keyword _ | .punct _ => true
  | .comment | .blockComment | .newline | .endOfInput => false

/-- What follows the token in a text does not continue it. -/
def EndsAt (rest : List Char) : Token → Prop
  | .integer _ | .identifier _ | .keyword _ => Ends rest
  | .punct p => ∀ c ∈ rest.head?, p.extendedBy c = false
  | .char _ | .string _ | .comment | .blockComment | .newline | .endOfInput => True

/-- Numbers in texts have no sign, so that the least number is not among them. -/
theorem ne_minValue_of_lexable {n : Int64} (h : (integer n).lexable = true) : n ≠ Int64.minValue := by
  rintro rfl
  exact absurd h (by decide)

end Token

/-- The text of a token is scanned as the token. -/
theorem spells_token {t : Token} {rest : List Char} (ht : t.lexable = true) (hrest : t.EndsAt rest) :
    Spells t.text [t] rest := by
  cases t with
  | integer n => exact spells_integer (by simpa [Token.lexable] using ht) hrest
  | char c => exact spells_char (by simpa [Token.lexable] using ht) rest
  | string s => exact spells_string s rest
  | identifier name =>
    simp only [Token.lexable, Bool.and_eq_true, Option.isNone_iff_eq_none] at ht
    exact spells_identifier ht.1 ht.2 hrest
  | keyword k => exact spells_keyword k hrest
  | punct p => exact spells_punct p hrest
  | comment | blockComment | newline | endOfInput => cases ht

/-! ## Scanned tokens -/

namespace Piece

variable {t : Token} {more k : Nat}

theorem lexable_ofDigits {digits : List Char} (h : ofDigits digits k = .token t more) :
    t.lexable = true := by
  unfold ofDigits at h
  simp only at h
  split at h
  · rename_i hfits
    cases h
    have hvalue : (Int64.ofNat (Nat.ofDigitChars 10 digits 0)).toInt =
        Nat.ofDigitChars 10 digits 0 := by
      rw [Int64.toInt_ofNat_of_lt]
      have : Int64.maxValue.toInt = 9223372036854775807 := by decide
      omega
    simp [Token.lexable, hvalue]
  · cases h

theorem lexable_ofWord {word : List Char} (hword : isWord word = true)
    (h : ofWord word k = .token t more) : t.lexable = true := by
  unfold ofWord at h
  simp only at h
  cases hkeyword : Keyword.ofText? (String.ofList word) with
  | some keyword =>
    rw [hkeyword] at h
    cases h
    rfl
  | none =>
    rw [hkeyword] at h
    cases h
    simp [Token.lexable, hword, hkeyword]

theorem lexable_ofCharLiteral {q : Quoted} (h : ofCharLiteral q = .token t more) :
    t.lexable = true := by
  unfold ofCharLiteral at h
  split at h
  · cases h
  · simp only at h
    split at h
    · rename_i c _
      split at h
      · rename_i hc
        cases h
        simp only [Token.lexable, decide_eq_true_eq]
        have hbyte : c.toNat.toUInt8.toNat = c.toNat % 256 := UInt8.toNat_ofNat'
        omega
      · cases h
    · cases h

theorem lexable_ofStringLiteral {q : Quoted} (h : ofStringLiteral q = .token t more) :
    t.lexable = true := by
  unfold ofStringLiteral at h
  split at h
  · cases h
  · split at h
    · cases h
      rfl
    · cases h

theorem lexable_ofPunct {c : Char} {rest : List Char} (h : ofPunct c rest = .token t more) :
    t.lexable = true := by
  unfold ofPunct at h
  split at h
  · cases h
    rfl
  · split at h
    · cases h
      rfl
    · cases h

theorem lexable_ofSlash {rest : List Char} (h : ofSlash rest = .token t more) : t.lexable = true := by
  unfold ofSlash at h
  split at h
  · cases h
    rfl
  split at h
  · cases h
  split at h
  · split at h
    · cases h
    · cases h
      rfl
  · cases h
    rfl

/-- The token at the front of a text is one that a text can hold. -/
theorem lexable_front {c : Char} {rest : List Char} (h : front c rest = .token t more) :
    t.lexable = true := by
  -- the kinds of pieces in the order in which they are tried
  unfold front at h
  split at h
  · cases h
  split at h
  · cases h
  split at h
  · exact lexable_ofDigits h
  split at h
  · rename_i hname
    refine lexable_ofWord ?_ h
    -- a word is a letter or underscore and all characters that go on with it
    simp only [isWord, hname, Bool.true_and, List.all_eq_true]
    exact fun d hd => List.all_eq_true.mp List.all_takeWhile d hd
  split at h
  · exact lexable_ofCharLiteral h
  split at h
  · exact lexable_ofStringLiteral h
  split at h
  · exact lexable_ofSlash h
  · exact lexable_ofPunct h

end Piece

/-- A scan yields only tokens that a text can hold. -/
theorem lexable_of_mem_scan {pending : Nat} {pos : Position} {cs : List Char} {l : Lexeme}
    (h : l ∈ (scan pending pos cs).lexemes) : l.token.lexable = true := by
  induction cs generalizing pending pos with
  | nil => cases pending <;> cases h
  | cons c rest ih =>
    cases pending with
    | succ pending => exact ih h
    | zero =>
      rw [scan] at h
      cases hfront : Piece.front c rest with
      | skip more =>
        rw [hfront] at h
        exact ih h
      | token t more =>
        rw [hfront] at h
        rcases List.mem_cons.mp h with rfl | h
        · exact Piece.lexable_front hfront
        · exact ih h
      | fault fault slice =>
        rw [hfront] at h
        cases h

end Primer
