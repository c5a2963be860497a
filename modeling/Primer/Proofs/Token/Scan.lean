import Primer.Token.Scan

/-!
# How a text is scanned piece by piece

Scanning a text means scanning the piece at its front and then the rest. So a text is known to hold
certain tokens if it is cut into pieces that do not run into each other.

- `Spells text ts rest`: where `text` stands in front of `rest`, it is scanned as the tokens `ts`.
- `Spells.append` puts pieces together.
- `spells_keyword`, `spells_identifier`, `spells_integer`, `spells_char`, `spells_string` and
  `spells_punct` are the single tokens; words, numbers and some operators need to be followed by
  something that does not continue them.
- `tokenize_eq_ok` and `tokenize_eq_error` say when a whole text is scanned to its end.
-/

namespace Primer

/-! ## Pieces of a text -/

/-- Puts lexemes in front of what was scanned after them. -/
def Scanned.prepend (ls : List Lexeme) (s : Scanned) : Scanned :=
  { s with lexemes := ls ++ s.lexemes }

@[simp] theorem Scanned.prepend_nil (s : Scanned) : s.prepend [] = s := rfl

theorem Scanned.prepend_prepend (ls ls' : List Lexeme) (s : Scanned) :
    (s.prepend ls').prepend ls = s.prepend (ls ++ ls') := by
  simp [Scanned.prepend]

/-- What belongs to a piece that was dealt with is passed over. -/
theorem scan_pending (cs rest : List Char) (pos : Position) :
    scan cs.length pos (cs ++ rest) = scan 0 (cs.foldl Position.advance pos) rest := by
  induction cs generalizing pos with
  | nil => rfl
  | cons c cs ih =>
    rw [List.length_cons, List.cons_append, scan]
    exact ih (pos.advance c)

/-- Where `text` stands in front of `rest`, it is scanned as the tokens `ts`. -/
def Spells (text : String) (ts : List Token) (rest : List Char) : Prop :=
  ∀ pos, ∃ ls pos', ls.map Lexeme.token = ts ∧
    scan 0 pos (text.toList ++ rest) = (scan 0 pos' rest).prepend ls

theorem Spells.append {s s' : String} {ts ts' : List Token} {rest : List Char}
    (h : Spells s ts (s'.toList ++ rest)) (h' : Spells s' ts' rest) :
    Spells (s ++ s') (ts ++ ts') rest := by
  intro pos
  obtain ⟨ls, pos₁, hls, hscan⟩ := h pos
  obtain ⟨ls', pos₂, hls', hscan'⟩ := h' pos₁
  refine ⟨ls ++ ls', pos₂, by rw [List.map_append, hls, hls'], ?_⟩
  rw [String.toList_append, List.append_assoc, hscan, hscan', Scanned.prepend_prepend]

theorem spells_empty (rest : List Char) : Spells "" [] rest := by
  intro pos
  exact ⟨[], pos, rfl, rfl⟩

/-- A piece that is a token. -/
theorem spells_of_front {c : Char} {cs rest : List Char} {t : Token} {text : String}
    (htext : text.toList = c :: cs) (h : Piece.front c (cs ++ rest) = .token t cs.length) :
    Spells text [t] rest := by
  intro pos
  refine ⟨[⟨t, pos⟩], cs.foldl Position.advance (pos.advance c), rfl, ?_⟩
  rw [htext, List.cons_append, scan, h, ← scan_pending]
  rfl

/-! ## Layout -/

/-- A run of blanks ends where the next piece begins, wherever it is cut. -/
theorem scan_blanks (rest : List Char) (pos : Position) :
    scan (rest.takeWhile isBlank).length pos rest = scan 0 pos rest := by
  cases rest with
  | nil => rfl
  | cons c rest =>
    by_cases hc : isBlank c = true
    · have hline : c ≠ '\n' := by
        rintro rfl
        exact absurd hc (by decide)
      have hfront : Piece.front c rest = .skip (rest.takeWhile isBlank).length := by
        simp [Piece.front, hline, hc]
      rw [List.takeWhile_cons_of_pos hc, List.length_cons, scan, scan, hfront]
    · rw [List.takeWhile_cons_of_neg hc]
      rfl

/-- Characters between tokens. -/
def isLayout (c : Char) : Bool :=
  c == '\n' || isBlank c

theorem scan_layout {c : Char} (hc : isLayout c = true) (rest : List Char) (pos : Position) :
    scan 0 pos (c :: rest) = scan 0 (pos.advance c) rest := by
  by_cases hline : c = '\n'
  · subst hline
    rfl
  · have hblank : isBlank c = true := by simpa [isLayout, hline] using hc
    have hfront : Piece.front c rest = .skip (rest.takeWhile isBlank).length := by
      simp [Piece.front, hline, hblank]
    rw [scan, hfront]
    exact scan_blanks rest (pos.advance c)

/-- Blanks and line breaks hold no tokens. -/
theorem spells_layout {text : String} (h : ∀ c ∈ text.toList, isLayout c = true) (rest : List Char) :
    Spells text [] rest := by
  have hscan : ∀ cs : List Char, (∀ c ∈ cs, isLayout c = true) → ∀ pos,
      scan 0 pos (cs ++ rest) = scan 0 (cs.foldl Position.advance pos) rest := by
    intro cs hcs
    induction cs with
    | nil => exact fun _ => rfl
    | cons c cs ih =>
      intro pos
      rw [List.cons_append, scan_layout (hcs c List.mem_cons_self)]
      exact ih (fun d hd => hcs d (List.mem_cons_of_mem c hd)) (pos.advance c)
  exact fun pos => ⟨[], _, rfl, hscan text.toList h pos⟩

/-! ## Words and numbers -/

/-- What follows does not continue a word or a number. -/
def Ends (rest : List Char) : Prop :=
  ∀ c ∈ rest.head?, isNamePart c = false

theorem ends_cons {c : Char} {rest : List Char} (h : isNamePart c = false) : Ends (c :: rest) := by
  rintro d ⟨⟩
  exact h

/-- The longest run of characters of one kind. -/
theorem takeWhile_eq {p : Char → Bool} {cs rest : List Char} (hcs : ∀ c ∈ cs, p c = true)
    (hrest : ∀ c ∈ rest.head?, p c = false) : (cs ++ rest).takeWhile p = cs := by
  rw [List.takeWhile_append_of_pos hcs]
  cases rest with
  | nil => simp
  | cons d rest => simp [hrest d rfl]

/-- The text is formed like an identifier. -/
def isWord : List Char → Bool
  | [] => false
  | c :: cs => isNameStart c && cs.all isNamePart

/-- Characters of a kind that no blank and no line break is of. -/
theorem not_layout {p : Char → Bool} (hp : ['\n', ' ', '\t', '\r', '\x0c'].any p = false) {c : Char}
    (hc : p c = true) : c ≠ '\n' ∧ isBlank c = false := by
  have hmem : c ∉ ['\n', ' ', '\t', '\r', '\x0c'] := fun hmem => List.any_eq_false.mp hp c hmem hc
  simp only [List.mem_cons, List.not_mem_nil, or_false, not_or] at hmem
  obtain ⟨hline, hspace, htab, hreturn, hfeed⟩ := hmem
  exact ⟨hline, by simp [isBlank, hspace, htab, hreturn, hfeed]⟩

theorem isAlpha_iff {c : Char} :
    c.isAlpha = true ↔ ('A' ≤ c ∧ c ≤ 'Z') ∨ ('a' ≤ c ∧ c ≤ 'z') := by
  have halpha : c.isAlpha = (decide ('A' ≤ c ∧ c ≤ 'Z') || (decide ('a' ≤ c) && decide (c ≤ 'z'))) := rfl
  simp only [halpha, Bool.or_eq_true, Bool.and_eq_true, decide_eq_true_eq]

theorem isDigit_eq_false {c : Char} (hc : isNameStart c = true) : c.isDigit = false := by
  refine Bool.eq_false_iff.mpr fun hdigit => ?_
  simp only [isNameStart, isAlpha_iff, Char.isDigit, Bool.or_eq_true, Bool.and_eq_true,
    decide_eq_true_eq, beq_iff_eq] at hc hdigit
  rcases hc with hc | rfl
  · simp only [Char.le_def, UInt32.le_iff_toNat_le, ge_iff_le] at hc hdigit
    have h₁ : ('A' : Char).val.toNat = 65 := rfl
    have h₂ : ('9' : Char).val.toNat = 57 := rfl
    have h₃ : ('a' : Char).val.toNat = 97 := rfl
    omega
  · exact absurd hdigit (by decide)

/-- A name begins with no blank, digit or line break. -/
theorem front_name {c : Char} (hc : isNameStart c = true) (rest : List Char) :
    Piece.front c rest =
      Piece.ofWord (c :: rest.takeWhile isNamePart) (rest.takeWhile isNamePart).length := by
  obtain ⟨hline, hblank⟩ := not_layout rfl hc
  simp [Piece.front, hline, hblank, isDigit_eq_false hc, hc]

theorem front_word {c : Char} {cs rest : List Char} (hword : isWord (c :: cs) = true)
    (hrest : Ends rest) : Piece.front c (cs ++ rest) = Piece.ofWord (c :: cs) cs.length := by
  simp only [isWord, Bool.and_eq_true, List.all_eq_true] at hword
  rw [front_name hword.1, takeWhile_eq hword.2 hrest]

theorem spells_identifier {name : String} {rest : List Char} (hname : isWord name.toList = true)
    (hkeyword : Keyword.ofText? name = none) (hrest : Ends rest) :
    Spells name [.identifier name] rest := by
  cases htext : name.toList with
  | nil =>
    rw [htext] at hname
    cases hname
  | cons c cs =>
    rw [htext] at hname
    refine spells_of_front htext ?_
    rw [front_word hname hrest, ← htext]
    simp [Piece.ofWord, hkeyword]

/-- Reserved words are formed like identifiers, and each has a text of its own. -/
theorem Keyword.isWord_text (k : Keyword) :
    isWord k.text.toList = true ∧ Keyword.ofText? k.text = some k := by
  cases k with
  | typeWord type => cases type <;> decide
  | _ => decide

theorem spells_keyword (k : Keyword) {rest : List Char} (hrest : Ends rest) :
    Spells k.text [.keyword k] rest := by
  obtain ⟨hword, hkeyword⟩ := k.isWord_text
  cases htext : k.text.toList with
  | nil =>
    rw [htext] at hword
    cases hword
  | cons c cs =>
    rw [htext] at hword
    refine spells_of_front htext ?_
    rw [front_word hword hrest, ← htext]
    simp [Piece.ofWord, hkeyword]

theorem front_digit {c : Char} (hc : c.isDigit = true) (rest : List Char) :
    Piece.front c rest =
      Piece.ofDigits (c :: rest.takeWhile Char.isDigit) (rest.takeWhile Char.isDigit).length := by
  obtain ⟨hline, hblank⟩ := not_layout rfl hc
  simp [Piece.front, hline, hblank, hc]

theorem isDigit_of_ends {rest : List Char} (h : Ends rest) : ∀ c ∈ rest.head?, c.isDigit = false := by
  intro c hc
  have := h c hc
  simp only [isNamePart, Char.isAlphanum, Bool.or_eq_false_iff] at this
  exact this.1.2

/-- A number that fits is scanned from its decimal digits. -/
theorem spells_nat {k : Nat} {n : Int64} {rest : List Char} (hn : n.toInt = k) (hrest : Ends rest) :
    Spells (toString k) [.integer n] rest := by
  have htext : (toString k).toList = Nat.toDigits 10 k := by
    rw [Nat.toString_eq_ofList_toDigits, String.toList_ofList]
  cases hdigits : Nat.toDigits 10 k with
  | nil => exact absurd hdigits Nat.toDigits_ne_nil
  | cons c cs =>
    have hmem : ∀ d ∈ c :: cs, d.isDigit = true := by
      intro d hd
      rw [← hdigits] at hd
      exact Nat.isDigit_of_mem_toDigits (show 0 < 10 by decide) (by decide) hd
    have hvalue : Nat.ofDigitChars 10 (c :: cs) 0 = k := by
      rw [← hdigits, Nat.ofDigitChars_ten_toDigits]
    -- the value of an `Int64` is in range, so no overflow is reported
    have hfits : (k : Int) ≤ Int64.maxValue.toInt := by
      rw [← hn]
      exact Int64.toInt_le n
    -- reading the digits back wraps around at 64 bits, which changes nothing here
    have hback : Int64.ofNat k = n := by
      rw [Int64.ofNat, ← Int64.ofInt_toInt n, hn]
      rfl
    refine spells_of_front (htext.trans hdigits) ?_
    rw [front_digit (hmem c List.mem_cons_self),
      takeWhile_eq (fun d hd => hmem d (List.mem_cons_of_mem c hd)) (isDigit_of_ends hrest)]
    simp [Piece.ofDigits, hvalue, hfits, hback]

theorem spells_integer {n : Int64} {rest : List Char} (hn : 0 ≤ n.toInt) (hrest : Ends rest) :
    Spells (toString n.toInt) [.integer n] rest := by
  obtain ⟨k, hk⟩ := Int.eq_ofNat_of_zero_le hn
  rw [hk]
  exact spells_nat hk hrest

/-! ## Quoted literals -/

namespace Escape

/-- The two kinds of quotes. -/
def IsQuote (quote : Char) : Prop :=
  quote = '\x27' ∨ quote = '\x22'

/-- A letter of the table means the character that it was written for, and hides no line break. -/
theorem letterFor?_eq_some {quote c letter : Char} (hquote : IsQuote quote)
    (h : letterFor? quote c = some letter) : meaning? letter = some c ∧ letter ≠ '\n' := by
  -- one case for each letter of the table, in its order; the last one is the quote itself
  unfold letterFor? at h
  split at h
  · cases h
    subst c
    decide
  split at h
  · cases h
    subst c
    decide
  split at h
  · cases h
    subst c
    decide
  split at h
  · cases h
    subst c
    decide
  split at h
  · cases h
    subst c
    decide
  split at h
  · cases h
    subst c
    rcases hquote with rfl | rfl <;> decide
  · cases h

/-- Characters that are written as they are. -/
theorem letterFor?_eq_none {quote c : Char} (h : letterFor? quote c = none) :
    c ≠ '\n' ∧ c ≠ '\\' ∧ c ≠ quote := by
  unfold letterFor? at h
  refine ⟨?_, ?_, ?_⟩
  · rintro rfl
    simp at h
  · rintro rfl
    simp at h
  · rintro rfl
    split at h
    · cases h
    split at h
    · cases h
    split at h
    · cases h
    split at h
    · cases h
    split at h
    · cases h
    · simp at h

theorem decode_encodeChar {quote : Char} (hquote : IsQuote quote) (c : Char) (more : List Char) :
    decode (encodeChar quote c ++ more) = (decode more).map (c :: ·) := by
  unfold encodeChar
  cases hletter : letterFor? quote c with
  | some letter =>
    have hmeaning := (letterFor?_eq_some hquote hletter).1
    cases hmore : decode more <;> simp [decode, hmeaning, hmore]
  | none =>
    have hc := (letterFor?_eq_none hletter).2.1
    cases more with
    | nil => simp [decode, hc]
    | cons d more => cases hmore : decode (d :: more) <;> simp [decode, hc, hmore]

/-- Reading a text back from between quotes. -/
theorem decode_encode {quote : Char} (hquote : IsQuote quote) (text : List Char) :
    decode (encode quote text) = some text := by
  induction text with
  | nil => rfl
  | cons c text ih =>
    have hsplit : encode quote (c :: text) = encodeChar quote c ++ encode quote text :=
      List.flatMap_cons
    rw [hsplit, decode_encodeChar hquote, ih]
    rfl

end Escape

namespace Quoted

open Escape

theorem read_close (quote : Char) (more : List Char) : read quote (quote :: more) = .closed [] := by
  cases more <;> simp [read]

theorem read_plain {quote c : Char} (hclose : c ≠ quote) (hslash : c ≠ '\\') (hline : c ≠ '\n')
    (more : List Char) : read quote (c :: more) = (read quote more).prepend [c] := by
  cases more <;> simp [read, hclose, hslash, hline, prepend]

theorem read_escape {quote d : Char} (hquote : IsQuote quote) (hline : d ≠ '\n') (more : List Char) :
    read quote ('\\' :: d :: more) = (read quote more).prepend ['\\', d] := by
  have hslash : '\\' ≠ quote := by
    rcases hquote with rfl | rfl <;> decide
  simp [read, hslash, hline]

/-- An encoded character neither closes a literal nor ends its line. -/
theorem read_encodeChar {quote : Char} (hquote : IsQuote quote) (c : Char) (more : List Char) :
    read quote (encodeChar quote c ++ more) = (read quote more).prepend (encodeChar quote c) := by
  unfold encodeChar
  cases hletter : letterFor? quote c with
  | some letter => exact read_escape hquote (letterFor?_eq_some hquote hletter).2 more
  | none =>
    obtain ⟨hline, hslash, hclose⟩ := letterFor?_eq_none hletter
    exact read_plain hclose hslash hline more

theorem read_encode {quote : Char} (hquote : IsQuote quote) (text rest : List Char) :
    read quote (encode quote text ++ quote :: rest) = .closed (encode quote text) := by
  induction text with
  | nil => exact read_close quote rest
  | cons c text ih =>
    have hsplit : encode quote (c :: text) = encodeChar quote c ++ encode quote text :=
      List.flatMap_cons
    rw [hsplit, List.append_assoc, read_encodeChar hquote, ih]
    rfl

end Quoted

open Escape in
theorem spells_string (s : String) (rest : List Char) :
    Spells (quotedString s) [.string s] rest := by
  have hquote : IsQuote '\x22' := .inr rfl
  have htext : (quotedString s).toList = '\x22' :: (encode '\x22' s.toList ++ ['\x22']) := by
    simp [quotedString, stringText]
  refine spells_of_front htext ?_
  have hread := Quoted.read_encode hquote s.toList rest
  rw [List.append_assoc]
  show Piece.ofStringLiteral (Quoted.read '\x22' (encode '\x22' s.toList ++ '\x22' :: rest)) = _
  rw [hread]
  simp [Piece.ofStringLiteral, decode_encode hquote]

open Escape in
theorem spells_char {c : UInt8} (hc : c.toNat < 128) (rest : List Char) :
    Spells (quotedByte c) [.char c] rest := by
  have hquote : IsQuote '\x27' := .inl rfl
  have hencode : encode '\x27' [charOfByte c] = encodeChar '\x27' (charOfByte c) := by
    simp [encode]
  have htext : (quotedByte c).toList = '\x27' :: (encode '\x27' [charOfByte c] ++ ['\x27']) := by
    simp [quotedByte, byteText, hencode]
  have hvalue : (charOfByte c).toNat = c.toNat := by
    have hvalid : c.toNat.isValidChar := .inl (by omega)
    rw [charOfByte, Char.ofNat, dif_pos hvalid]
    rfl
  refine spells_of_front htext ?_
  have hread := Quoted.read_encode hquote [charOfByte c] rest
  rw [List.append_assoc]
  show Piece.ofCharLiteral (Quoted.read '\x27' (encode '\x27' [charOfByte c] ++ '\x27' :: rest)) = _
  rw [hread]
  simp [Piece.ofCharLiteral, decode_encode hquote, hvalue, hc]

/-! ## Operators and delimiters -/

/-- The character turns the punctuator into a longer one, or into the beginning of a comment. -/
def Punct.extendedBy : Punct → Char → Bool
  | .equals, '=' | .bang, '=' | .less, '=' | .greater, '=' => true
  | .slash, '/' | .slash, '*' => true
  | _, _ => false

theorem Punct.ofPair?_eq_some {c d : Char} {p : Punct} (h : Punct.ofPair? c d = some p) :
    (d = '=' ∧ (c = '=' ∨ c = '!' ∨ c = '<' ∨ c = '>')) ∨ c = '&' ∨ c = '|' := by
  unfold Punct.ofPair? at h
  split at h <;> simp at h ⊢

/-- A punctuator of one character that is not extended by what follows. -/
theorem spells_single {p : Punct} {c : Char} {rest : List Char} (htext : p.text.toList = [c])
    (hfront : Piece.front c rest = Piece.ofPunct c rest) (hp : Punct.ofChar? c = some p)
    (hpair : ∀ d ∈ rest.head?, Punct.ofPair? c d = none) : Spells p.text [.punct p] rest := by
  have hnone : rest.head?.bind (Punct.ofPair? c) = none := by
    cases rest with
    | nil => rfl
    | cons d rest => exact hpair d rfl
  refine spells_of_front htext ?_
  rw [List.nil_append, hfront]
  simp [Piece.ofPunct, hnone, hp]

/-- A character that opens no longer operator. -/
theorem spells_delimiter {p : Punct} {c : Char} {rest : List Char} (htext : p.text.toList = [c])
    (hfront : Piece.front c rest = Piece.ofPunct c rest) (hp : Punct.ofChar? c = some p)
    (hc : c ∉ ['=', '!', '<', '>', '&', '|']) : Spells p.text [.punct p] rest := by
  refine spells_single htext hfront hp fun d _ => ?_
  cases hpair : Punct.ofPair? c d with
  | none => rfl
  | some q =>
    have := Punct.ofPair?_eq_some hpair
    simp only [List.mem_cons, List.not_mem_nil, or_false, not_or] at hc
    grind

/-- A character that opens a longer operator if an equals sign follows. -/
theorem spells_comparison {p : Punct} {c : Char} {rest : List Char} (htext : p.text.toList = [c])
    (hfront : Piece.front c rest = Piece.ofPunct c rest) (hp : Punct.ofChar? c = some p)
    (hc : c ≠ '&' ∧ c ≠ '|') (hrest : ∀ d ∈ rest.head?, d ≠ '=') : Spells p.text [.punct p] rest := by
  refine spells_single htext hfront hp fun d hd => ?_
  cases hpair : Punct.ofPair? c d with
  | none => rfl
  | some q =>
    rcases Punct.ofPair?_eq_some hpair with ⟨heq, -⟩ | h | h
    · exact absurd heq (hrest d hd)
    · exact absurd h hc.1
    · exact absurd h hc.2

theorem spells_slash {rest : List Char} (hrest : ∀ d ∈ rest.head?, d ≠ '/' ∧ d ≠ '*') :
    Spells "/" [.punct .slash] rest := by
  have hfront : Piece.ofSlash rest = .token (.punct .slash) 0 := by
    cases rest with
    | nil => rfl
    | cons d rest =>
      obtain ⟨hline, hblock⟩ := hrest d rfl
      simp [Piece.ofSlash, hline, hblock]
  exact spells_of_front rfl hfront

/-- An operator or delimiter that is not extended by what follows. -/
theorem spells_punct (p : Punct) {rest : List Char}
    (hrest : ∀ c ∈ rest.head?, p.extendedBy c = false) : Spells p.text [.punct p] rest := by
  have hequals : (∀ c, p.extendedBy c = false → c ≠ '=') → ∀ c ∈ rest.head?, c ≠ '=' :=
    fun h c hc => h c (hrest c hc)
  cases p with
  | plus | minus | star | percent | leftParen | rightParen | leftBrace | rightBrace | leftBracket
  | rightBracket | semicolon | comma | colon => exact spells_delimiter rfl rfl rfl (by decide)
  | equals | bang | less | greater =>
    refine spells_comparison rfl rfl rfl (by decide) (hequals ?_)
    rintro c hc rfl
    cases hc
  | equalEqual | bangEqual | lessEqual | greaterEqual | andAnd | orOr => exact spells_of_front rfl rfl
  | slash =>
    refine spells_slash fun c hc => ⟨?_, ?_⟩
    · rintro rfl
      cases hrest _ hc
    · rintro rfl
      cases hrest _ hc

/-! ## Whole texts -/

theorem tokenize_eq_ok {source : String} {ls : List Lexeme} : tokenize source = .ok ls ↔
    ∃ pos, (scanText source).ending = .complete pos ∧
      ls = (scanText source).lexemes ++ [⟨.endOfInput, pos⟩] := by
  cases hending : (scanText source).ending with
  | complete pos => simp [tokenize, Scanned.stream, hending, eq_comm]
  | failed e => simp [tokenize, hending]

theorem tokenize_eq_error {source : String} {e : LexError} :
    tokenize source = .error e ↔ (scanText source).ending = .failed e := by
  cases hending : (scanText source).ending with
  | complete pos => simp [tokenize, hending]
  | failed e => simp [tokenize, hending]

/-- A text that holds certain tokens and nothing else is cut into them and the end of the input. -/
theorem Spells.tokenize_eq {text : String} {ts : List Token} (h : Spells text ts []) :
    ∃ ls, tokenize text = .ok ls ∧ ls.map Lexeme.token = ts ++ [.endOfInput] := by
  obtain ⟨ls, pos, hls, hscan⟩ := h .start
  rw [List.append_nil] at hscan
  have hend : scanText text = ⟨ls, .complete pos⟩ := by
    rw [scanText, hscan]
    simp [scan, Scanned.prepend]
  refine ⟨ls ++ [⟨.endOfInput, pos⟩], tokenize_eq_ok.mpr ⟨pos, ?_, ?_⟩, by simp [hls]⟩ <;> rw [hend]

end Primer
