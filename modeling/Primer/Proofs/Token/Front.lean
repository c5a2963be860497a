import Primer.Proofs.Token.Delimited

/-!
# The longest match at the front of a text

The scanner decides with a look at one or two characters what stands at the front of a text, and then how
far it reaches. Both agree with the patterns.

- `Opening` is the kind of a first character. Patterns with different openings never match the same text,
  so that only few have to be compared (`munches_of`).
- `Rule.unique`: patterns overlap only in the reserved words; so there is at most one longest match
  (`Munches.unique`).
- `Piece.Sound` says of a piece what it should be, and `Piece.front_sound` that the piece at the front is.
-/

namespace Primer

open Computability Pattern

/-! ## First characters -/

theorem isBlank_iff {c : Char} : isBlank c = true ↔ c ∈ [' ', '\t', '\r', '\x0c'] := by
  simp [isBlank, or_assoc]

theorem isDigit_iff {c : Char} : c.isDigit = true ↔ digit c := by
  simp [Char.isDigit, digit, Char.le_def]

theorem isNameStart_iff {c : Char} : isNameStart c = true ↔ letter c := by
  simp only [isNameStart, letter, Bool.or_eq_true, isAlpha_iff, beq_iff_eq]
  rw [or_assoc, or_left_comm]

theorem isNamePart_iff {c : Char} : isNamePart c = true ↔ letter c ∨ digit c := by
  rw [← isNameStart_iff, ← isDigit_iff]
  simp only [isNamePart, isNameStart, Char.isAlphanum, Bool.or_eq_true]
  exact or_right_comm

/-- Kinds of characters that a piece opens with. -/
inductive Opening where
  | newline
  | blank
  | digit
  | letter
  | quote
  | doubleQuote
  | slash
  | other
  deriving DecidableEq

/-- The kind of a character. -/
def Opening.of (c : Char) : Opening :=
  if c = '\n' then .newline
  else if isBlank c then .blank
  else if c.isDigit then .digit
  else if isNameStart c then .letter
  else if c = '\x27' then .quote
  else if c = '\x22' then .doubleQuote
  else if c = '/' then .slash
  else .other

namespace Rule

/-- The kind of character that pieces of a rule open with. -/
def opening : Rule → Opening
  | .blank => .blank
  | .newline => .newline
  | .integer => .digit
  | .char => .quote
  | .string => .doubleQuote
  | .keyword _ | .identifier => .letter
  | .comment | .blockComment | .punct .slash => .slash
  | .punct _ => .other

/-- The rules for pieces that open with a character of a kind. -/
theorem of_opening {r : Rule} {o : Opening} (h : r.opening = o) : match o with
    | .newline => r = .newline
    | .blank => r = .blank
    | .digit => r = .integer
    | .letter => r = .identifier ∨ ∃ k, r = .keyword k
    | .quote => r = .char
    | .doubleQuote => r = .string
    | .slash => r = .comment ∨ r = .blockComment ∨ r = .punct .slash
    | .other => ∃ p, r = .punct p := by
  subst h
  cases r with
  | punct p => cases p <;> simp [opening]
  | _ => simp [opening]

/-- Every piece has a first character, which is of the kind of its rule. -/
theorem opening_of_mem {r : Rule} {piece : List Char} (h : piece ∈ r.pattern) :
    ∃ c v, piece = c :: v ∧ Opening.of c = r.opening := by
  cases r with
  | blank =>
    obtain ⟨c, v, rfl, hc, -⟩ := mem_repeated_one.mp h
    -- a line break is no blank, and it is asked for first
    have hline : c ≠ '\n' := by
      rintro rfl
      exact absurd hc (by decide)
    exact ⟨c, v, rfl, by simp [Opening.of, hline, isBlank_iff.mpr hc, opening]⟩
  | newline =>
    cases h
    exact ⟨_, _, rfl, rfl⟩
  | comment =>
    obtain ⟨v, rfl, -⟩ := mem_text_mul.mp h
    exact ⟨_, _, rfl, rfl⟩
  | blockComment =>
    obtain ⟨v, rfl, -⟩ := mem_text_mul.mp h
    exact ⟨_, _, rfl, rfl⟩
  | integer =>
    obtain ⟨c, v, rfl, hc, -⟩ := mem_repeated_one.mp h
    -- the kinds are asked for in order, so the kinds in front of this one have to be ruled out
    have hdigit := isDigit_iff.mpr hc
    obtain ⟨hline, hblank⟩ := not_layout rfl hdigit
    exact ⟨c, v, rfl, by simp [Opening.of, hline, hblank, hdigit, opening]⟩
  | char =>
    obtain ⟨c, v, rfl, rfl, -⟩ := mem_one_mul.mp h
    exact ⟨_, v, rfl, rfl⟩
  | string =>
    obtain ⟨c, v, rfl, rfl, -⟩ := mem_one_mul.mp h
    exact ⟨_, v, rfl, rfl⟩
  | keyword k =>
    cases h
    cases k with
    | typeWord type => cases type <;> exact ⟨_, _, rfl, rfl⟩
    | _ => exact ⟨_, _, rfl, rfl⟩
  | identifier =>
    obtain ⟨c, v, rfl, hc, -⟩ := mem_one_mul.mp h
    have hname := isNameStart_iff.mpr hc
    obtain ⟨hline, hblank⟩ := not_layout rfl hname
    exact ⟨c, v, rfl, by simp [Opening.of, hline, hblank, isDigit_eq_false hname, hname, opening]⟩
  | punct p =>
    cases h
    cases p <;> exact ⟨_, _, rfl, rfl⟩

end Rule

/-! ## Words, operators and delimiters -/

theorem Keyword.ofText?_eq_some {word : String} {k : Keyword} :
    Keyword.ofText? word = some k ↔ k.text = word := by
  constructor
  · intro h
    have hfound := List.find?_some h
    exact beq_iff_eq.mp hfound
  · rintro rfl
    exact k.isWord_text.2

/-- The operator or delimiter that is spelled so. -/
def Punct.ofText? : List Char → Option Punct
  | [c] => Punct.ofChar? c
  | [c, d] => Punct.ofPair? c d
  | _ => none

theorem Punct.ofText?_eq_some {cs : List Char} {p : Punct} :
    Punct.ofText? cs = some p ↔ cs = p.text.toList := by
  constructor
  · intro h
    unfold Punct.ofText? at h
    split at h
    · unfold Punct.ofChar? at h
      split at h <;> cases h <;> rfl
    · unfold Punct.ofPair? at h
      split at h <;> cases h <;> rfl
    · cases h
  · rintro rfl
    cases p <;> rfl

/-- A slash opens a comment of either kind or is an operator, by what follows it. -/
theorem Rule.of_slash {r : Rule} {c : Char} {v : List Char} (hr : r.opening = .slash)
    (h : c :: v ∈ r.pattern) :
    (r = .comment ∧ ∃ u, v = '/' :: u ∧ ∀ d ∈ u, d ≠ '\n') ∨
    (r = .blockComment ∧ ∃ u, v = '*' :: u ∧ u ∈ commentTail) ∨ (r = .punct .slash ∧ v = []) := by
  rcases Rule.of_opening hr with rfl | rfl | rfl
  · obtain ⟨u, ⟨⟩, hu⟩ := mem_text_mul.mp h
    exact .inl ⟨rfl, u, rfl, mem_kstar_one.mp hu⟩
  · obtain ⟨u, ⟨⟩, hu⟩ := mem_text_mul.mp h
    exact .inr (.inl ⟨rfl, u, rfl, hu⟩)
  · cases h
    exact .inr (.inr ⟨rfl, rfl⟩)

/-- Patterns overlap only in the reserved words. -/
theorem Rule.unique {r r' : Rule} {piece : List Char} (h : piece ∈ r.pattern) (h' : piece ∈ r'.pattern)
    (hr : r = .identifier → ∀ k, piece ∉ (Rule.keyword k).pattern)
    (hr' : r' = .identifier → ∀ k, piece ∉ (Rule.keyword k).pattern) : r = r' := by
  obtain ⟨c, v, rfl, hopening⟩ := Rule.opening_of_mem h
  obtain ⟨_, _, ⟨⟩, hopening'⟩ := Rule.opening_of_mem h'
  -- The first character leaves one rule, except for words, slashes and the other operators, which are told
  -- apart by the rest of their text.
  cases ho : Opening.of c with
  | newline | blank | digit | quote | doubleQuote =>
    exact (Rule.of_opening (hopening.symm.trans ho)).trans
      (Rule.of_opening (hopening'.symm.trans ho)).symm
  | letter =>
    rcases Rule.of_opening (hopening.symm.trans ho) with rfl | ⟨k, rfl⟩ <;>
      rcases Rule.of_opening (hopening'.symm.trans ho) with rfl | ⟨k', rfl⟩
    · rfl
    · exact absurd h' (hr rfl k')
    · exact absurd h (hr' rfl k)
    · have htext : k.text = k'.text := String.toList_inj.mp (h.symm.trans h')
      have hk := Keyword.ofText?_eq_some.mpr htext
      rw [Keyword.ofText?_eq_some.mpr rfl] at hk
      cases hk
      rfl
  | slash =>
    have hslash := Rule.of_slash (hopening.symm.trans ho) h
    have hslash' := Rule.of_slash (hopening'.symm.trans ho) h'
    rcases hslash with ⟨rfl, u, rfl, -⟩ | ⟨rfl, u, rfl, -⟩ | ⟨rfl, rfl⟩ <;>
      rcases hslash' with ⟨rfl, _, ⟨⟩, -⟩ | ⟨rfl, _, ⟨⟩, -⟩ | ⟨rfl, ⟨⟩⟩ <;> rfl
  | other =>
    obtain ⟨p, rfl⟩ := Rule.of_opening (hopening.symm.trans ho)
    obtain ⟨p', rfl⟩ := Rule.of_opening (hopening'.symm.trans ho)
    have hp := Punct.ofText?_eq_some.mpr h
    rw [Punct.ofText?_eq_some.mpr h'] at hp
    cases hp
    rfl

/-! ## Longest matches -/

section

variable {c : Char} {rest w : List Char} {r : Rule}

theorem exists_of_mem {piece : List Char} (h : piece ∈ r.pattern) (hfront : piece <+: c :: rest) :
    ∃ v, piece = c :: v ∧ v <+: rest ∧ r.opening = Opening.of c := by
  obtain ⟨d, v, rfl, hopening⟩ := Rule.opening_of_mem h
  obtain ⟨rfl, hv⟩ := List.cons_prefix_cons.mp hfront
  exact ⟨v, rfl, hv, hopening.symm⟩

/-- Only rules for pieces that open with the first character have to be compared. -/
theorem munches_of (hfront : w <+: rest) (hfits : c :: w ∈ r.pattern)
    (hlongest : ∀ (r' : Rule) (v : List Char), r'.opening = Opening.of c → v <+: rest →
      c :: v ∈ r'.pattern → v.length ≤ w.length)
    (hunreserved : r = .identifier → ∀ k, c :: w ∉ (Rule.keyword k).pattern) :
    Munches (c :: rest) r (c :: w) where
  front := List.cons_prefix_cons.mpr ⟨rfl, hfront⟩
  fits := hfits
  longest r' piece hpiece hmem := by
    obtain ⟨v, rfl, hv, hopening⟩ := exists_of_mem hmem hpiece
    exact Nat.succ_le_succ (hlongest r' v hopening hv hmem)
  unreserved := hunreserved

/-- There is at most one longest match. -/
theorem Munches.unique {input piece piece' : List Char} {r' : Rule} (h : Munches input r piece)
    (h' : Munches input r' piece') : r = r' ∧ piece = piece' := by
  have hle := h'.longest r piece h.front h.fits
  have hle' := h.longest r' piece' h'.front h'.fits
  obtain rfl : piece = piece' :=
    (List.prefix_of_prefix_length_le h.front h'.front hle).eq_of_length (Nat.le_antisymm hle hle')
  exact ⟨Rule.unique h.fits h'.fits h.unreserved h'.unreserved, rfl⟩

end

/-- A run of characters of one kind cannot be longer than the longest. -/
theorem length_le_takeWhile {p : Char → Bool} {v cs : List Char} (h : v <+: cs)
    (hv : ∀ c ∈ v, p c = true) : v.length ≤ (cs.takeWhile p).length := by
  obtain ⟨rest, rfl⟩ := h
  rw [List.takeWhile_append_of_pos hv, List.length_append]
  exact Nat.le_add_right _ _

namespace Piece

/-- The piece is the longest match at the front of the text, or nothing matches there. -/
inductive Sound (c : Char) (rest : List Char) : Piece → Prop where
  | skip {r : Rule} {w : List Char} (munches : Munches (c :: rest) r (c :: w))
    (skipped : r.isSkipped = true) : Sound c rest (.skip w.length)
  | token {r : Rule} {w : List Char} {t : Token} (munches : Munches (c :: rest) r (c :: w))
    (decodes : r.Decodes (c :: w) t) : Sound c rest (.token t w.length)
  | bad {r : Rule} {w slice : List Char} {fault : LexFault} (munches : Munches (c :: rest) r (c :: w))
    (kept : r.isSkipped = false) (meaningless : ∀ t, ¬ r.Decodes (c :: w) t)
    (error : ∀ pos, LexError.ofFault fault slice pos = r.error (c :: w) pos) :
    Sound c rest (.fault fault slice)
  | stuck {slice : List Char} {fault : LexFault}
    (nothing : ∀ (r : Rule) (piece : List Char), piece <+: c :: rest → piece ∉ r.pattern)
    (error : ∀ pos, LexError.ofFault fault slice pos = stuckError c rest pos) :
    Sound c rest (.fault fault slice)

variable {c : Char} {rest : List Char}

theorem newline_sound : Sound '\n' rest (.skip 0) := by
  have hmunches : Munches ('\n' :: rest) .newline ['\n'] := by
    refine munches_of List.nil_prefix rfl (fun r v hr _ hv => ?_) (by rintro ⟨⟩)
    obtain rfl : r = .newline := Rule.of_opening hr
    cases hv
    exact Nat.le_refl 0
  exact .skip hmunches rfl

theorem blank_sound (hopening : Opening.of c = .blank) (hc : isBlank c = true) :
    Sound c rest (.skip (rest.takeWhile isBlank).length) := by
  refine .skip (r := .blank) (munches_of (List.takeWhile_prefix _) ?_ (fun r v hr hfront hv => ?_)
    (by rintro ⟨⟩)) rfl
  · refine mem_repeated_one.mpr ⟨c, _, rfl, isBlank_iff.mp hc, fun d hd => isBlank_iff.mp ?_⟩
    exact List.all_eq_true.mp List.all_takeWhile d hd
  · obtain rfl : r = .blank := Rule.of_opening (hr.trans hopening)
    obtain ⟨_, _, ⟨⟩, -, hblank⟩ := mem_repeated_one.mp hv
    exact length_le_takeWhile hfront fun d hd => isBlank_iff.mpr (hblank d hd)

theorem ofDigits_sound {w : List Char} (hmunches : Munches (c :: rest) .integer (c :: w))
    (hc : c.isDigit = true) : Sound c rest (ofDigits (c :: w) w.length) := by
  have hmax : Int64.maxValue.toInt = 9223372036854775807 := by decide
  unfold ofDigits
  dsimp only
  split
  · next hfits =>
    refine .token hmunches (.integer ?_)
    rw [Int64.toInt_ofNat_of_lt]
    omega
  · next hfits =>
    refine .bad hmunches rfl ?_ fun pos => ?_
    · -- no integer has the value, since it is above the greatest
      rintro _ ⟨hvalue⟩
      rw [← hvalue] at hfits
      exact hfits (Int64.toInt_le _)
    · have hquote : c ≠ '\x22' ∧ c ≠ '\x27' := by
        constructor <;> (rintro rfl; exact absurd hc (by decide))
      simp [LexError.ofFault, hquote, Rule.error]

theorem digit_sound (hopening : Opening.of c = .digit) (hc : c.isDigit = true) :
    Sound c rest (ofDigits (c :: rest.takeWhile Char.isDigit) (rest.takeWhile Char.isDigit).length) := by
  refine ofDigits_sound (munches_of (List.takeWhile_prefix _) ?_ (fun r v hr hfront hv => ?_)
    (by rintro ⟨⟩)) hc
  · refine mem_repeated_one.mpr ⟨c, _, rfl, isDigit_iff.mp hc, fun d hd => isDigit_iff.mp ?_⟩
    exact List.all_eq_true.mp List.all_takeWhile d hd
  · obtain rfl : r = .integer := Rule.of_opening (hr.trans hopening)
    obtain ⟨_, _, ⟨⟩, -, hdigit⟩ := mem_repeated_one.mp hv
    exact length_le_takeWhile hfront fun d hd => isDigit_iff.mpr (hdigit d hd)

theorem isWord_of_mem {r : Rule} {w : List Char} (hr : r.opening = .letter) (h : w ∈ r.pattern) :
    isWord w = true := by
  rcases Rule.of_opening hr with rfl | ⟨k, rfl⟩
  · obtain ⟨c, v, rfl, hc, hv⟩ := mem_one_mul.mp h
    rw [isWord, isNameStart_iff.mpr hc, Bool.true_and, List.all_eq_true]
    exact fun d hd => isNamePart_iff.mpr (mem_kstar_one.mp hv d hd)
  · cases h
    exact k.isWord_text.1

theorem letter_sound (hopening : Opening.of c = .letter) (hc : isNameStart c = true) :
    Sound c rest (ofWord (c :: rest.takeWhile isNamePart) (rest.takeWhile isNamePart).length) := by
  have hlongest : ∀ (r : Rule) (v : List Char), r.opening = Opening.of c → v <+: rest →
      c :: v ∈ r.pattern → v.length ≤ (rest.takeWhile isNamePart).length := by
    -- Reserved words are formed like identifiers, so that they are no longer than the run either.
    intro r v hr hfront hv
    have hword := isWord_of_mem (hr.trans hopening) hv
    rw [isWord, Bool.and_eq_true, List.all_eq_true] at hword
    exact length_le_takeWhile hfront hword.2
  unfold ofWord
  dsimp only
  cases hkeyword : Keyword.ofText? (String.ofList (c :: rest.takeWhile isNamePart)) with
  | some k =>
    have htext := Keyword.ofText?_eq_some.mp hkeyword
    have hfits : c :: rest.takeWhile isNamePart ∈ (Rule.keyword k).pattern := by
      show _ = k.text.toList
      rw [htext, String.toList_ofList]
    exact .token (munches_of (List.takeWhile_prefix _) hfits hlongest (by rintro ⟨⟩)) .keyword
  | none =>
    have hfits : c :: rest.takeWhile isNamePart ∈ Rule.identifier.pattern := by
      refine mem_one_mul.mpr ⟨c, _, rfl, isNameStart_iff.mp hc, mem_kstar_one.mpr fun d hd => ?_⟩
      exact isNamePart_iff.mp (List.all_eq_true.mp List.all_takeWhile d hd)
    refine .token (munches_of (List.takeWhile_prefix _) hfits hlongest fun _ k hk => ?_) .identifier
    have htext : k.text = String.ofList (c :: rest.takeWhile isNamePart) := by
      rw [show _ = k.text.toList from hk, String.ofList_toList]
    rw [Keyword.ofText?_eq_some.mpr htext] at hkeyword
    cases hkeyword

end Piece

/-! ## Literals -/

open Escape

theorem Rule.decodes_char {body : List Char} {t : Token} :
    Rule.Decodes .char ('\x27' :: (body ++ ['\x27'])) t ↔
      ∃ c, Escape.Means body [c] ∧ c.toNat < 128 ∧ t = .char c.toNat.toUInt8 := by
  constructor
  · intro h
    generalize hpiece : '\x27' :: (body ++ ['\x27']) = piece at h
    cases h with
    | char means ascii =>
      cases List.append_cancel_right (List.cons.inj hpiece).2
      exact ⟨_, means, ascii, rfl⟩
  · rintro ⟨c, means, ascii, rfl⟩
    exact .char means ascii

theorem Rule.decodes_string {body : List Char} {t : Token} :
    Rule.Decodes .string ('\x22' :: (body ++ ['\x22'])) t ↔
      ∃ text, Escape.Means body text ∧ t = .string (String.ofList text) := by
  constructor
  · intro h
    generalize hpiece : '\x22' :: (body ++ ['\x22']) = piece at h
    cases h with
    | string means =>
      cases List.append_cancel_right (List.cons.inj hpiece).2
      exact ⟨_, means, rfl⟩
  · rintro ⟨text, means, rfl⟩
    exact .string means

section

variable {quote : Char} (hquote : IsQuote quote) {rest : List Char}

include hquote

/-- At most one piece at the front of a text is a literal. -/
theorem read_of_mem_quoted {v : List Char} (h : quote :: v ∈ quoted quote) (hfront : v <+: rest) :
    ∃ body, v = body ++ [quote] ∧ Quoted.read quote rest = .closed body := by
  obtain ⟨_, _, ⟨⟩, -, hv⟩ := mem_one_mul.mp h
  obtain ⟨body, _, rfl, hbody, rfl⟩ := mem_mul_one.mp hv
  obtain ⟨tail, rfl⟩ := hfront
  exact ⟨body, rfl, (Quoted.read_eq_closed hquote).mpr ⟨hbody, tail, by simp⟩⟩

variable {r : Rule} (hr : r.pattern = quoted quote)
  (honly : ∀ r' : Rule, r'.opening = Opening.of quote → r' = r)

include hr honly

theorem munches_quoted {body : List Char} (h : Quoted.read quote rest = .closed body) :
    Munches (quote :: rest) r (quote :: (body ++ [quote])) := by
  obtain ⟨hbody, tail, hrest⟩ := (Quoted.read_eq_closed hquote).mp h
  refine munches_of ⟨tail, by simp [hrest]⟩ ?_ (fun r' v hr' hfront hv => ?_) ?_
  · rw [hr]
    exact mem_one_mul.mpr ⟨quote, _, rfl, rfl, mem_mul_one.mpr ⟨body, quote, rfl, hbody, rfl⟩⟩
  · rw [honly r' hr', hr] at hv
    obtain ⟨body', rfl, hread⟩ := read_of_mem_quoted hquote hv hfront
    cases h.symm.trans hread
    exact Nat.le_refl _
  · rintro rfl k hk
    obtain ⟨_, _, ⟨⟩, hopening⟩ := Rule.opening_of_mem hk
    exact nomatch honly _ hopening.symm

theorem not_mem_of_unclosed {seen : List Char} (h : Quoted.read quote rest = .unclosed seen) (r' : Rule)
    (piece : List Char) (hfront : piece <+: quote :: rest) : piece ∉ r'.pattern := by
  intro hmem
  obtain ⟨v, rfl, hv, hr'⟩ := exists_of_mem hmem hfront
  rw [honly r' hr', hr] at hmem
  obtain ⟨body, -, hread⟩ := read_of_mem_quoted hquote hmem hv
  cases h.symm.trans hread

end

namespace Piece

theorem ofCharLiteral_sound (rest : List Char) :
    Sound '\x27' rest (ofCharLiteral (Quoted.read '\x27' rest)) := by
  have hquote : IsQuote '\x27' := .inl rfl
  have honly : ∀ r : Rule, r.opening = Opening.of '\x27' → r = .char := fun r hr => Rule.of_opening hr
  cases hread : Quoted.read '\x27' rest with
  | unclosed seen =>
    refine .stuck (not_mem_of_unclosed hquote rfl honly hread) fun pos => ?_
    simp [LexError.ofFault, stuckError, Quoted.seen_of_read_unclosed hread]
  | closed body =>
    have hmunches := munches_quoted hquote rfl honly hread
    -- the literal is well delimited, so all that can be wrong is what stands in it
    have hbad : (∀ t, ¬ Rule.Decodes .char ('\x27' :: (body ++ ['\x27'])) t) →
        Sound '\x27' rest (.fault .malformedLiteral ('\x27' :: (body ++ ['\x27']))) :=
      fun hnone => .bad hmunches rfl hnone fun pos => by simp [LexError.ofFault, Rule.error]
    unfold ofCharLiteral
    dsimp only
    split
    · next c hdecode =>
      have hmeans := decode_eq_some.mp hdecode
      split
      · next hascii =>
        have htoken := Sound.token hmunches (.char hmeans hascii)
        rwa [List.length_append] at htoken
      · next hascii =>
        refine hbad fun t ht => ?_
        obtain ⟨d, hd, hsmall, -⟩ := Rule.decodes_char.mp ht
        cases hdecode.symm.trans (decode_eq_some.mpr hd)
        exact hascii hsmall
    · next hdecode =>
      refine hbad fun t ht => ?_
      obtain ⟨d, hd, -, -⟩ := Rule.decodes_char.mp ht
      exact hdecode d (decode_eq_some.mpr hd)

theorem ofStringLiteral_sound (rest : List Char) :
    Sound '\x22' rest (ofStringLiteral (Quoted.read '\x22' rest)) := by
  have hquote : IsQuote '\x22' := .inr rfl
  have honly : ∀ r : Rule, r.opening = Opening.of '\x22' → r = .string := fun r hr => Rule.of_opening hr
  cases hread : Quoted.read '\x22' rest with
  | unclosed seen =>
    refine .stuck (not_mem_of_unclosed hquote rfl honly hread) fun pos => ?_
    simp [LexError.ofFault, stuckError, Quoted.seen_of_read_unclosed hread]
  | closed body =>
    have hmunches := munches_quoted hquote rfl honly hread
    unfold ofStringLiteral
    dsimp only
    split
    · next text hdecode =>
      have htoken := Sound.token hmunches (.string (decode_eq_some.mp hdecode))
      rwa [List.length_append] at htoken
    · next hdecode =>
      refine .bad hmunches rfl (fun t ht => ?_) fun pos => by simp [LexError.ofFault, Rule.error]
      obtain ⟨text, htext, -⟩ := Rule.decodes_string.mp ht
      cases hdecode.symm.trans (decode_eq_some.mpr htext)

/-! ## Operators, delimiters and comments -/

/-- A slash is an operator unless a comment begins with it. -/
theorem slash_sound {rest : List Char} (hline : ∀ u, rest ≠ '/' :: u)
    (hblock : ∀ u, rest = '*' :: u → blockCommentEnd? u = none) :
    Sound '/' rest (.token (.punct .slash) 0) := by
  refine .token (r := .punct .slash) (w := []) (munches_of List.nil_prefix rfl
    (fun r v hr hfront hv => ?_) (by rintro ⟨⟩)) .punct
  obtain ⟨tail, rfl⟩ := hfront
  rcases Rule.of_slash hr hv with ⟨rfl, u, rfl, -⟩ | ⟨rfl, u, rfl, hu⟩ | ⟨rfl, rfl⟩
  · exact absurd rfl (hline _)
  · have hnone := hblock (u ++ tail) rfl
    rw [blockCommentEnd?_append hu] at hnone
    cases hnone
  · exact Nat.le_refl 0

theorem comment_sound (inside : List Char) :
    Sound '/' ('/' :: inside) (.skip ('/' :: inside.takeWhile (· != '\n')).length) := by
  refine .skip (r := .comment) (munches_of ?_ ?_ (fun r v hr hfront hv => ?_) (by rintro ⟨⟩)) rfl
  · exact List.cons_prefix_cons.mpr ⟨rfl, List.takeWhile_prefix _⟩
  · refine mem_text_mul.mpr ⟨_, rfl, mem_kstar_one.mpr fun d hd => ?_⟩
    exact bne_iff_ne.mp (List.all_eq_true.mp List.all_takeWhile d hd)
  · rcases Rule.of_slash hr hv with ⟨rfl, u, rfl, hu⟩ | ⟨rfl, u, rfl, -⟩ | ⟨rfl, rfl⟩
    · have hinside := (List.cons_prefix_cons.mp hfront).2
      exact Nat.succ_le_succ (length_le_takeWhile hinside fun d hd => bne_iff_ne.mpr (hu d hd))
    · cases (List.cons_prefix_cons.mp hfront).1
    · exact Nat.zero_le _

theorem blockComment_sound {inside : List Char} {n : Nat} (h : blockCommentEnd? inside = some n) :
    Sound '/' ('*' :: inside) (.skip (n + 1)) := by
  obtain ⟨v, tail, rfl, rfl, hv⟩ := blockCommentEnd?_eq_some.mp h
  refine .skip (r := .blockComment) (w := '*' :: v) (munches_of ?_ ?_ (fun r u hr hfront hu => ?_)
    (by rintro ⟨⟩)) rfl
  · exact List.cons_prefix_cons.mpr ⟨rfl, List.prefix_append v tail⟩
  · exact mem_text_mul.mpr ⟨v, rfl, hv⟩
  · rcases Rule.of_slash hr hu with ⟨rfl, u, rfl, -⟩ | ⟨rfl, u, rfl, htail⟩ | ⟨rfl, rfl⟩
    · cases (List.cons_prefix_cons.mp hfront).1
    · -- both comments end where the scanner finds the end
      obtain ⟨rest, hrest⟩ := (List.cons_prefix_cons.mp hfront).2
      have hend := blockCommentEnd?_append htail rest
      rw [hrest, h] at hend
      exact Nat.succ_le_succ (Nat.le_of_eq (Option.some.inj hend).symm)
    · exact Nat.zero_le _

theorem ofSlash_sound (rest : List Char) : Sound '/' rest (ofSlash rest) := by
  unfold ofSlash
  split
  · exact slash_sound (fun _ h => nomatch h) (fun _ h => nomatch h)
  · next d inside =>
    split
    · next hd =>
      subst hd
      rw [Nat.add_comm]
      exact comment_sound inside
    · next hline =>
      -- a slash stands alone, unless a comment begins with it
      have hline' : ∀ u, d :: inside ≠ '/' :: u := fun _ h => hline (List.cons.inj h).1
      split
      · next hd =>
        subst hd
        split
        · next n hn =>
          rw [Nat.add_comm]
          exact blockComment_sound hn
        -- a comment that is never closed is none: the slash is an operator then
        · next hnone =>
          refine slash_sound hline' ?_
          rintro _ ⟨⟩
          exact hnone
      · next hblock => exact slash_sound hline' fun _ h => absurd (List.cons.inj h).1 hblock

/-- An operator or delimiter has at most two characters. -/
theorem length_le_of_mem_punct {p : Punct} {c : Char} {v : List Char}
    (h : c :: v ∈ (Rule.punct p).pattern) : v.length ≤ 1 := by
  have hp := Punct.ofText?_eq_some.mpr h
  match v, hp with
  | [], _ | [_], _ => simp

theorem ofPunct_sound {c : Char} {rest : List Char} (hopening : Opening.of c = .other)
    (hquote : c ≠ '\x22' ∧ c ≠ '\x27') : Sound c rest (ofPunct c rest) := by
  unfold ofPunct
  split
  · next p hp =>
    obtain ⟨d, hd, hpair⟩ := Option.bind_eq_some_iff.mp hp
    obtain ⟨tail, rfl⟩ : ∃ tail, rest = d :: tail := ⟨rest.tail, List.eq_cons_of_mem_head? hd⟩
    refine .token (r := .punct p) (w := [d]) (munches_of ?_ ?_ (fun r v hr _ hv => ?_)
      (by rintro ⟨⟩)) .punct
    · exact List.cons_prefix_cons.mpr ⟨rfl, List.nil_prefix⟩
    · exact Punct.ofText?_eq_some.mp hpair
    · obtain ⟨q, rfl⟩ := Rule.of_opening (hr.trans hopening)
      exact length_le_of_mem_punct hv
  · next hnone =>
    -- an operator of two characters would have been found
    have hsingle : ∀ (r : Rule) (v : List Char), r.opening = Opening.of c → v <+: rest →
        c :: v ∈ r.pattern → v = [] ∧ ∃ q, Punct.ofChar? c = some q := by
      intro r v hr hfront hv
      obtain ⟨q, rfl⟩ := Rule.of_opening (hr.trans hopening)
      have hq := Punct.ofText?_eq_some.mpr hv
      match v, hq with
      | [], hq => exact ⟨rfl, q, hq⟩
      | [d], hq =>
        obtain ⟨tail, rfl⟩ := hfront
        cases hnone.symm.trans hq
    split
    · next p hp =>
      refine .token (r := .punct p) (w := []) (munches_of List.nil_prefix ?_
        (fun r v hr hfront hv => ?_) (by rintro ⟨⟩)) .punct
      · exact Punct.ofText?_eq_some.mp hp
      · rw [(hsingle r v hr hfront hv).1]
    · next hp =>
      refine .stuck (fun r piece hfront hmem => ?_) fun pos => ?_
      · obtain ⟨v, rfl, hv, hr⟩ := exists_of_mem hmem hfront
        obtain ⟨-, q, hq⟩ := hsingle r v hr hv hmem
        cases hp.symm.trans hq
      · simp [LexError.ofFault, stuckError, hquote]

/-- The piece at the front of a text is the longest match there. -/
theorem front_sound (c : Char) (rest : List Char) : Sound c rest (front c rest) := by
  unfold front
  split_ifs with hline hblank hdigit hname hquote hdouble hslash
  · subst hline
    exact newline_sound
  · exact blank_sound (by simp [Opening.of, hline, hblank]) hblank
  · exact digit_sound (by simp [Opening.of, hline, hblank, hdigit]) hdigit
  · exact letter_sound (by simp [Opening.of, hline, hblank, hdigit, hname]) hname
  · subst hquote
    exact ofCharLiteral_sound rest
  · subst hdouble
    exact ofStringLiteral_sound rest
  · subst hslash
    exact ofSlash_sound rest
  · refine ofPunct_sound ?_ ⟨hdouble, hquote⟩
    simp [Opening.of, hline, hblank, hdigit, hname, hquote, hdouble, hslash]

end Piece

end Primer
