import Primer.Proofs.Token.Munch

/-!
# Positions are exact

The position of a token says how many line breaks stand in front of it, and how many bytes stand between
the last of them and the token. It is enough to keep count at line breaks and block comments, since no
other piece of a text holds a line break.

- `LineStart` is the offset at which a line starts, and `Position.Behind` the position behind some bytes.
- `Position.Behind.advance`: moving over a character is moving behind its bytes.
- `Bookmark` is the line that a scan is on, kept at line breaks and block comments only;
  `Bookmark.Marks.through` says that this is enough.
- `Reads.items` says which piece each item of a stream is made of.
- `positions_exact` puts them together for whole texts.
-/

namespace Primer

/-! ## Bytes and lines -/

/-- The bytes of some characters in UTF-8. -/
def utf8 (cs : List Char) : List UInt8 :=
  cs.flatMap String.utf8EncodeChar

/-- The byte of a line break. -/
def lineFeed : UInt8 := 10

theorem utf8_append (cs cs' : List Char) : utf8 (cs ++ cs') = utf8 cs ++ utf8 cs' :=
  List.flatMap_append

theorem utf8_cons (c : Char) (cs : List Char) : utf8 (c :: cs) = String.utf8EncodeChar c ++ utf8 cs :=
  List.flatMap_cons

/-- The bytes of a text are those of its characters. -/
theorem toUTF8_toList (source : String) : source.toUTF8.data.toList = utf8 source.toList := by
  rw [String.toUTF8_eq_toByteArray, ← String.utf8Encode_toList, List.utf8Encode, List.data_toByteArray,
    utf8]

theorem utf8EncodeChar_lineFeed : String.utf8EncodeChar '\n' = [lineFeed] := by
  decide

/-- The byte of a line break is part of no other character. -/
theorem lineFeed_not_mem {c : Char} (hc : c ≠ '\n') : lineFeed ∉ String.utf8EncodeChar c := by
  -- bytes of longer characters are 128 or more
  have hbyte : ∀ n, n < 256 → UInt8.ofNat n = lineFeed → n = 10 := by
    intro n hn h
    have := congrArg UInt8.toNat h
    rwa [UInt8.toNat_ofNat_of_lt' hn] at this
  have hvalue : c.val.toNat ≠ 10 := by
    intro h
    exact hc (Char.ext (UInt32.toNat_inj.mp h))
  intro hmem
  unfold String.utf8EncodeChar at hmem
  simp only at hmem
  split at hmem
  · obtain h := hbyte _ (by omega) (List.mem_singleton.mp hmem).symm
    exact hvalue h
  · split at hmem
    · simp only [List.mem_cons, List.not_mem_nil, or_false] at hmem
      rcases hmem with h | h <;> have := hbyte _ (by omega) h.symm <;> omega
    · split at hmem
      · simp only [List.mem_cons, List.not_mem_nil, or_false] at hmem
        rcases hmem with h | h | h <;> have := hbyte _ (by omega) h.symm <;> omega
      · simp only [List.mem_cons, List.not_mem_nil, or_false] at hmem
        rcases hmem with h | h | h | h <;> have := hbyte _ (by omega) h.symm <;> omega

theorem lineFeed_not_mem_utf8 {cs : List Char} (h : '\n' ∉ cs) : lineFeed ∉ utf8 cs := by
  intro hmem
  obtain ⟨c, hc, hbyte⟩ := List.mem_flatMap.mp hmem
  exact lineFeed_not_mem (fun he => h (he ▸ hc)) hbyte

/-- Behind the bytes `before`, the line starts at the offset `start`: just after the last line break, or
at 0 if there is none. -/
structure LineStart (before : List UInt8) (start : Nat) : Prop where
  le : start ≤ before.length
  opens : start = 0 ∨ before[start - 1]? = some lineFeed
  last : lineFeed ∉ before.drop start

namespace LineStart

variable {before bytes : List UInt8} {start start' : Nat}

theorem nil : LineStart [] 0 :=
  ⟨Nat.le_refl 0, .inl rfl, List.not_mem_nil⟩

/-- Bytes without a line break stay on the line. -/
theorem append (h : LineStart before start) (hbytes : lineFeed ∉ bytes) :
    LineStart (before ++ bytes) start where
  le := by
    have := h.le
    rw [List.length_append]
    omega
  opens := by
    rcases h.opens with hzero | hbreak
    · exact .inl hzero
    · refine .inr ?_
      have hlt : start - 1 < before.length := by
        by_contra hge
        rw [List.getElem?_eq_none (by omega)] at hbreak
        cases hbreak
      rw [List.getElem?_append_left hlt, hbreak]
  last := by
    rw [List.drop_append_of_le_length h.le, List.mem_append]
    exact fun hmem => hmem.elim h.last hbytes

/-- A line starts behind a line break. -/
theorem break_ (before : List UInt8) : LineStart (before ++ [lineFeed]) (before.length + 1) where
  le := by rw [List.length_append, List.length_singleton]
  opens := .inr (by simp)
  last := by simp

/-- A line starts at one offset only. -/
theorem unique (h : LineStart before start) (h' : LineStart before start') : start' = start := by
  -- a line break in front of the later one would stand behind the earlier one
  have hle : ∀ {s s' : Nat}, LineStart before s → LineStart before s' → s' ≤ s := by
    intro s s' hs hs'
    by_contra hlt
    rcases hs'.opens with hzero | hbreak
    · omega
    · refine hs.last (List.mem_of_getElem? (i := s' - 1 - s) ?_)
      rw [List.getElem?_drop, ← hbreak]
      congr 1
      omega
  exact Nat.le_antisymm (hle h h') (hle h' h)

end LineStart

/-! ## Positions -/

namespace Position

/-- The order of positions: by line, then by column. -/
def Before (p q : Position) : Prop :=
  p.line < q.line ∨ p.line = q.line ∧ p.column < q.column

theorem Before.trans {p q r : Position} (h : p.Before q) (h' : q.Before r) : p.Before r := by
  unfold Before at *
  omega

theorem before_advance (p : Position) (c : Char) : p.Before (p.advance c) := by
  unfold advance
  by_cases hc : c = '\n'
  · rw [if_pos hc]
    exact .inl (Nat.lt_succ_self p.line)
  · rw [if_neg hc]
    exact .inr ⟨rfl, Nat.lt_add_of_pos_right c.utf8Size_pos⟩

theorem before_foldl {cs : List Char} (hcs : cs ≠ []) (p : Position) :
    p.Before (cs.foldl advance p) := by
  induction cs generalizing p with
  | nil => exact absurd rfl hcs
  | cons c cs ih =>
    rw [List.foldl_cons]
    by_cases hrest : cs = []
    · subst hrest
      exact p.before_advance c
    · exact (p.before_advance c).trans (ih hrest (p.advance c))

/-- The position of what stands behind the bytes `before`: the line is one more than the number of line
breaks, and the column one more than the number of bytes since the start of the line. -/
structure Behind (before : List UInt8) (pos : Position) : Prop where
  line : pos.line = 1 + before.count lineFeed
  column : ∃ start, LineStart before start ∧ pos.column = before.length - start + 1

theorem behind_nil : Behind [] start :=
  ⟨rfl, 0, .nil, rfl⟩

theorem Behind.unique {before : List UInt8} {pos pos' : Position} (h : Behind before pos)
    (h' : Behind before pos') : pos' = pos := by
  obtain ⟨start, hstart, hcolumn⟩ := h.column
  obtain ⟨start', hstart', hcolumn'⟩ := h'.column
  obtain ⟨line, column⟩ := pos
  obtain ⟨line', column'⟩ := pos'
  obtain rfl := hstart.unique hstart'
  exact Position.mk.injEq .. ▸ ⟨h'.line.trans h.line.symm, hcolumn'.trans hcolumn.symm⟩

/-- Moving over a character is moving behind its bytes. -/
theorem Behind.advance {before : List UInt8} {pos : Position} (h : Behind before pos) (c : Char) :
    Behind (before ++ String.utf8EncodeChar c) (pos.advance c) := by
  obtain ⟨start, hstart, hcolumn⟩ := h.column
  unfold Position.advance
  by_cases hc : c = '\n'
  · rw [if_pos hc, hc, utf8EncodeChar_lineFeed]
    refine ⟨?_, before.length + 1, .break_ before, ?_⟩
    · rw [List.count_append, List.count_singleton_self, ← Nat.add_assoc, ← h.line]
    · simp
  · rw [if_neg hc]
    have hbytes := lineFeed_not_mem hc
    refine ⟨?_, start, hstart.append hbytes, ?_⟩
    · rw [List.count_append, List.count_eq_zero_of_not_mem hbytes]
      exact h.line
    · have hle := hstart.le
      show pos.column + c.utf8Size = _
      rw [List.length_append, String.length_utf8EncodeChar, hcolumn]
      omega

theorem Behind.foldl {before : List UInt8} {pos : Position} (h : Behind before pos) (cs : List Char) :
    Behind (before ++ utf8 cs) (cs.foldl Position.advance pos) := by
  induction cs generalizing before pos with
  | nil =>
    rw [utf8, List.flatMap_nil, List.append_nil]
    exact h
  | cons c cs ih =>
    rw [utf8_cons, ← List.append_assoc]
    exact ih (h.advance c)

end Position

/-! ## Pieces without a line break -/

namespace Pattern

theorem quotedBody_noBreak {quote : Char} {w : List Char} (h : w ∈ quotedBody quote) : '\n' ∉ w := by
  refine kstar_induction (Q := fun w => '\n' ∉ w) List.not_mem_nil ?_ h
  intro u v hu hv hmem
  rcases List.mem_append.mp hmem with hmem | hmem
  · rcases hu with ⟨c, ⟨-, -, hc⟩, rfl⟩ | hescape
    · exact hc (List.mem_singleton.mp hmem).symm
    · obtain ⟨c, v, rfl, rfl, d, hd, rfl⟩ := mem_one_mul.mp hescape
      simp only [List.mem_cons, List.not_mem_nil, or_false] at hmem
      rcases hmem with hmem | hmem
      · cases hmem
      · exact hd hmem.symm
  · exact hv hmem

theorem quoted_noBreak {quote : Char} (hquote : quote ≠ '\n') {w : List Char} (h : w ∈ quoted quote) :
    '\n' ∉ w := by
  obtain ⟨c, v, rfl, rfl, hv⟩ := mem_one_mul.mp h
  obtain ⟨body, d, rfl, hbody, rfl⟩ := mem_mul_one.mp hv
  have hbreak := quotedBody_noBreak hbody
  simp [hquote.symm, hbreak]

end Pattern

open Pattern in
/-- Only line breaks and block comments hold line breaks. -/
theorem Rule.noBreak {r : Rule} {piece : List Char} (h : piece ∈ r.pattern) (hline : r ≠ .newline)
    (hcomment : r ≠ .blockComment) : '\n' ∉ piece := by
  -- a class of characters that the line break does not belong to
  have hclass : ∀ {P : Char → Prop} {w : List Char}, (∀ c ∈ w, P c) → ¬ P '\n' → '\n' ∉ w :=
    fun hw hP hmem => hP (hw _ hmem)
  have hletter : ¬ letter '\n' := by
    unfold letter
    decide
  have hdigit : ¬ digit '\n' := by
    unfold digit
    decide
  cases r with
  | newline => exact absurd rfl hline
  | blockComment => exact absurd rfl hcomment
  | blank =>
    obtain ⟨c, v, rfl, hc, hv⟩ := mem_repeated_one.mp h
    exact hclass (List.forall_mem_cons.mpr ⟨hc, hv⟩) (by decide)
  | comment =>
    obtain ⟨v, rfl, hv⟩ := mem_text_mul.mp h
    have hbreak : '\n' ∉ v := hclass (mem_kstar_one.mp hv) fun hne => hne rfl
    exact fun hmem => (List.mem_append.mp hmem).elim (by decide) hbreak
  | integer =>
    obtain ⟨c, v, rfl, hc, hv⟩ := mem_repeated_one.mp h
    exact hclass (List.forall_mem_cons.mpr ⟨hc, hv⟩) hdigit
  | char | string => exact quoted_noBreak (by decide) h
  | keyword k =>
    obtain rfl : piece = k.text.toList := h
    cases k with
    | typeWord t => cases t <;> decide
    | _ => decide
  | identifier =>
    obtain ⟨c, v, rfl, hc, hv⟩ := mem_one_mul.mp h
    exact hclass (List.forall_mem_cons.mpr ⟨.inl hc, mem_kstar_one.mp hv⟩) fun hbreak =>
      hbreak.elim hletter hdigit
  | punct p =>
    obtain rfl : piece = p.text.toList := h
    cases p <;> decide

/-! ## Keeping count at line breaks and block comments only -/

/-- The index of the last line break. -/
def lastLineFeed? : List UInt8 → Option Nat
  | [] => none
  | b :: bytes =>
    match lastLineFeed? bytes with
    | some i => some (i + 1)
    | none => if b = lineFeed then some 0 else none

theorem lastLineFeed?_eq_none {bytes : List UInt8} (h : lastLineFeed? bytes = none) :
    lineFeed ∉ bytes := by
  induction bytes with
  | nil => exact List.not_mem_nil
  | cons b bytes ih =>
    rw [lastLineFeed?] at h
    cases hlast : lastLineFeed? bytes with
    | some i =>
      rw [hlast] at h
      cases h
    | none =>
      rw [hlast] at h
      by_cases hb : b = lineFeed
      · simp [hb] at h
      · exact fun hmem => (List.mem_cons.mp hmem).elim (fun he => hb he.symm) (ih hlast)

theorem lastLineFeed?_eq_some {bytes : List UInt8} {i : Nat} (h : lastLineFeed? bytes = some i) :
    ∃ front back, bytes = front ++ lineFeed :: back ∧ front.length = i ∧ lineFeed ∉ back := by
  induction bytes generalizing i with
  | nil => cases h
  | cons b bytes ih =>
    rw [lastLineFeed?] at h
    cases hlast : lastLineFeed? bytes with
    | some j =>
      rw [hlast] at h
      obtain ⟨front, back, rfl, hfront, hback⟩ := ih hlast
      exact ⟨b :: front, back, rfl, by rw [List.length_cons, hfront]; exact Option.some.inj h, hback⟩
    | none =>
      rw [hlast] at h
      by_cases hb : b = lineFeed
      · rw [hb] at h ⊢
        exact ⟨[], bytes, rfl, Option.some.inj h, lastLineFeed?_eq_none hlast⟩
      · simp [hb] at h

/-- The line that a scan is on: its number, and the offset at which it starts. -/
structure Bookmark where
  line : Nat
  start : Nat
  deriving DecidableEq, Repr

namespace Bookmark

/-- The first line of a text. -/
def first : Bookmark := ⟨1, 0⟩

/-- The position of an offset on the line. The subtraction stops at zero. -/
def positionOf (b : Bookmark) (offset : Nat) : Position :=
  ⟨b.line, offset - b.start + 1⟩

/-- The bookmark after a piece that starts at `offset`. It moves at a line break, and at the last line
break of a block comment. -/
def after (b : Bookmark) (offset : Nat) : Rule × List Char → Bookmark
  | (.newline, piece) => ⟨b.line + 1, offset + (utf8 piece).length⟩
  | (.blockComment, piece) =>
    match lastLineFeed? (utf8 piece) with
    | some last => ⟨b.line + (utf8 piece).count lineFeed, offset + last + 1⟩
    | none => b
  | (_, _) => b

/-- The bookmark after pieces, the first of which starts at `offset`. -/
def through (b : Bookmark) (offset : Nat) : List (Rule × List Char) → Bookmark
  | [] => b
  | piece :: pieces => (b.after offset piece).through (offset + (utf8 piece.2).length) pieces

/-- The bookmark stands at the line behind the bytes `before`. -/
structure Marks (before : List UInt8) (b : Bookmark) : Prop where
  line : b.line = 1 + before.count lineFeed
  start : LineStart before b.start

theorem marks_first : Marks [] first :=
  ⟨rfl, .nil⟩

variable {before : List UInt8} {b : Bookmark}

theorem Marks.behind (h : Marks before b) : Position.Behind before (b.positionOf before.length) :=
  ⟨h.line, b.start, h.start, rfl⟩

/-- Bytes without a line break do not move the bookmark. -/
theorem Marks.append {bytes : List UInt8} (h : Marks before b) (hbytes : lineFeed ∉ bytes) :
    Marks (before ++ bytes) b :=
  ⟨by rw [List.count_append, List.count_eq_zero_of_not_mem hbytes]; exact h.line,
    h.start.append hbytes⟩

/-- The bookmark after a piece stands at the line behind it. -/
theorem Marks.after {piece : Rule × List Char} (h : Marks before b) (hfits : piece.2 ∈ piece.1.pattern) :
    Marks (before ++ utf8 piece.2) (b.after before.length piece) := by
  obtain ⟨r, cs⟩ := piece
  by_cases hline : r = .newline
  · subst hline
    obtain rfl : cs = ['\n'] := hfits
    refine ⟨?_, LineStart.break_ before⟩
    show b.line + 1 = 1 + (before ++ [lineFeed]).count lineFeed
    rw [List.count_append, List.count_singleton_self, h.line, Nat.add_assoc]
  -- block comments and line breaks are the only pieces that hold a line feed
  · by_cases hcomment : r = .blockComment
    · subst hcomment
      show Marks (before ++ utf8 cs) (match lastLineFeed? (utf8 cs) with
        | some last => ⟨b.line + (utf8 cs).count lineFeed, before.length + last + 1⟩
        | none => b)
      cases hlast : lastLineFeed? (utf8 cs) with
      | none => exact h.append (lastLineFeed?_eq_none hlast)
      | some last =>
        obtain ⟨front, back, hbytes, rfl, hback⟩ := lastLineFeed?_eq_some hlast
        refine ⟨?_, ?_⟩
        · show b.line + (utf8 cs).count lineFeed = _
          rw [List.count_append, h.line, Nat.add_assoc]
        · -- the line starts behind the last line break, with the bytes in front of the comment counted in
          have hstart := (LineStart.break_ (before ++ front)).append hback
          rw [List.length_append] at hstart
          rw [hbytes]
          simpa using hstart
    · have hsame : b.after before.length (r, cs) = b := by
        cases r with
        | newline => exact absurd rfl hline
        | blockComment => exact absurd rfl hcomment
        | _ => rfl
      rw [hsame]
      exact h.append (lineFeed_not_mem_utf8 (Rule.noBreak hfits hline hcomment))

/-- The bookmark after some pieces stands at the line behind them. -/
theorem Marks.through {pieces : List (Rule × List Char)} (h : Marks before b)
    (hfits : ∀ piece ∈ pieces, piece.2 ∈ piece.1.pattern) :
    Marks (before ++ utf8 (pieces.flatMap Prod.snd)) (b.through before.length pieces) := by
  induction pieces generalizing before b with
  | nil =>
    rw [List.flatMap_nil, utf8, List.flatMap_nil, List.append_nil]
    exact h
  | cons piece pieces ih =>
    obtain ⟨hpiece, hpieces⟩ := List.forall_mem_cons.mp hfits
    have hafter := ih (h.after hpiece) hpieces
    rw [List.length_append] at hafter
    rw [List.flatMap_cons, utf8_append, ← List.append_assoc]
    exact hafter

end Bookmark

/-! ## The items of a stream -/

/-- What a scan yields one after another: the lexemes, and at the end the end of the input or the error
that ends the scan. -/
def Scanned.items (s : Scanned) : List (Except LexError Lexeme) :=
  s.lexemes.map .ok ++
    match s.ending with
    | .complete pos => [.ok ⟨.endOfInput, pos⟩]
    | .failed e => [.error e]

/-- The position that an item reports. -/
def itemPos : Except LexError Lexeme → Position
  | .ok l => l.pos
  | .error e => e.pos

/-- An item of a stream is made of what stands at the front of the pieces, with `stuck` behind the last of
them. -/
inductive MadeOf (stuck : List Char) :
    (pieces : List (Rule × List Char)) → Except LexError Lexeme → Prop where
  | token {r : Rule} {piece : List Char} {pieces : List (Rule × List Char)} {t : Token} {pos : Position}
    (decodes : r.Decodes piece t) : MadeOf stuck ((r, piece) :: pieces) (.ok ⟨t, pos⟩)
  | bad {r : Rule} {piece : List Char} {pieces : List (Rule × List Char)} {pos : Position}
    (kept : r.isSkipped = false) (meaningless : ∀ t, ¬ r.Decodes piece t) :
    MadeOf stuck ((r, piece) :: pieces) (.error (r.error piece pos))
  | stuck {c : Char} {rest : List Char} {pos : Position} (left : stuck = c :: rest) :
    MadeOf stuck [] (.error (stuckError c rest pos))
  | endOfInput {pos : Position} (nothingLeft : stuck = []) :
    MadeOf stuck [] (.ok ⟨.endOfInput, pos⟩)

theorem Rule.pos_error (r : Rule) (piece : List Char) (pos : Position) : (r.error piece pos).pos = pos := by
  unfold Rule.error
  split <;> rfl

theorem pos_stuckError (c : Char) (rest : List Char) (pos : Position) :
    (stuckError c rest pos).pos = pos := by
  unfold stuckError
  split <;> rfl

/-- The number of pieces that are not dropped. -/
def keptCount (pieces : List (Rule × List Char)) : Nat :=
  pieces.countP fun piece => !piece.1.isSkipped

/-- Item number `i` of a stream is made of what stands behind the pieces `before`, of which `i` are not
dropped, and reports the position reached by advancing over them. -/
structure ItemAt (pos : Position) (pieces : List (Rule × List Char)) (stuck : List Char) (i : Nat)
    (item : Except LexError Lexeme) (before after : List (Rule × List Char)) : Prop where
  split : pieces = before ++ after
  number : keptCount before = i
  made : MadeOf stuck after item
  pos : itemPos item = (before.flatMap Prod.snd).foldl Position.advance pos

theorem ItemAt.cons {pos : Position} {r : Rule} {piece stuck : List Char}
    {pieces before after : List (Rule × List Char)} {i j : Nat} {item : Except LexError Lexeme}
    (h : ItemAt (piece.foldl Position.advance pos) pieces stuck i item before after)
    (hj : j = i + if r.isSkipped then 0 else 1) :
    ItemAt pos ((r, piece) :: pieces) stuck j item ((r, piece) :: before) after where
  split := congrArg _ h.split
  number := by
    have hnumber := h.number
    unfold keptCount at hnumber ⊢
    rw [List.countP_cons, hnumber, hj]
    cases r.isSkipped <;> rfl
  made := h.made
  pos := by
    rw [List.flatMap_cons, List.foldl_append]
    exact h.pos

theorem itemAt_front {pos : Position} {pieces : List (Rule × List Char)} {stuck : List Char}
    {item : Except LexError Lexeme} (hmade : MadeOf stuck pieces item) (hpos : itemPos item = pos) :
    ItemAt pos pieces stuck 0 item [] pieces :=
  ⟨rfl, rfl, hmade, hpos⟩

/-- The items of a stream are made of the pieces that are not dropped, in order. -/
theorem Reads.items {pos : Position} {pieces : List (Rule × List Char)} {stuck : List Char}
    {ls : List Lexeme} {ending : Ending} (h : Reads pos pieces stuck ls ending) :
    ∀ i item, (Scanned.mk ls ending).items[i]? = some item →
      ∃ before after, ItemAt pos pieces stuck i item before after := by
  -- an item that ends the stream is the only one left
  have honly : ∀ {pos : Position} {pieces : List (Rule × List Char)} {stuck : List Char}
      {last : Except LexError Lexeme}, MadeOf stuck pieces last → itemPos last = pos →
      ∀ i item, [last][i]? = some item → ∃ before after, ItemAt pos pieces stuck i item before after := by
    intro pos pieces stuck last hmade hpos i item hitem
    cases i with
    | zero =>
      cases hitem
      exact ⟨[], pieces, itemAt_front hmade hpos⟩
    | succ i => cases hitem
  induction h with
  | complete => exact honly (.endOfInput rfl) rfl
  | stuck => exact honly (.stuck rfl) (pos_stuckError _ _ _)
  | bad kept meaningless => exact honly (.bad kept meaningless) (Rule.pos_error _ _ _)
  | @skip pos r piece stuck pieces ls ending skipped _ ih =>
    intro i item hitem
    obtain ⟨before, after, hat⟩ := ih i item hitem
    exact ⟨_, after, hat.cons (by rw [if_pos skipped, Nat.add_zero])⟩
  | @token pos r piece stuck pieces t ls ending decodes _ ih =>
    intro i item hitem
    cases i with
    | zero =>
      cases hitem
      exact ⟨[], _, itemAt_front (.token decodes) rfl⟩
    | succ i =>
      obtain ⟨before, after, hat⟩ := ih i item hitem
      exact ⟨_, after, hat.cons (by rw [decodes.kept]; rfl)⟩

/-- From `pos` on, the items report positions that increase. -/
theorem Reads.increasing {pos : Position} {pieces : List (Rule × List Char)} {stuck : List Char}
    {ls : List Lexeme} {ending : Ending} (h : Reads pos pieces stuck ls ending)
    (hfits : ∀ piece ∈ pieces, piece.2 ∈ piece.1.pattern) :
    ((Scanned.mk ls ending).items.map itemPos).Pairwise Position.Before ∧
      ∀ p ∈ (Scanned.mk ls ending).items.map itemPos, p = pos ∨ pos.Before p := by
  have honly : ∀ {pos : Position} {last : Except LexError Lexeme}, itemPos last = pos →
      ([last].map itemPos).Pairwise Position.Before ∧
        ∀ p ∈ [last].map itemPos, p = pos ∨ pos.Before p := by
    intro pos last hpos
    refine ⟨List.pairwise_singleton _ _, fun p hp => ?_⟩
    rw [List.map_singleton, List.mem_singleton] at hp
    exact .inl (hp.trans hpos)
  -- every piece has a first character, so that what stands behind it is reported behind it
  have hlater : ∀ {pos p : Position} {r : Rule} {piece : List Char}, piece ∈ r.pattern →
      (p = piece.foldl Position.advance pos ∨ (piece.foldl Position.advance pos).Before p) →
        pos.Before p := by
    intro pos p r piece hpiece hp
    obtain ⟨c, v, rfl, -⟩ := Rule.opening_of_mem hpiece
    have hbefore := Position.before_foldl (List.cons_ne_nil c v) pos
    rcases hp with rfl | hp
    · exact hbefore
    · exact hbefore.trans hp
  induction h with
  | complete => exact honly rfl
  | stuck => exact honly (pos_stuckError _ _ _)
  | bad => exact honly (Rule.pos_error _ _ _)
  | skip _ _ ih =>
    obtain ⟨hpiece, hpieces⟩ := List.forall_mem_cons.mp hfits
    obtain ⟨hpairwise, hbounds⟩ := ih hpieces
    exact ⟨hpairwise, fun p hp => .inr (hlater hpiece (hbounds p hp))⟩
  | token _ _ ih =>
    obtain ⟨hpiece, hpieces⟩ := List.forall_mem_cons.mp hfits
    obtain ⟨hpairwise, hbounds⟩ := ih hpieces
    have hafter := fun p hp => hlater hpiece (hbounds p hp)
    refine ⟨List.pairwise_cons.mpr ⟨hafter, hpairwise⟩, fun p hp => ?_⟩
    rcases List.mem_cons.mp hp with hp | hp
    · exact .inl hp
    · exact .inr (hafter p hp)

/-! ## Whole texts -/

theorem Cuts.fits {input stuck : List Char} {pieces : List (Rule × List Char)}
    (h : Cuts input pieces stuck) : ∀ piece ∈ pieces, piece.2 ∈ piece.1.pattern := by
  induction h with
  | stop => exact List.forall_mem_nil _
  | step munches _ ih => exact List.forall_mem_cons.mpr ⟨munches.fits, ih⟩

theorem Cuts.text {input stuck : List Char} {pieces : List (Rule × List Char)}
    (h : Cuts input pieces stuck) : input = pieces.flatMap Prod.snd ++ stuck := by
  induction h with
  | stop => rfl
  | step _ _ ih => rw [List.flatMap_cons, List.append_assoc, ← ih]

/-- Positions are exact. A text is cut into pieces in one way. Each item of its stream is made of the
piece behind some others, or of what is behind all of them (the end of the text, if nothing is left). The
position that it reports is the position behind the bytes of these others. A count that is kept at line
breaks and block comments only leads to the same position, and its line never starts behind the offset.
The positions along the stream increase strictly. -/
theorem positions_exact (source : String) : ∃ pieces stuck, Cuts source.toList pieces stuck ∧
    (∀ pieces' stuck', Cuts source.toList pieces' stuck' → pieces' = pieces ∧ stuck' = stuck) ∧
    (∀ i item, (scanText source).items[i]? = some item → ∃ before after offset,
      pieces = before ++ after ∧ keptCount before = i ∧ MadeOf stuck after item ∧
      source.toList = before.flatMap Prod.snd ++ (after.flatMap Prod.snd ++ stuck) ∧
      offset = (utf8 (before.flatMap Prod.snd)).length ∧
      Position.Behind (source.toUTF8.data.toList.take offset) (itemPos item) ∧
      (Bookmark.first.through 0 before).start ≤ offset ∧
      (Bookmark.first.through 0 before).positionOf offset = itemPos item) ∧
    ((scanText source).items.map itemPos).Pairwise Position.Before := by
  obtain ⟨pieces, stuck, hcuts⟩ := exists_cuts source.toList
  have hreads : Reads .start pieces stuck (scanText source).lexemes (scanText source).ending :=
    hcuts.reads .start
  refine ⟨pieces, stuck, hcuts, fun _ _ h => hcuts.unique h, ?_, (hreads.increasing hcuts.fits).1⟩
  intro i item hitem
  obtain ⟨before, after, hat⟩ := hreads.items i item hitem
  have htext : source.toList = before.flatMap Prod.snd ++ (after.flatMap Prod.snd ++ stuck) := by
    rw [← List.append_assoc, ← List.flatMap_append, ← hat.split]
    exact hcuts.text
  have hbytes : source.toUTF8.data.toList.take (utf8 (before.flatMap Prod.snd)).length =
      utf8 (before.flatMap Prod.snd) := by
    rw [toUTF8_toList, htext, utf8_append, List.take_left]
  have hbehind : Position.Behind (utf8 (before.flatMap Prod.snd)) (itemPos item) := by
    rw [hat.pos]
    exact Position.behind_nil.foldl (before.flatMap Prod.snd)
  have hfits : ∀ piece ∈ before, piece.2 ∈ piece.1.pattern := fun piece hpiece =>
    hcuts.fits piece (hat.split ▸ List.mem_append_left after hpiece)
  have hmarks : Bookmark.Marks (utf8 (before.flatMap Prod.snd)) (Bookmark.first.through 0 before) :=
    Bookmark.marks_first.through hfits
  exact ⟨before, after, _, hat.split, hat.number, hat.made, htext, rfl, hbytes.symm ▸ hbehind,
    hmarks.start.le, hbehind.unique hmarks.behind⟩

end Primer
