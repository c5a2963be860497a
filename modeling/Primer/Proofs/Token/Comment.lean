import Primer.Proofs.Token.Delimited

/-!
# Block comments end at the first terminator

The pattern of block comments speaks of runs of stars and of what may follow them. It matches exactly the
texts between `/*` and the first `*/` behind it, so the scanner cannot swallow what stands between two
comments.

- `ClosesAt` says that a star and a slash stand at an offset, and `FirstClose` that this is the first such
  offset behind the opening of a comment.
- `blockCommentEnd?_eq_some_iff` and `blockCommentEnd?_eq_none_iff`: the scanner searches for this offset.
- `Boundary` are the places between two pieces of a text, where a token may begin.
- `blockComment_first_close` says what the pattern matches, and what a scan does at a boundary with `/*`
  behind it.
-/

namespace Primer

open Pattern

/-! ## Terminators -/

/-- A star and a slash stand at the offset `i` of the text. -/
def ClosesAt (cs : List Char) (i : Nat) : Prop :=
  ['*', '/'] <+: cs.drop i

instance (cs : List Char) (i : Nat) : Decidable (ClosesAt cs i) :=
  inferInstanceAs (Decidable (_ <+: _))

theorem closesAt_cons {c : Char} {cs : List Char} {i : Nat} : ClosesAt (c :: cs) (i + 1) ↔ ClosesAt cs i :=
  Iff.rfl

theorem closesAt_zero {c d : Char} {cs : List Char} : ClosesAt (c :: d :: cs) 0 ↔ c = '*' ∧ d = '/' := by
  simp only [ClosesAt, List.drop_zero, List.cons_prefix_cons, List.nil_prefix, and_true]
  exact and_congr eq_comm eq_comm

/-- Two characters stand behind the offset. -/
theorem ClosesAt.lt {cs : List Char} {i : Nat} (h : ClosesAt cs i) : i + 2 ≤ cs.length := by
  have hlength := h.length_le
  rw [List.length_drop, List.length_cons, List.length_singleton] at hlength
  omega

/-- A text ends with a terminator if there is one in front of its end. -/
theorem suffix_iff_closesAt {cs : List Char} :
    ['*', '/'] <:+ cs ↔ ∃ i, i + 2 = cs.length ∧ ClosesAt cs i := by
  constructor
  · rintro ⟨front, rfl⟩
    exact ⟨front.length, by simp, by rw [ClosesAt, List.drop_left]⟩
  · rintro ⟨i, hi, hcloses⟩
    have hall : ['*', '/'] = cs.drop i :=
      hcloses.eq_of_length (by rw [List.length_drop, ← hi, Nat.add_sub_cancel_left]; rfl)
    rw [hall]
    exact List.drop_suffix i cs

theorem blockCommentEnd?_of_closesAt {cs : List Char} (h : ClosesAt cs 0) :
    blockCommentEnd? cs = some 2 := by
  obtain ⟨rest, rfl⟩ := h
  simp [blockCommentEnd?]

theorem blockCommentEnd?_of_not_closesAt {c : Char} {cs : List Char} (h : ¬ ClosesAt (c :: cs) 0) :
    blockCommentEnd? (c :: cs) = (blockCommentEnd? cs).map (· + 1) := by
  cases cs with
  | nil => rfl
  | cons d cs => rw [blockCommentEnd?, if_neg fun hcd => h (closesAt_zero.mpr hcd)]

/-- The end that is searched for lies behind the first terminator. -/
theorem blockCommentEnd?_eq_some_iff {cs : List Char} {n : Nat} :
    blockCommentEnd? cs = some n ↔ ∃ i, n = i + 2 ∧ ClosesAt cs i ∧ ∀ j < i, ¬ ClosesAt cs j := by
  induction cs generalizing n with
  | nil => simp [blockCommentEnd?, ClosesAt]
  | cons c cs ih =>
    by_cases hhere : ClosesAt (c :: cs) 0
    · rw [blockCommentEnd?_of_closesAt hhere]
      constructor
      · rintro ⟨⟩
        exact ⟨0, rfl, hhere, fun _ hj => absurd hj (Nat.not_lt_zero _)⟩
      · rintro ⟨i, rfl, -, hfirst⟩
        cases i with
        | zero => rfl
        -- a terminator at the very front would be earlier than the one at `i + 1`
        | succ i => exact absurd hhere (hfirst 0 (Nat.succ_pos i))
    · simp only [blockCommentEnd?_of_not_closesAt hhere, Option.map_eq_some_iff, ih]
      constructor
      · rintro ⟨_, ⟨i, rfl, hcloses, hfirst⟩, rfl⟩
        refine ⟨i + 1, rfl, closesAt_cons.mpr hcloses, fun j hj => ?_⟩
        cases j with
        | zero => exact hhere
        | succ j => exact fun h => hfirst j (Nat.lt_of_succ_lt_succ hj) (closesAt_cons.mp h)
      · rintro ⟨i, rfl, hcloses, hfirst⟩
        cases i with
        | zero => exact absurd hcloses hhere
        | succ i =>
          refine ⟨i + 2, ⟨i, rfl, closesAt_cons.mp hcloses, fun j hj h => ?_⟩, rfl⟩
          exact hfirst (j + 1) (Nat.succ_lt_succ hj) (closesAt_cons.mpr h)

/-- The search fails if there is no terminator. -/
theorem blockCommentEnd?_eq_none_iff {cs : List Char} :
    blockCommentEnd? cs = none ↔ ∀ i, ¬ ClosesAt cs i := by
  constructor
  · intro hnone i
    -- the first terminator would have been found
    induction i using Nat.strong_induction_on with
    | h i ih =>
      intro hcloses
      rw [blockCommentEnd?_eq_some_iff.mpr ⟨i, rfl, hcloses, ih⟩] at hnone
      cases hnone
  · intro hnever
    rw [Option.eq_none_iff_forall_ne_some]
    intro n hn
    obtain ⟨i, -, hcloses, -⟩ := blockCommentEnd?_eq_some_iff.mp hn
    exact hnever i hcloses

/-! ## The pattern -/

/-- The inside of a comment with its end is a text in which the search comes to the very end. -/
theorem mem_commentTail_iff {v : List Char} : v ∈ commentTail ↔ blockCommentEnd? v = some v.length := by
  constructor
  · intro h
    simpa using blockCommentEnd?_append h []
  · intro h
    obtain ⟨u, rest, hv, hlength, hu⟩ := blockCommentEnd?_eq_some.mp h
    obtain rfl : u = v := List.IsPrefix.eq_of_length ⟨rest, hv.symm⟩ hlength
    exact hu

/-- A block comment opens and ends as it should, and no terminator stands inside. -/
theorem mem_blockComment_iff {w : List Char} : w ∈ Rule.blockComment.pattern ↔
    ['/', '*'] <+: w ∧ 4 ≤ w.length ∧ ['*', '/'] <:+ w ∧
      ∀ i, 2 ≤ i → ClosesAt w i → i + 2 = w.length := by
  constructor
  · intro h
    obtain ⟨v, rfl, hv⟩ := mem_text_mul.mp h
    obtain ⟨i, hi, hcloses, hfirst⟩ := blockCommentEnd?_eq_some_iff.mp (mem_commentTail_iff.mp hv)
    have hlength : ("/*".toList ++ v).length = v.length + 2 := rfl
    -- the opening is two characters long, so places inside are two less than places in the comment
    refine ⟨List.prefix_append _ v, by omega, suffix_iff_closesAt.mpr ⟨i + 2, by omega, hcloses⟩, ?_⟩
    intro j hj hcloses'
    obtain ⟨k, rfl⟩ := Nat.exists_eq_add_of_le' hj
    have hle : k + 2 ≤ v.length := ClosesAt.lt (show ClosesAt v k from hcloses')
    -- a terminator inside that is not the last one would be in front of the first one
    have hge : ¬ k < i := fun hlt => hfirst k hlt hcloses'
    omega
  · rintro ⟨⟨v, rfl⟩, hlong, hsuffix, honly⟩
    have hlength : (['/', '*'] ++ v).length = v.length + 2 := rfl
    obtain ⟨j, hj, hcloses⟩ := suffix_iff_closesAt.mp hsuffix
    obtain ⟨i, rfl⟩ := Nat.exists_eq_add_of_le' (show 2 ≤ j by omega)
    refine mem_text_mul.mpr ⟨v, rfl, mem_commentTail_iff.mpr (blockCommentEnd?_eq_some_iff.mpr ?_)⟩
    refine ⟨i, by omega, hcloses, fun k hk hcloses' => ?_⟩
    have hlast := honly (k + 2) (Nat.le_add_left 2 k) hcloses'
    omega

/-! ## Scanning -/

/-- The offset is the first, behind the opening of a comment, at which a star and a slash stand. -/
structure FirstClose (cs : List Char) (k : Nat) : Prop where
  behind : 2 ≤ k
  closes : ClosesAt cs k
  first : ∀ j, 2 ≤ j → j < k → ¬ ClosesAt cs j

/-- A scan of the source comes to a place between two pieces: with the lexemes in front of it, its
position, and the text behind it. -/
inductive Boundary (source : String) : List Lexeme → Position → List Char → Prop where
  | start : Boundary source [] .start source.toList
  | skip {ls : List Lexeme} {pos : Position} {c : Char} {w rest : List Char}
    (reached : Boundary source ls pos (c :: (w ++ rest)))
    (piece : Piece.front c (w ++ rest) = .skip w.length) :
    Boundary source ls ((c :: w).foldl Position.advance pos) rest
  | token {ls : List Lexeme} {pos : Position} {c : Char} {w rest : List Char} {t : Token}
    (reached : Boundary source ls pos (c :: (w ++ rest)))
    (piece : Piece.front c (w ++ rest) = .token t w.length) :
    Boundary source (ls ++ [⟨t, pos⟩]) ((c :: w).foldl Position.advance pos) rest

/-- What is scanned behind a boundary follows the lexemes in front of it. -/
theorem Boundary.scanText_eq {source : String} {ls : List Lexeme} {pos : Position} {text : List Char}
    (h : Boundary source ls pos text) : scanText source = (scan 0 pos text).prepend ls := by
  induction h with
  | start => rfl
  | skip _ piece ih =>
    rw [ih, scan, piece]
    dsimp only
    rw [scan_pending]
    rfl
  | token _ piece ih =>
    rw [ih, scan, piece]
    dsimp only
    rw [scan_pending, ← Scanned.prepend_prepend]
    rfl

theorem line_foldl_advance (cs : List Char) (pos : Position) :
    (cs.foldl Position.advance pos).line = pos.line + cs.count '\n' := by
  induction cs generalizing pos with
  | nil => rfl
  | cons c cs ih =>
    rw [List.foldl_cons, ih, List.count_cons, Position.advance]
    by_cases hc : c = '\n'
    · simp only [hc, if_true, beq_self_eq_true]
      omega
    · simp only [hc, if_false, beq_iff_eq, Nat.add_zero]

section

variable {source : String} {ls : List Lexeme} {pos : Position} {inside : List Char}

/-- A comment that is closed is skipped up to its end. -/
theorem Boundary.comment {i : Nat} (h : Boundary source ls pos ('/' :: '*' :: inside))
    (hclose : FirstClose ('/' :: '*' :: inside) (i + 2)) :
    Boundary source ls (('/' :: '*' :: inside.take (i + 2)).foldl Position.advance pos)
      (inside.drop (i + 2)) := by
  have hend : blockCommentEnd? inside = some (i + 2) := by
    refine blockCommentEnd?_eq_some_iff.mpr ⟨i, rfl, hclose.closes, fun j hj => ?_⟩
    exact hclose.first (j + 2) (Nat.le_add_left 2 j) (Nat.add_lt_add_right hj 2)
  have hlength : (inside.take (i + 2)).length = i + 2 :=
    List.length_take_of_le (ClosesAt.lt (show ClosesAt inside i from hclose.closes))
  have hfront : Piece.front '/' ('*' :: inside) = .skip ('*' :: inside.take (i + 2)).length := by
    rw [List.length_cons, hlength, Nat.add_comm]
    show Piece.ofSlash ('*' :: inside) = _
    simp only [Piece.ofSlash, hend]
    rfl
  refine Boundary.skip (w := '*' :: inside.take (i + 2)) ?_ ?_
  · rwa [List.cons_append, List.take_append_drop]
  · rwa [List.cons_append, List.take_append_drop]

/-- An opening that is not closed is two operators. -/
theorem Boundary.openComment (h : Boundary source ls pos ('/' :: '*' :: inside))
    (hopen : ∀ i, ¬ ClosesAt inside i) :
    Boundary source (ls ++ [⟨.punct .slash, pos⟩, ⟨.punct .star, pos.advance '/'⟩])
      ((pos.advance '/').advance '*') inside := by
  have hslash : Piece.front '/' ('*' :: inside) = .token (.punct .slash) 0 := by
    show Piece.ofSlash ('*' :: inside) = _
    simp only [Piece.ofSlash, blockCommentEnd?_eq_none_iff.mpr hopen]
    rfl
  have hstar : Piece.front '*' inside = .token (.punct .star) 0 := by
    show Piece.ofPunct '*' inside = _
    cases inside <;> rfl
  have hboth := Boundary.token (w := []) (Boundary.token (w := []) h hslash) hstar
  rwa [List.append_assoc] at hboth

end

/-- Block comments end at the first terminator. Their pattern matches the texts that open with `/*`, end
with `*/` behind it, and have no other terminator in between. Where `/*` stands between two pieces of a
text, a scan goes on behind the first terminator with no more lexemes, on the line that the line breaks in
between lead to. If there is no terminator, the slash and the star become two tokens, and the scan goes on
behind them. -/
theorem blockComment_first_close :
    (∀ w, w ∈ Rule.blockComment.pattern ↔
      ['/', '*'] <+: w ∧ 4 ≤ w.length ∧ ['*', '/'] <:+ w ∧
        ∀ i, 2 ≤ i → ClosesAt w i → i + 2 = w.length) ∧
    ∀ source ls pos text, Boundary source ls pos text →
      scanText source = (scan 0 pos text).prepend ls ∧
      (['/', '*'] <+: text →
        (∀ k, FirstClose text k → ∃ pos', Boundary source ls pos' (text.drop (k + 2)) ∧
          pos' = (text.take (k + 2)).foldl Position.advance pos ∧
          pos'.line = pos.line + (text.take (k + 2)).count '\n') ∧
        ((∀ k, 2 ≤ k → ¬ ClosesAt text k) →
          Boundary source (ls ++ [⟨.punct .slash, pos⟩, ⟨.punct .star, pos.advance '/'⟩])
            ((pos.advance '/').advance '*') (text.drop 2))) := by
  refine ⟨fun w => mem_blockComment_iff, fun source ls pos text h => ⟨h.scanText_eq, ?_⟩⟩
  rintro ⟨inside, rfl⟩
  constructor
  · intro k hclose
    obtain ⟨i, rfl⟩ := Nat.exists_eq_add_of_le' hclose.behind
    exact ⟨_, h.comment hclose, rfl, line_foldl_advance _ pos⟩
  · exact fun hopen => h.openComment fun i => hopen (i + 2) (Nat.le_add_left 2 i)

/-- The comment holds a slash behind its opening, a line break, and two stars in front of its last slash.
The opening behind it is not closed. -/
theorem twoOpenings_scanned :
    FirstClose "/*/*\n**/y/*".toList 6 ∧
      Boundary "x/*/*\n**/y/*" [⟨.identifier "x", ⟨1, 1⟩⟩] ⟨2, 4⟩ "y/*".toList ∧
      Boundary "x/*/*\n**/y/*" [⟨.identifier "x", ⟨1, 1⟩⟩, ⟨.identifier "y", ⟨2, 4⟩⟩,
        ⟨.punct .slash, ⟨2, 5⟩⟩, ⟨.punct .star, ⟨2, 6⟩⟩] ⟨2, 7⟩ [] := by
  have hstart : Boundary "x/*/*\n**/y/*" [] .start "x/*/*\n**/y/*".toList := .start
  have hfirst : Boundary "x/*/*\n**/y/*" [⟨.identifier "x", ⟨1, 1⟩⟩] ⟨1, 2⟩ "/*/*\n**/y/*".toList :=
    Boundary.token (c := 'x') (w := []) (t := .identifier "x") hstart rfl
  have hclose : FirstClose "/*/*\n**/y/*".toList 6 := by
    refine ⟨by decide, by decide, fun j hj hlt => ?_⟩
    have hj' : j = 2 ∨ j = 3 ∨ j = 4 ∨ j = 5 := by omega
    rcases hj' with rfl | rfl | rfl | rfl <;> decide
  have hrule := blockComment_first_close.2 "x/*/*\n**/y/*"
  obtain ⟨_, hbehind, rfl, -⟩ := ((hrule _ _ _ hfirst).2 (by decide)).1 6 hclose
  have hsecond : Boundary "x/*/*\n**/y/*" [⟨.identifier "x", ⟨1, 1⟩⟩, ⟨.identifier "y", ⟨2, 4⟩⟩] ⟨2, 5⟩
      "/*".toList :=
    Boundary.token (c := 'y') (w := []) (t := .identifier "y") hbehind rfl
  refine ⟨hclose, hbehind, ((hrule _ _ _ hsecond).2 (by decide)).2 fun k hk hcloses => ?_⟩
  have hlt := hcloses.lt
  have hlength : "/*".toList.length = 2 := rfl
  omega

end Primer
