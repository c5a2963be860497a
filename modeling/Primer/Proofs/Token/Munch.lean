import Primer.Proofs.Token.Front
import Primer.Proofs.Token.Lexable

/-!
# Scanning takes the longest match

At every point of a text the piece that is taken is the longest that any pattern matches, up to the end of
the text or the first lexical error.

- `exists_cuts` and `Cuts.unique`: a text is cut in exactly one way.
- `Cuts.reads`: a scan reads the pieces that the text is cut into.
- `tokenize_maximal_munch` is the statement for whole texts.
-/

namespace Primer

open Escape

/-! ## Reading and cutting in one way only -/

theorem Rule.Decodes.kept {r : Rule} {piece : List Char} {t : Token} (h : r.Decodes piece t) :
    r.isSkipped = false := by
  cases h <;> rfl

theorem Rule.Decodes.unique {r : Rule} {piece : List Char} {t t' : Token} (h : r.Decodes piece t)
    (h' : r.Decodes piece t') : t = t' := by
  cases h with
  | integer value =>
    cases h' with
    | integer value' => rw [Int64.toInt_inj.mp (value.trans value'.symm)]
  | char means ascii =>
    obtain ⟨c, means', -, rfl⟩ := Rule.decodes_char.mp h'
    cases (decode_eq_some.mpr means).symm.trans (decode_eq_some.mpr means')
    rfl
  | string means =>
    obtain ⟨text, means', rfl⟩ := Rule.decodes_string.mp h'
    cases (decode_eq_some.mpr means).symm.trans (decode_eq_some.mpr means')
    rfl
  | keyword | identifier | punct =>
    cases h'
    rfl

/-- The pieces of a text are read in one way only. -/
theorem Reads.unique {pos : Position} {pieces : List (Rule × List Char)} {stuck : List Char}
    {ls ls' : List Lexeme} {ending ending' : Ending} (h : Reads pos pieces stuck ls ending)
    (h' : Reads pos pieces stuck ls' ending') : ls' = ls ∧ ending' = ending := by
  induction h generalizing ls' with
  | complete | stuck =>
    cases h'
    exact ⟨rfl, rfl⟩
  | skip skipped _ ih =>
    cases h' with
    | skip _ reads => exact ih reads
    -- a rule whose pieces are skipped gives no tokens
    | token decodes _ => cases skipped.symm.trans decodes.kept
    | bad kept _ => cases skipped.symm.trans kept
  | token decodes _ ih =>
    cases h' with
    | skip skipped _ => cases skipped.symm.trans decodes.kept
    | token decodes' reads =>
      obtain ⟨rfl, rfl⟩ := ih reads
      exact ⟨by rw [decodes.unique decodes'], rfl⟩
    | bad _ meaningless => exact absurd decodes (meaningless _)
  | bad kept meaningless =>
    cases h' with
    | skip skipped _ => cases skipped.symm.trans kept
    | token decodes _ => exact absurd decodes (meaningless _)
    | bad _ _ => exact ⟨rfl, rfl⟩

/-- A text is cut in one way only. -/
theorem Cuts.unique {input stuck stuck' : List Char} {pieces pieces' : List (Rule × List Char)}
    (h : Cuts input pieces stuck) (h' : Cuts input pieces' stuck') :
    pieces' = pieces ∧ stuck' = stuck := by
  induction h generalizing pieces' with
  | stop nothing =>
    cases h' with
    | stop _ => exact ⟨rfl, rfl⟩
    | step munches _ => exact absurd munches.fits (nothing _ _ munches.front)
  | @step r piece rest stuck pieces munches _ ih =>
    generalize hinput : piece ++ rest = input at h'
    cases h' with
    | stop nothing =>
      subst hinput
      exact absurd munches.fits (nothing _ _ munches.front)
    | step munches' cuts =>
      rw [hinput] at munches
      obtain ⟨rfl, rfl⟩ := munches.unique munches'
      obtain ⟨rfl, rfl⟩ := ih (List.append_cancel_left hinput ▸ cuts)
      exact ⟨rfl, rfl⟩

/-! ## Whole texts -/

/-- Every text can be cut. -/
theorem exists_cuts (input : List Char) : ∃ pieces stuck, Cuts input pieces stuck := by
  by_cases hmatch : ∃ (r : Rule) (piece : List Char), Munches input r piece
  · obtain ⟨r, piece, munches⟩ := hmatch
    obtain ⟨rest, rfl⟩ := munches.front
    -- the piece has a first character, so that the rest is shorter
    obtain ⟨c, v, rfl, -⟩ := Rule.opening_of_mem munches.fits
    obtain ⟨pieces, stuck, cuts⟩ := exists_cuts rest
    exact ⟨_, stuck, .step munches cuts⟩
  · -- where the scanner finds nothing that matches, nothing does
    refine ⟨[], input, .stop ?_⟩
    cases input with
    | nil =>
      intro r piece hfront hmem
      obtain ⟨c, v, rfl, -⟩ := Rule.opening_of_mem hmem
      cases List.prefix_nil.mp hfront
    | cons c rest =>
      generalize hpiece : Piece.front c rest = piece
      have hsound := Piece.front_sound c rest
      rw [hpiece] at hsound
      cases hsound with
      | skip munches | token munches | bad munches => exact absurd ⟨_, _, munches⟩ hmatch
      | stuck nothing => exact nothing
termination_by input.length

/-- A scan reads the pieces that the text is cut into. -/
theorem Cuts.reads {input stuck : List Char} {pieces : List (Rule × List Char)}
    (h : Cuts input pieces stuck) (pos : Position) :
    Reads pos pieces stuck (scan 0 pos input).lexemes (scan 0 pos input).ending := by
  induction h generalizing pos with
  | @stop input nothing =>
    cases input with
    | nil => exact .complete
    | cons c rest =>
      have hsound := Piece.front_sound c rest
      rw [scan]
      generalize Piece.front c rest = piece at hsound ⊢
      cases hsound with
      | skip munches | token munches | bad munches =>
        exact absurd munches.fits (nothing _ _ munches.front)
      | stuck _ error =>
        dsimp only
        rw [error]
        exact .stuck
  | @step r piece rest stuck pieces munches _ ih =>
    obtain ⟨c, v, rfl, -⟩ := Rule.opening_of_mem munches.fits
    have hsound := Piece.front_sound c (v ++ rest)
    rw [List.cons_append, scan]
    generalize Piece.front c (v ++ rest) = front at hsound ⊢
    -- the piece of the scanner is the piece of the cut, since both are longest
    cases hsound with
    | skip munches' skipped =>
      obtain ⟨rfl, ⟨⟩⟩ := munches.unique munches'
      dsimp only
      rw [scan_pending]
      exact .skip skipped (ih _)
    | token munches' decodes =>
      obtain ⟨rfl, ⟨⟩⟩ := munches.unique munches'
      dsimp only
      rw [scan_pending]
      exact .token decodes (ih _)
    | bad munches' kept meaningless error =>
      obtain ⟨rfl, ⟨⟩⟩ := munches.unique munches'
      dsimp only
      rw [error]
      exact .bad kept meaningless
    | stuck nothing => exact absurd munches.fits (nothing _ _ munches.front)

/-- A text is cut in exactly one way, and scanned piece by piece: its tokens are those that the pieces
stand for, up to the end of the text, up to the first piece that stands for none, or up to where nothing
matches. No token stands for a line break, a comment or the end of the input; the latter is added once. -/
theorem tokenize_maximal_munch (source : String) :
    ∃ pieces stuck, Cuts source.toList pieces stuck ∧
      (∀ pieces' stuck', Cuts source.toList pieces' stuck' → pieces' = pieces ∧ stuck' = stuck) ∧
      ∃ ls ending, scanText source = ⟨ls, ending⟩ ∧
        (∀ ls' ending', Reads .start pieces stuck ls' ending' ↔ ls' = ls ∧ ending' = ending) ∧
        (∀ pos, ending = .complete pos → tokenize source = .ok (ls ++ [⟨.endOfInput, pos⟩])) ∧
        (∀ e, ending = .failed e → tokenize source = .error e) ∧
        ∀ l ∈ ls, l.token ∉ [.comment, .blockComment, .newline, .endOfInput] := by
  obtain ⟨pieces, stuck, hcuts⟩ := exists_cuts source.toList
  have hreads : Reads .start pieces stuck (scanText source).lexemes (scanText source).ending :=
    hcuts.reads .start
  refine ⟨pieces, stuck, hcuts, fun _ _ h => hcuts.unique h, _, _, rfl, ?_, ?_, ?_, ?_⟩
  · intro ls' ending'
    constructor
    · exact fun h => hreads.unique h
    · rintro ⟨rfl, rfl⟩
      exact hreads
  · exact fun pos h => tokenize_eq_ok.mpr ⟨pos, h, rfl⟩
  · exact fun e h => tokenize_eq_error.mpr h
  · intro l hl hmem
    have hlexable := lexable_of_mem_scan hl
    simp only [List.mem_cons, List.not_mem_nil, or_false] at hmem
    rcases hmem with h | h | h | h <;> rw [h] at hlexable <;> cases hlexable

/-- A block comment that is not closed is two operators; the escape after it is unknown. -/
theorem openComment_munch : ∃ pieces stuck, Cuts "a/*'\\q'b".toList pieces stuck ∧
    Reads .start pieces stuck
      [⟨.identifier "a", ⟨1, 1⟩⟩, ⟨.punct .slash, ⟨1, 2⟩⟩, ⟨.punct .star, ⟨1, 3⟩⟩]
      (.failed (.malformedLiteral "'\\q'" ⟨1, 4⟩)) ∧
    tokenize "a/*'\\q'b" = .error (.malformedLiteral "'\\q'" ⟨1, 4⟩) := by
  have hscan : scanText "a/*'\\q'b" =
      ⟨[⟨.identifier "a", ⟨1, 1⟩⟩, ⟨.punct .slash, ⟨1, 2⟩⟩, ⟨.punct .star, ⟨1, 3⟩⟩],
        .failed (.malformedLiteral "'\\q'" ⟨1, 4⟩)⟩ := by decide +kernel
  obtain ⟨pieces, stuck, hcuts, -, ls, ending, heq, hreads, -, herror, -⟩ :=
    tokenize_maximal_munch "a/*'\\q'b"
  cases hscan.symm.trans heq
  exact ⟨pieces, stuck, hcuts, (hreads _ _).mpr ⟨rfl, rfl⟩, herror _ rfl⟩

end Primer
