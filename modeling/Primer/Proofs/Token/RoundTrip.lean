import Primer.Proofs.Token.Lexable
import Primer.Proofs.Grammar.Complete.Program

/-!
# The round trip of tokens

Tokens that texts hold can be written down, one blank between each two of them, and are read back as they
were; and every token that is read is one of these. Numbers are read without their sign, so that the sign
that a case label may have never takes them out of range.

- `spells_spaced`: the tokens of a text with one blank between each two tokens.
- `tokens_round_trip` is the statement about both directions.
-/

namespace Primer

/-- A blank ends every token. -/
theorem Token.endsAt_space (t : Token) (rest : List Char) : t.EndsAt (' ' :: rest) := by
  cases t with
  | integer n | identifier name | keyword k => exact ends_cons (by decide)
  | punct p =>
    rintro c ⟨⟩
    cases p <;> rfl
  | char c | string s | comment | blockComment | newline | endOfInput => trivial

theorem Token.endsAt_nil (t : Token) : t.EndsAt [] := by
  cases t with
  | integer n | identifier name | keyword k | punct p => exact fun _ hc => (nomatch hc)
  | char c | string s | comment | blockComment | newline | endOfInput => trivial

/-- Tokens with one blank between each two of them are scanned as these tokens. -/
theorem spells_spaced : ∀ ts : List Token, (∀ t ∈ ts, t.lexable = true) →
    Spells (" ".intercalate (ts.map Token.text)) ts []
  | [], _ => spells_empty []
  | [t], h => by
    rw [List.map_singleton, String.intercalate_singleton]
    exact spells_token (h t (List.mem_singleton_self t)) t.endsAt_nil
  | t :: t' :: ts, h => by
    obtain ⟨ht, hrest⟩ := List.forall_mem_cons.mp h
    have hspace : ∀ rest, Spells " " [] rest := spells_layout (by simp [isLayout, isBlank])
    have htail := (hspace _).append (spells_spaced (t' :: ts) hrest)
    rw [List.map_cons, List.map_cons, String.intercalate_cons_cons, String.append_assoc]
    refine (spells_token ht ?_).append htail
    rw [String.toList_append]
    exact t.endsAt_space _

/-- Tokens that texts hold are read back from their texts, one blank between each two of them; and no
others are read from any text, up to its end or its first lexical error. A number with a minus sign before
it is a label of exactly the value that the two spell, in either arithmetic. -/
theorem tokens_round_trip :
    (∀ ts : List Token, (∀ t ∈ ts, t.lexable = true) →
      ∃ ls, tokenize (" ".intercalate (ts.map Token.text)) = .ok ls ∧
        ls.map Lexeme.token = ts ++ [.endOfInput]) ∧
    ∀ source, (∀ l ∈ (scanText source).lexemes, l.token.lexable = true) ∧
      ∀ ls, tokenize source = .ok ls →
        (∃ init pos, ls = init ++ [⟨.endOfInput, pos⟩] ∧ ∀ l ∈ init, l.token.lexable = true) ∧
        ∀ before rest n pos pos', ls = before ++ ⟨.punct .minus, pos⟩ :: ⟨.integer n, pos'⟩ :: rest →
          (∀ arith, Stmt.caseLabel arith (⟨.punct .minus, pos⟩ :: ⟨.integer n, pos'⟩ :: rest) =
            .ok (.int (-n)) rest) ∧
          (-n).toInt = -n.toInt := by
  refine ⟨fun ts h => (spells_spaced ts h).tokenize_eq, fun source => ?_⟩
  have hlexemes : ∀ l ∈ (scanText source).lexemes, l.token.lexable = true :=
    fun l hl => lexable_of_mem_scan hl
  refine ⟨hlexemes, fun ls h => ?_⟩
  obtain ⟨last, -, rfl⟩ := tokenize_eq_ok.mp h
  refine ⟨⟨_, last, rfl, hlexemes⟩, ?_⟩
  intro before rest n pos pos' hsplit
  have hmem : ⟨.integer n, pos'⟩ ∈ (scanText source).lexemes ++ [⟨.endOfInput, last⟩] := by
    rw [hsplit]
    simp
  have hneg : (-n).toInt = -n.toInt := by
    rcases List.mem_append.mp hmem with hmem | hmem
    · exact Arithmetic.toInt_neg_of_ne (Token.ne_minValue_of_lexable (hlexemes _ hmem))
    · cases List.mem_singleton.mp hmem
  exact ⟨fun arith => (CaseLabel.Reads.negative hneg).read, hneg⟩

/-- Tokens that would run into each other without a blank, and quotes, backslashes and line breaks inside
literals; and the least label. -/
theorem adjacentTokens_round_trip :
    let ts : List Token := [.integer Int64.maxValue, .identifier "iff", .keyword .ifWord, .punct .slash,
      .punct .star, .punct .equals, .punct .equalEqual, .char 39, .char 0, .string "'\"\\\n\r é"]
    (∀ t ∈ ts, t.lexable = true) ∧
    (∃ ls, tokenize (" ".intercalate (ts.map Token.text)) = .ok ls ∧
      ls.map Lexeme.token = ts ++ [.endOfInput]) ∧
    (tokenize "-9223372036854775807").toOption = some ([] ++ ⟨.punct .minus, ⟨1, 1⟩⟩ ::
      ⟨.integer Int64.maxValue, ⟨1, 2⟩⟩ :: [⟨.endOfInput, ⟨1, 21⟩⟩]) ∧
    (-Int64.maxValue).toInt = -Int64.maxValue.toInt := by
  intro ts
  have hlexable : ∀ t ∈ ts, t.lexable = true := by decide +kernel
  have htokens : (tokenize "-9223372036854775807").toOption = some ([] ++ ⟨.punct .minus, ⟨1, 1⟩⟩ ::
      ⟨.integer Int64.maxValue, ⟨1, 2⟩⟩ :: [⟨.endOfInput, ⟨1, 21⟩⟩]) := by decide +kernel
  obtain ⟨hwrite, hread⟩ := tokens_round_trip
  refine ⟨hlexable, hwrite ts hlexable, htokens, ?_⟩
  cases hok : tokenize "-9223372036854775807" with
  | error e =>
    rw [hok] at htokens
    cases htokens
  | ok ls =>
    rw [hok] at htokens
    exact (((hread _).2 ls hok).2 _ _ _ _ _ (Option.some.inj htokens)).2

end Primer
