import Primer.Proofs.Layout.Checking
import Primer.Proofs.Tree.RoundTrip

/-!
# The fewest parentheses

Printing wraps an operand in parentheses only where its place asks for a tighter level than the operand
has. No way to write the expression does with fewer parentheses: where printing writes one, the rules of
the grammar leave no other way.

- `Expr.openingsAt` counts the parentheses that an expression is printed with in a place of some level.
- `Expr.Reads.openings_le` is the lower bound, by induction on the rules: whatever is read as the
  expression at a level holds at least that many.
- `Expr.SpeltBy` are the token lists that are read as the expression.
- `text_fewest_parentheses` is the statement about printed texts.
-/

namespace Primer

/-! ## Counting parentheses -/

/-- The number of opening parentheses among some tokens. -/
def openings (ts : List Token) : Nat :=
  ts.count (.punct .leftParen)

@[simp] theorem openings_nil : openings [] = 0 := rfl

@[simp] theorem openings_append (ts ts' : List Token) :
    openings (ts ++ ts') = openings ts + openings ts' :=
  List.count_append

@[simp] theorem openings_leftParen (ts : List Token) :
    openings (.punct .leftParen :: ts) = openings ts + 1 :=
  List.count_cons_self

theorem openings_cons_of_ne {t : Token} (h : t ≠ .punct .leftParen) (ts : List Token) :
    openings (t :: ts) = openings ts :=
  List.count_cons_of_ne h

theorem openings_le_cons (t : Token) (ts : List Token) : openings ts ≤ openings (t :: ts) :=
  List.count_le_count_cons

theorem openings_wrapTokens (wrap : Bool) (ts : List Token) :
    openings (wrapTokens wrap ts) = openings ts + if wrap then 1 else 0 := by
  cases wrap with
  | false => rfl
  | true =>
    have hclose : openings [Token.punct .rightParen] = 0 := rfl
    simp [wrapTokens, hclose]

/-- A comma between two lists adds no parenthesis. -/
theorem openings_commaTokens (ts : List Token) (rest : List (List Token)) :
    openings (commaTokens (ts :: rest)) = openings ts + openings (commaTokens rest) := by
  cases rest with
  | nil => rfl
  | cons ts' rest =>
    rw [commaTokens, openings_append, openings_cons_of_ne (by decide)]
    exact List.cons_ne_nil ts' rest

theorem UnaryOp.punct_ne_leftParen (op : UnaryOp) : Token.punct op.punct ≠ .punct .leftParen := by
  cases op <;> decide

theorem BinaryOp.punct_ne_leftParen (op : BinaryOp) : Token.punct op.punct ≠ .punct .leftParen := by
  cases op <;> decide

namespace Expr

/-! ## What printing writes -/

mutual

theorem tokens_erase : ∀ e : Expr, e.erase.tokens = e.tokens
  | .literal value pos => rfl
  | .var name pos => rfl
  | .assign name value pos => by
    simp only [erase, tokens, tokens_erase value]
  | .unary op operand pos => by
    simp only [erase, tokens, tokens_erase operand, precedence_erase]
  | .binary op left right pos => by
    simp only [erase, tokens, tokens_erase left, tokens_erase right, precedence_erase]
  | .call name args pos => by
    simp only [erase, tokens, tokenLists_erase args]

theorem tokenLists_erase : ∀ es : List Expr, tokenLists (eraseAll es) = tokenLists es
  | [] => rfl
  | e :: es => by
    simp only [eraseAll, tokenLists, tokens_erase e, tokenLists_erase es]

end

/-- The parentheses that the expression is printed with in a place for expressions of a level. -/
def openingsAt (level : Nat) (e : Expr) : Nat :=
  openings e.tokens + if e.precedence < level then 1 else 0

theorem openingsAt_of_le {level : Nat} {e : Expr} (h : level ≤ e.precedence) :
    e.openingsAt level = openings e.tokens := by
  rw [openingsAt, if_neg (Nat.not_lt.mpr h), Nat.add_zero]

theorem openingsAt_le_succ (level : Nat) (e : Expr) : e.openingsAt level ≤ openings e.tokens + 1 := by
  unfold openingsAt
  split <;> omega

/-- A tighter place asks for as many parentheses at least. -/
theorem openingsAt_mono {level level' : Nat} (h : level ≤ level') (e : Expr) :
    e.openingsAt level ≤ e.openingsAt level' := by
  unfold openingsAt
  by_cases hlevel : e.precedence < level
  · exact Nat.le_of_eq (by rw [if_pos hlevel, if_pos (Nat.lt_of_lt_of_le hlevel h)])
  · rw [if_neg hlevel]
    omega

theorem openings_unary (op : UnaryOp) (e : Expr) (pos : Position) :
    openings (Expr.unary op e pos).tokens = e.openingsAt unaryPrecedence := by
  rw [tokens, openings_cons_of_ne op.punct_ne_leftParen, openings_wrapTokens, openingsAt]
  simp only [decide_eq_true_eq]

theorem openings_binary (op : BinaryOp) (left right : Expr) (pos : Position) :
    openings (Expr.binary op left right pos).tokens =
      left.openingsAt op.precedence + right.openingsAt (op.precedence + 1) := by
  rw [tokens, openings_append, openings_cons_of_ne op.punct_ne_leftParen, openings_wrapTokens,
    openings_wrapTokens, openingsAt, openingsAt]
  simp only [decide_eq_true_eq, Nat.lt_succ_iff]

theorem openings_assign (name : String) (value : Expr) (pos : Position) :
    openings (Expr.assign name value pos).tokens = openings value.tokens := by
  rw [tokens, openings_cons_of_ne (by rintro ⟨⟩), openings_cons_of_ne (by rintro ⟨⟩)]

theorem openings_call (name : String) (args : List Expr) (pos : Position) :
    openings (Expr.call name args pos).tokens = openings (commaTokens (tokenLists args)) + 1 := by
  have hclose : openings [Token.punct .rightParen] = 0 := rfl
  rw [tokens, openings_cons_of_ne (by rintro ⟨⟩), openings_leftParen, openings_append, hclose,
    Nat.add_zero]

/-! ## What reading needs -/

/-- What stands behind a token holds no more parentheses than what begins with it. -/
theorem openings_tail_le (l : Lexeme) (ts : List Lexeme) :
    openings (ts.map Lexeme.token) ≤ openings ((l :: ts).map Lexeme.token) :=
  openings_le_cons l.token (ts.map Lexeme.token)

mutual

/-- What is read as an expression of a level holds the parentheses that printing writes in a place of
this level, and those of what is left over. -/
theorem Reads.openings_le : ∀ {level : Nat} {e : Expr} {ts rest : List Lexeme},
    Expr.Reads level ts e rest →
      e.openingsAt level + openings (rest.map Lexeme.token) ≤ openings (ts.map Lexeme.token)
  | _, .literal value pos, _, rest, .literal spelt => by
    have hopen : (Expr.literal value pos).openingsAt 9 = 0 := by
      rw [openingsAt_of_le (Nat.le_refl 9), tokens]
      cases value <;> rfl
    rw [hopen, Nat.zero_add]
    exact openings_tail_le _ rest
  | _, .var name pos, _, rest, .var => by
    have hopen : (Expr.var name pos).openingsAt 9 = 0 := openingsAt_of_le (Nat.le_refl 9)
    rw [hopen, Nat.zero_add]
    exact openings_tail_le _ rest
  | _, .call name args pos, _, _, .call arguments => by
    have hargs := arguments.openings_le
    rw [openingsAt_of_le (Nat.le_refl 9), openings_call, List.map_cons, List.map_cons,
      openings_cons_of_ne (by rintro ⟨⟩), openings_leftParen]
    omega
  -- a pair of parentheses pays for the one that the level may ask for
  | _, e, _, rest, .paren inner => by
    have hinner := inner.openings_le
    have houter := e.openingsAt_le_succ 9
    rw [openingsAt_of_le e.precedence_bounds.1, List.map_cons, openings_cons_of_ne (by rintro ⟨⟩)] at hinner
    rw [List.map_cons, openings_leftParen]
    omega
  | _, .unary op e pos, _, _, @Reads.unary t _ _ _ ts _ spelt operand => by
    have hoperand := operand.openings_le
    have htail := openings_tail_le ⟨t, pos⟩ ts
    rw [openingsAt_of_le (Nat.le_refl 8), openings_unary]
    exact Nat.le_trans hoperand htail
  | _, .binary op left right pos, _, _,
      @Reads.binary _ t _ _ _ _ _ ts' _ leftReads spelt rightReads => by
    have hleft := leftReads.openings_le
    have hright := rightReads.openings_le
    have htail := openings_tail_le ⟨t, pos⟩ ts'
    obtain rfl := spelt.precedence
    rw [openingsAt_of_le (Nat.le_refl op.precedence), openings_binary]
    omega
  | _, .assign name value pos, _, _, @Reads.assign _ _ _ _ _ ts' _ target valueReads => by
    have htarget := target.openings_le
    have hvalue := valueReads.openings_le
    have htail := openings_tail_le (Punct.equals.at pos) ts'
    rw [openingsAt_of_le value.precedence_bounds.1] at hvalue
    rw [openingsAt_of_le (Nat.le_refl 1), openings_assign]
    omega
  | level, e, _, _, .tighter reads => by
    have hreads := reads.openings_le
    have hlevel := openingsAt_mono (Nat.le_add_right level 1) e
    omega

theorem ArgsRead.openings_le : ∀ {args : List Expr} {ts rest : List Lexeme},
    Expr.ArgsRead ts args rest →
      openings (commaTokens (tokenLists args)) + openings (rest.map Lexeme.token) ≤
        openings (ts.map Lexeme.token)
  | _, _, rest, .none => by
    rw [tokenLists, commaTokens, openings_nil, Nat.zero_add]
    exact openings_tail_le _ rest
  | _, _, _, .some reads => reads.openings_le

theorem ListReads.openings_le : ∀ {es : List Expr} {ts rest : List Lexeme},
    Expr.ListReads ts es rest →
      openings (commaTokens (tokenLists es)) + openings (rest.map Lexeme.token) ≤
        openings (ts.map Lexeme.token)
  | [e], _, rest, @ListReads.last _ pos _ _ reads => by
    have hread := reads.openings_le
    have htail := openings_tail_le (Punct.rightParen.at pos) rest
    rw [openingsAt_of_le e.precedence_bounds.1] at hread
    rw [tokenLists, tokenLists, commaTokens]
    omega
  | e :: es, _, _, @ListReads.more _ _ pos _ ts' _ reads others => by
    have hread := reads.openings_le
    have hothers := others.openings_le
    have htail := openings_tail_le (Punct.comma.at pos) ts'
    rw [openingsAt_of_le e.precedence_bounds.1] at hread
    rw [tokenLists, openings_commaTokens]
    omega

end

/-! ## Ways to write an expression -/

/-- Only end markers are left. -/
def AtEnd (rest : List Lexeme) : Prop :=
  ∀ l ∈ rest, l.token = .endOfInput

theorem follows_of_atEnd {rest : List Lexeme} (h : AtEnd rest) : Follows 1 rest where
  paren := by
    intro l hl hparen
    cases (h l (List.mem_of_mem_head? hl)).symm.trans hparen
  operator := by
    intro l hl level op hop
    rw [h l (List.mem_of_mem_head? hl)] at hop
    cases hop
  equals := by
    intro _ l hl hequals
    cases (h l (List.mem_of_mem_head? hl)).symm.trans hequals

/-- The tokens are read as the expression, positions aside, and none is left but end markers. -/
def SpeltBy (e : Expr) (ts : List Lexeme) : Prop :=
  ∃ e' rest, readExpression ts = .ok (e', rest) ∧ e'.erase = e.erase ∧ AtEnd rest

end Expr

theorem reads_of_readExpression {tokens rest : List Lexeme} {e : Expr}
    (h : readExpression tokens = .ok (e, rest)) : Expr.Reads 1 tokens e rest :=
  Expr.reader_takes _ (Reader.read_eq_ok_iff.mp h)

theorem readExpression_of_reads {tokens rest : List Lexeme} {e : Expr}
    (h : Expr.Reads 1 tokens e rest) (hrest : Expr.Follows 1 rest) :
    readExpression tokens = .ok (e, rest) :=
  Reader.read_eq_ok_iff.mpr (h.complete.reader rfl (tokens.length + 1) (Nat.lt_succ_self _) hrest)

/-- Reading tokens without positions gives the same expression, without positions. -/
theorem readExpression_of_erased {tokens rest' : List Lexeme} {e' : Expr}
    (h : readExpression (tokens.map Lexeme.erase) = .ok (e', rest')) :
    ∃ e rest, readExpression tokens = .ok (e, rest) ∧ e.erase = e' ∧ rest.map Lexeme.erase = rest' := by
  have herased := Reader.read_eq_ok_iff.mp h
  rw [List.length_map, Expr.erases_reader] at herased
  cases hread : Expr.reader (tokens.length + 1) tokens with
  | ok e rest =>
    rw [hread] at herased
    cases herased
    exact ⟨e, rest, Reader.read_eq_ok_iff.mpr hread, rfl, rfl⟩
  | _ =>
    rw [hread] at herased
    cases herased

namespace Expr

/-- Any list that holds the tokens that an expression is printed with, with end markers behind them or
not, is one that the expression is spelt by. -/
theorem speltBy_of_tokens {e : Expr} {ts : List Lexeme} {ends : List Token}
    (hts : ts.map Lexeme.token = e.tokens ++ ends) (hends : ∀ t ∈ ends, t = .endOfInput) :
    e.SpeltBy ts := by
  have hend : AtEnd (lexemesOf ends) := by
    intro l hl
    obtain ⟨t, ht, rfl⟩ := List.mem_map.mp hl
    exact hends t ht
  have herased : readExpression (ts.map Lexeme.erase) = .ok (e.erase, lexemesOf ends) := by
    rw [map_erase_eq, hts, lexemesOf_append]
    exact readExpression_of_reads (e.reads_whole _) (follows_of_atEnd hend)
  obtain ⟨e', rest, hread, he', hrest⟩ := readExpression_of_erased herased
  refine ⟨e', rest, hread, he', fun l hl => ?_⟩
  exact hend l.erase (hrest ▸ List.mem_map_of_mem hl)

/-- Whatever an expression is spelt by holds the parentheses that it is printed with. -/
theorem SpeltBy.openings_le {e : Expr} {ts : List Lexeme} (h : e.SpeltBy ts) :
    openings e.tokens ≤ openings (ts.map Lexeme.token) := by
  obtain ⟨e', rest, hread, herase, -⟩ := h
  have hreads := (reads_of_readExpression hread).openings_le
  have htokens : e'.tokens = e.tokens := by
    rw [← e'.tokens_erase, herase, e.tokens_erase]
  rw [openingsAt_of_le e'.precedence_bounds.1, htokens] at hreads
  omega

end Expr

/-- An expression that was read from a text is printed with the fewest parentheses: its printed form is
read as the expression, positions aside, and so is no token list with fewer opening parentheses. -/
theorem text_fewest_parentheses {source : String} {tokens rest : List Lexeme} {e : Expr}
    (htokens : tokenize source = .ok tokens) (hread : readExpression tokens = .ok (e, rest)) :
    ∃ printed, tokenize e.text = .ok printed ∧ e.SpeltBy printed ∧ e.SpeltBy printed.dropLast ∧
      ∀ ts, e.SpeltBy ts →
        openings (printed.map Lexeme.token) ≤ openings (ts.map Lexeme.token) := by
  have hscannable := scannable_of_tokenize htokens
  have hlexable : Lexable e.tokens := ((reads_of_readExpression hread).lexable hscannable).1
  obtain ⟨printed, hprinted, hkinds⟩ := (e.spells hlexable [] (by simp [Ends])).tokenize_eq
  refine ⟨printed, hprinted, ?_, ?_, fun ts hts => ?_⟩
  · exact Expr.speltBy_of_tokens hkinds (by simp)
  · have hbare : printed.dropLast.map Lexeme.token = e.tokens ++ [] := by
      rw [List.map_dropLast, hkinds, List.dropLast_concat, List.append_nil]
    exact Expr.speltBy_of_tokens hbare (by simp)
  · have hend : openings [Token.endOfInput] = 0 := rfl
    rw [hkinds, openings_append, hend, Nat.add_zero]
    exact hts.openings_le

/-- Parentheses that are needed and parentheses that are not. Needed are those around a sum under a
prefix operator, around a right operand of the same precedence and around an assignment in a sum, and
that of the call. -/
def needlessParentheses : String :=
  "(x) = -(a + b) * ((c)) - (d - f((y = 1) + 2, (z))) // all of it"

theorem needlessParentheses_printed : ∃ tokens e rest printed,
    tokenize needlessParentheses = .ok tokens ∧ readExpression tokens = .ok (e, rest) ∧
      e.text = "x = -(a + b) * c - (d - f((y = 1) + 2, z))" ∧ tokenize e.text = .ok printed ∧
      openings (tokens.map Lexeme.token) = 8 ∧ openings (printed.map Lexeme.token) = 4 ∧
      ∀ ts, e.SpeltBy ts → 4 ≤ openings (ts.map Lexeme.token) := by
  have hvalues : ((tokenize needlessParentheses).toOption.bind fun tokens =>
      (readExpression tokens).toOption.bind fun found =>
        (tokenize found.1.text).toOption.map fun printed =>
          (found.1.text, openings (tokens.map Lexeme.token), openings (printed.map Lexeme.token))) =
        some ("x = -(a + b) * c - (d - f((y = 1) + 2, z))", 8, 4) := by decide +kernel
  obtain ⟨tokens, htokens, hvalues⟩ := Option.bind_eq_some_iff.mp hvalues
  obtain ⟨⟨e, rest⟩, hread, hvalues⟩ := Option.bind_eq_some_iff.mp hvalues
  obtain ⟨printed, hprinted, hvalues⟩ := Option.map_eq_some_iff.mp hvalues
  obtain ⟨htext, hcount, hfewest⟩ : e.text = _ ∧ openings (tokens.map Lexeme.token) = _ ∧
      openings (printed.map Lexeme.token) = _ := by simpa using hvalues
  rw [toOption_eq_some] at htokens hread hprinted
  obtain ⟨printed', hprinted', -, -, hminimal⟩ := text_fewest_parentheses htokens hread
  obtain rfl : printed = printed' := Except.ok.inj (hprinted.symm.trans hprinted')
  refine ⟨tokens, e, rest, printed, htokens, hread, htext, hprinted, hcount, hfewest, fun ts hts => ?_⟩
  exact hfewest ▸ hminimal ts hts

end Primer
