import Primer.Proofs.Grammar.Reader
import Primer.Proofs.Grammar.Rules

/-!
# Expressions of the grammar are read

Whenever tokens spell an expression by the rules of the grammar, and what comes after them does not
continue it (`Expr.Follows`), the reader returns exactly that expression. Readers look one token
ahead, so the condition is about one token.

- `Expr.Reads.complete` is the statement for every level, by induction on the rules. At the levels of
  the infix operators it is about a chain of operands that may still go on.
- `Expr.Reads.read` is what it says of whole expressions.

Every round of a recursive reader takes a token, so a bound above the number of tokens is enough. The
bounds of nested readers are kept above the number of tokens that are left.
-/

namespace Primer

open Reader

/-! ## The shape of expressions -/

/-- Tokens that an expression may begin with. -/
def Token.opensExpr : Token → Bool
  | .integer _ | .char _ | .string _ | .identifier _ => true
  | .punct .leftParen | .punct .minus | .punct .bang => true
  | _ => false

theorem Literal.Spelt.opens {t : Token} {value : Literal} (h : Literal.Spelt t value) :
    t.opensExpr = true ∧ t.unaryOp? = none := by
  cases h <;> exact ⟨rfl, rfl⟩

theorem UnaryOp.Spelt.opens {t : Token} {op : UnaryOp} (h : UnaryOp.Spelt t op) :
    t.opensExpr = true := by
  cases h <;> rfl

/-- Delimiters that stand behind expressions. -/
def Punct.endsExpr : Punct → Bool
  | .semicolon | .comma | .rightParen => true
  | _ => false

namespace Expr

variable {level : Nat} {e : Expr} {ts rest : List Lexeme}

theorem Reads.level_le : ∀ {level : Nat} {e : Expr} {ts rest : List Lexeme},
    Expr.Reads level ts e rest → level ≤ 9
  | _, _, _, _, .literal _ | _, _, _, _, .var | _, _, _, _, .call _ | _, _, _, _, .paren _ => by decide
  | _, _, _, _, .unary _ _ | _, _, _, _, .assign _ _ => by decide
  | _, _, _, _, .binary _ spelt _ => Nat.le_trans spelt.bounds.2 (by decide)
  | _, _, _, _, .tighter reads => by
    have := reads.level_le
    omega

theorem Reads.opens : ∀ {level : Nat} {e : Expr} {ts rest : List Lexeme},
    Expr.Reads level ts e rest → ∃ l more, ts = l :: more ∧ l.token.opensExpr = true
  | _, _, _, _, .literal spelt => ⟨_, _, rfl, spelt.opens.1⟩
  | _, _, _, _, .var | _, _, _, _, .call _ | _, _, _, _, .paren _ => ⟨_, _, rfl, rfl⟩
  | _, _, _, _, .unary spelt _ => ⟨_, _, rfl, spelt.opens⟩
  | _, _, _, _, .binary left _ _ => left.opens
  | _, _, _, _, .assign target _ => target.opens
  | _, _, _, _, .tighter reads => reads.opens

theorem ListReads.notNext_paren {es : List Expr} (h : Expr.ListReads ts es rest) :
    NotNext (.punct .rightParen) ts := by
  have hopens : ∃ l more, ts = l :: more ∧ l.token.opensExpr = true := by
    cases h with
    | last reads => exact reads.opens
    | more reads _ => exact reads.opens
  obtain ⟨l, more, rfl, hl⟩ := hopens
  refine notNext_cons ?_
  rintro hparen
  rw [hparen] at hl
  cases hl

/-- A primary expression does not begin with a prefix operator. -/
theorem Reads.unaryOp?_eq_none (h : Expr.Reads 9 ts e rest) :
    ∀ l ∈ ts.head?, l.token.unaryOp? = none := by
  generalize hlevel : 9 = level at h
  cases h with
  | literal spelt =>
    rintro l ⟨⟩
    exact spelt.opens.2
  | var | call _ | paren _ =>
    rintro l ⟨⟩
    rfl
  | unary => cases hlevel
  | binary _ spelt _ =>
    have := spelt.bounds.2
    omega
  | assign => cases hlevel
  | tighter reads =>
    have := reads.level_le
    omega

mutual

/-- An expression takes at least one token. -/
theorem Reads.shorter : ∀ {level : Nat} {e : Expr} {ts rest : List Lexeme},
    Expr.Reads level ts e rest → rest.length < ts.length
  | _, _, _, _, .literal _ | _, _, _, _, .var => by simp
  | _, _, _, _, .call arguments => by
    have := arguments.shorter
    simp only [List.length_cons]
    omega
  | _, _, _, _, .paren inner => by
    have := inner.shorter
    simp only [List.length_cons] at *
    omega
  | _, _, _, _, .unary _ operand => by
    have := operand.shorter
    simp only [List.length_cons]
    omega
  | _, _, _, _, .binary left _ right => by
    have := left.shorter
    have := right.shorter
    simp only [List.length_cons] at *
    omega
  | _, _, _, _, .assign target value => by
    have := target.shorter
    have := value.shorter
    simp only [List.length_cons] at *
    omega
  | _, _, _, _, .tighter reads => reads.shorter

theorem ArgsRead.shorter : ∀ {args : List Expr} {ts rest : List Lexeme},
    Expr.ArgsRead ts args rest → rest.length < ts.length
  | _, _, _, .none => by simp
  | _, _, _, .some reads => reads.shorter

theorem ListReads.shorter : ∀ {es : List Expr} {ts rest : List Lexeme},
    Expr.ListReads ts es rest → rest.length < ts.length
  | _, _, _, .last reads => by
    have := reads.shorter
    simp only [List.length_cons] at this
    omega
  | _, _, _, .more reads others => by
    have := reads.shorter
    have := others.shorter
    simp only [List.length_cons] at *
    omega

end

/-! ## What may follow an expression -/

/-- What comes next does not continue an expression of the given level: no arguments, no infix
operator that binds as tightly, and behind a whole expression no assignment. -/
structure Follows (level : Nat) (rest : List Lexeme) : Prop where
  paren : NotNext (.punct .leftParen) rest
  operator : ∀ l ∈ rest.head?, ∀ {level' op}, BinaryOp.Spelt level' l.token op → level' < level
  equals : level ≤ 1 → NotNext (.punct .equals) rest

theorem Follows.mono {level' : Nat} (h : Follows level rest) (hle : level ≤ level') :
    Follows level' rest where
  paren := h.paren
  operator := fun l hl _ _ hop => Nat.lt_of_lt_of_le (h.operator l hl hop) hle
  equals := fun hlevel => h.equals (Nat.le_trans hle hlevel)

/-- A delimiter follows any expression. -/
theorem follows_of_endsExpr {p : Punct} {pos : Position} (h : p.endsExpr = true) :
    Follows level (⟨.punct p, pos⟩ :: rest) where
  paren := notNext_cons (by rintro ⟨⟩; cases h)
  operator := by
    rintro l ⟨⟩ level' op hop
    cases p with
    | semicolon | comma | rightParen => cases hop
    | _ => cases h
  equals := fun _ => notNext_cons (by rintro ⟨⟩; cases h)

/-- An infix operator follows its left operand. -/
theorem follows_operator {t : Token} {op : BinaryOp} {pos : Position}
    (hop : BinaryOp.Spelt level t op) : Follows (level + 1) (⟨t, pos⟩ :: rest) where
  paren := notNext_cons (by rintro rfl; cases hop)
  operator := by
    rintro l ⟨⟩ level' op' hop'
    obtain ⟨rfl, -⟩ := hop.unique hop'
    exact Nat.lt_succ_self _
  equals := by
    have := hop.bounds.1
    omega

theorem follows_equals {pos : Position} : Follows 2 (⟨.punct .equals, pos⟩ :: rest) where
  paren := notNext_cons (by decide)
  operator := by
    rintro l ⟨⟩ level' op hop
    cases hop
  equals := fun h => absurd h (by decide)

/-! ## Levels -/

/-- The reader of the levels from `level` on, inside an expression whose nesting is bounded. -/
def ladderAt (bound level : Nat) : Reader Expr :=
  ladder (prefixed (primary (reader bound) (bound + 1)) (bound + 1)) (bound + 1)
    (List.range' level (8 - level))

theorem ladderAt_eight (bound : Nat) :
    ladderAt bound 8 = prefixed (primary (reader bound) (bound + 1)) (bound + 1) := rfl

theorem ladderAt_of_lt (bound : Nat) (h : level < 8) :
    ladderAt bound level = (do
      let left ← ladderAt bound (level + 1)
      chain level (ladderAt bound (level + 1)) (bound + 1) left) := by
  unfold ladderAt
  rw [show 8 - level = (8 - (level + 1)) + 1 by omega, List.range'_succ]
  rfl

theorem reader_succ (bound : Nat) :
    reader (bound + 1) = (do
      let target ← ladderAt bound 2
      match ← accept (.punct .equals) with
      | some pos =>
        let value ← reader bound
        assignTo target value pos
      | none => return target) := rfl

/-- A chain of operands ends where no operator of its level follows. -/
theorem chain_stop {operand : Reader Expr} {bound : Nat} (hbound : 0 < bound)
    (h : Follows level rest) : chain level operand bound e rest = .ok e rest := by
  obtain ⟨bound, rfl⟩ := Nat.exists_eq_succ_of_ne_zero (Nat.ne_of_gt hbound)
  have hnone : ∀ l ∈ rest.head?, operatorAt? level l.token = none := by
    intro l hl
    rw [Option.eq_none_iff_forall_ne_some]
    intro op hop
    exact absurd (h.operator l hl (operatorAt?_eq_some_iff.mp hop)) (Nat.lt_irrefl level)
  rw [chain, bind_ok (take?_none hnone)]
  rfl

/-- One more operand. -/
theorem chain_step {operand : Reader Expr} {bound : Nat} {t : Token} {op : BinaryOp} {pos : Position}
    {right : Expr} (hop : BinaryOp.Spelt level t op) (hright : operand ts = .ok right rest) :
    chain level operand (bound + 1) e (⟨t, pos⟩ :: ts) =
      chain level operand bound (.binary op e right pos) rest := by
  rw [chain, bind_ok (take?_some (operatorAt?_eq_some_iff.mpr hop) pos ts)]
  exact bind_ok hright

/-! ## Expressions -/

/-- The readers of the level return the expression. For infix operators that means: reading comes to
the point where the expression is what stands to the left of the chain so far. -/
structure Complete (level : Nat) (ts : List Lexeme) (e : Expr) (rest : List Lexeme) : Prop where
  primary : level = 9 → ∀ bound, ts.length ≤ bound → NotNext (.punct .leftParen) rest →
    Expr.primary (reader bound) (bound + 1) ts = .ok e rest
  prefixed : level = 8 → ∀ bound more, ts.length ≤ bound → ts.length < more →
    NotNext (.punct .leftParen) rest →
    Expr.prefixed (Expr.primary (reader bound) (bound + 1)) more ts = .ok e rest
  chain : 2 ≤ level → level ≤ 7 → ∀ bound, ts.length ≤ bound → Follows (level + 1) rest →
    ∃ more, rest.length < more ∧
      ladderAt bound level ts = Expr.chain level (ladderAt bound (level + 1)) more e rest
  reader : level = 1 → ∀ bound, ts.length < bound → Follows 1 rest → Expr.reader bound ts = .ok e rest

/-- The levels from a given one on, if what follows ends the expression. -/
theorem Complete.ladder (h : Complete level ts e rest) (hlevel : 2 ≤ level) (hle : level ≤ 8)
    {bound : Nat} (hbound : ts.length ≤ bound) (hfollows : Follows level rest) :
    ladderAt bound level ts = .ok e rest := by
  by_cases h8 : level = 8
  · subst h8
    rw [ladderAt_eight]
    exact h.prefixed rfl bound (bound + 1) hbound (by omega) hfollows.paren
  · obtain ⟨more, hmore, hladder⟩ := h.chain hlevel (by omega) bound hbound
      (hfollows.mono (Nat.le_succ level))
    rw [hladder]
    exact chain_stop (by omega) hfollows

/-- What is complete for primary expressions only. -/
theorem Complete.of_primary
    (h : ∀ bound, ts.length ≤ bound → NotNext (.punct .leftParen) rest →
      Expr.primary (Expr.reader bound) (bound + 1) ts = .ok e rest) : Complete 9 ts e rest where
  primary := fun _ => h
  prefixed := fun h => absurd h (by decide)
  chain := fun _ h => absurd h (by decide)
  reader := fun h => absurd h (by decide)

theorem complete_literal {t : Token} {value : Literal} {pos : Position}
    (spelt : Literal.Spelt t value) :
    Complete 9 (⟨t, pos⟩ :: rest) (.literal value pos) rest := by
  refine .of_primary fun bound _ _ => ?_
  rw [Expr.primary, bind_ok (take?_some (Token.literal?_eq_some_iff.mpr spelt) pos rest)]
  rfl

/-- A name is no literal, so reading goes on with what may follow a name. -/
theorem primary_name {name : String} {pos : Position} {bound : Nat} {expression : Reader Expr} :
    Expr.primary expression bound (.name name pos :: ts) = nameTail expression bound name pos ts := by
  rw [Expr.primary, bind_ok (take?_none (by rintro l ⟨⟩; rfl))]
  rfl

theorem complete_var {name : String} {pos : Position} :
    Complete 9 (.name name pos :: rest) (.var name pos) rest := by
  refine .of_primary fun bound _ hparen => ?_
  rw [primary_name, nameTail, bind_ok (accept_miss hparen)]
  rfl

theorem complete_call {name : String} {args : List Expr} {pos pos' : Position}
    (hargs : ∀ bound, ts.length < bound →
      parenthesized (reader bound) (bound + 1) ts = .ok args rest) :
    Complete 9 (.name name pos :: Punct.leftParen.at pos' :: ts) (.call name args pos) rest := by
  refine .of_primary fun bound hbound _ => ?_
  simp only [List.length_cons] at hbound
  rw [primary_name, nameTail, bind_ok (accept_hit _ pos' ts)]
  exact bind_ok (hargs bound (by omega))

theorem complete_paren {pos pos' : Position}
    (inner : Complete 1 ts e (Punct.rightParen.at pos' :: rest)) :
    Complete 9 (Punct.leftParen.at pos :: ts) e rest := by
  refine .of_primary fun bound hbound _ => ?_
  simp only [List.length_cons] at hbound
  have hinner : reader bound ts = .ok e (Punct.rightParen.at pos' :: rest) :=
    inner.reader rfl bound (by omega) (follows_of_endsExpr rfl)
  rw [Expr.primary, bind_ok (take?_none (by rintro l ⟨⟩; rfl))]
  show (reader bound >>= fun inner => punct .rightParen .closingParen >>= fun _ => pure inner) ts = _
  rw [bind_ok hinner, bind_ok (punct_hit _ _ pos' rest)]
  rfl

theorem complete_unary {t : Token} {op : UnaryOp} {pos : Position} (spelt : UnaryOp.Spelt t op)
    (operand : Complete 8 ts e rest) :
    Complete 8 (⟨t, pos⟩ :: ts) (.unary op e pos) rest where
  primary := fun h => absurd h (by decide)
  prefixed := by
    intro _ bound more hbound hmore hparen
    simp only [List.length_cons] at hbound hmore
    obtain ⟨more, rfl⟩ := Nat.exists_eq_succ_of_ne_zero (show more ≠ 0 by omega)
    rw [Expr.prefixed, bind_ok (take?_some (Token.unaryOp?_eq_some_iff.mpr spelt) pos ts)]
    exact bind_ok (operand.prefixed rfl bound more (by omega) (by omega) hparen)
  chain := fun _ h => absurd h (by decide)
  reader := fun h => absurd h (by decide)

theorem complete_binary {t : Token} {op : BinaryOp} {left right : Expr} {pos : Position}
    {ts' : List Lexeme} (hshort : (⟨t, pos⟩ :: ts' : List Lexeme).length < ts.length)
    (hrest : rest.length < ts'.length) (spelt : BinaryOp.Spelt level t op)
    (hleft : Complete level ts left (⟨t, pos⟩ :: ts')) (hright : Complete (level + 1) ts' right rest) :
    Complete level ts (.binary op left right pos) rest where
  -- no operator binds as tightly as what `primary` and `prefixed` read
  primary := by
    have := spelt.bounds.2
    omega
  prefixed := by
    have := spelt.bounds.2
    omega
  chain := by
    intro hge hle bound hbound hfollows
    simp only [List.length_cons] at hshort
    -- the left operand is part of the chain, which then goes on with this operator
    obtain ⟨more, hmore, hladder⟩ := hleft.chain hge hle bound hbound (follows_operator spelt)
    simp only [List.length_cons] at hmore
    obtain ⟨more, rfl⟩ := Nat.exists_eq_succ_of_ne_zero (show more ≠ 0 by omega)
    have hoperand : ladderAt bound (level + 1) ts' = .ok right rest :=
      hright.ladder (by omega) (by omega) (by omega) hfollows
    exact ⟨more, by omega, hladder.trans (chain_step spelt hoperand)⟩
  -- the loosest level is that of assignment, and no binary operator is on it
  reader := by
    have := spelt.bounds.1
    omega

theorem complete_assign {name : String} {value : Expr} {pos pos' : Position} {ts' : List Lexeme}
    (hshort : (Punct.equals.at pos :: ts').length < ts.length)
    (target : Complete 2 ts (.var name pos') (Punct.equals.at pos :: ts'))
    (hvalue : Complete 1 ts' value rest) : Complete 1 ts (.assign name value pos) rest where
  primary := fun h => absurd h (by decide)
  prefixed := fun h => absurd h (by decide)
  chain := fun h => absurd h (by decide)
  reader := by
    intro _ bound hbound hfollows
    simp only [List.length_cons] at hshort
    -- the right side is read with one round less, and it is shorter by at least two tokens
    obtain ⟨bound, rfl⟩ := Nat.exists_eq_succ_of_ne_zero (show bound ≠ 0 by omega)
    have htarget : ladderAt bound 2 ts = .ok (.var name pos') (Punct.equals.at pos :: ts') :=
      target.ladder (by decide) (by decide) (by omega) follows_equals
    rw [reader_succ, bind_ok htarget, bind_ok (accept_hit _ pos ts')]
    exact bind_ok (hvalue.reader rfl bound (by omega) hfollows)

/-- An expression of a tighter level. -/
theorem complete_tighter (hread : Expr.Reads (level + 1) ts e rest)
    (h : Complete (level + 1) ts e rest) : Complete level ts e rest where
  primary := by
    have := hread.level_le
    omega
  -- an expression that binds more tightly than a prefix does not begin with one
  prefixed := by
    rintro rfl bound more hbound hmore hparen
    obtain ⟨more, rfl⟩ := Nat.exists_eq_succ_of_ne_zero (show more ≠ 0 by omega)
    rw [Expr.prefixed, bind_ok (take?_none hread.unaryOp?_eq_none)]
    exact h.primary rfl bound hbound hparen
  chain := by
    intro hge hle bound hbound hfollows
    have hladder : ladderAt bound (level + 1) ts = .ok e rest :=
      h.ladder (by omega) (by omega) hbound hfollows
    have hshort := hread.shorter
    -- the chain starts with this operand and has taken no operator yet
    refine ⟨bound + 1, by omega, ?_⟩
    rw [ladderAt_of_lt bound (by omega)]
    exact bind_ok hladder
  reader := by
    rintro rfl bound hbound hfollows
    obtain ⟨bound, rfl⟩ := Nat.exists_eq_succ_of_ne_zero (show bound ≠ 0 by omega)
    -- no equals sign follows, so this is no assignment
    have hladder : ladderAt bound 2 ts = .ok e rest :=
      h.ladder (by decide) (by decide) (by omega) (hfollows.mono (by decide))
    rw [reader_succ, bind_ok hladder, bind_ok (accept_miss (hfollows.equals (by decide)))]
    rfl

mutual

/-- Expressions of the grammar are read. -/
theorem Reads.complete : ∀ {level : Nat} {e : Expr} {ts rest : List Lexeme},
    Expr.Reads level ts e rest → Complete level ts e rest
  | _, _, _, _, .literal spelt => complete_literal spelt
  | _, _, _, _, .var => complete_var
  | _, _, _, _, .call arguments => complete_call arguments.complete
  | _, _, _, _, .paren inner => complete_paren inner.complete
  | _, _, _, _, .unary spelt operand => complete_unary spelt operand.complete
  | _, _, _, _, .binary left spelt right =>
    complete_binary left.shorter right.shorter spelt left.complete right.complete
  | _, _, _, _, .assign target value => complete_assign target.shorter target.complete value.complete
  | _, _, _, _, .tighter reads => complete_tighter reads reads.complete

theorem ArgsRead.complete : ∀ {args : List Expr} {ts rest : List Lexeme},
    Expr.ArgsRead ts args rest → ∀ bound, ts.length < bound →
      parenthesized (reader bound) (bound + 1) ts = .ok args rest
  | _, _, _, .none, bound, hbound => by
    rw [parenthesized, bind_ok (accept_hit _ _ _)]
    rfl
  | _, _, _, .some reads, bound, hbound => by
    rw [parenthesized, bind_ok (accept_miss reads.notNext_paren)]
    exact reads.complete bound (bound + 1) hbound (by omega)

theorem ListReads.complete : ∀ {es : List Expr} {ts rest : List Lexeme},
    Expr.ListReads ts es rest → ∀ bound more, ts.length < bound → ts.length < more →
      commaList (reader bound) more ts = .ok es rest
  | _, _, _, .last reads, bound, more, hbound, hmore => by
    obtain ⟨more, rfl⟩ := Nat.exists_eq_succ_of_ne_zero (show more ≠ 0 by omega)
    have hfirst := reads.complete.reader rfl bound hbound (follows_of_endsExpr rfl)
    exact commaList_last hfirst
  | _, _, _, .more reads others, bound, more, hbound, hmore => by
    obtain ⟨more, rfl⟩ := Nat.exists_eq_succ_of_ne_zero (show more ≠ 0 by omega)
    have hfirst := reads.complete.reader rfl bound hbound (follows_of_endsExpr rfl)
    have hshort := reads.shorter
    simp only [List.length_cons] at hshort
    exact commaList_more hfirst (others.complete bound more (by omega) (by omega))

end

/-- A whole expression in front of a delimiter is read. -/
theorem Reads.read {bound : Nat} {p : Punct} {pos : Position}
    (h : Expr.Reads 1 ts e (p.at pos :: rest)) (hbound : ts.length < bound)
    (hp : p.endsExpr = true) : Expr.reader bound ts = .ok e (p.at pos :: rest) :=
  h.complete.reader rfl bound hbound (follows_of_endsExpr hp)

end Expr

end Primer
