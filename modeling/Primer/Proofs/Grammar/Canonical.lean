import Primer.Proofs.Grammar.Complete.Expression
import Primer.Proofs.Tree.Erase
import Primer.Proofs.Tree.Tokens

/-!
# The tokens of a printed tree spell the tree

The tokens that a tree is printed with are read, by the rules of the grammar, as the tree itself. A case
label that is the least number is printed with a minus sign, so this takes wrapping arithmetic.

- `Expr.reads_tokens` is the statement for expressions, and holds of all of them: parentheses are
  written wherever the place of an operand asks for a tighter level than it has.
- `Stmt.Reads.canonical` is the statement for statements. It is by induction on the rules, because a
  statement has to be one that can be read at all: no declaration as a branch, and no `if` without
  `else` in front of an `else`.
- `Program.Reads.tokens` is the statement for programs.
-/

namespace Primer

/-! ## Expressions -/

theorem Literal.spelt_token (value : Literal) : Literal.Spelt value.token value := by
  cases value <;> constructor

theorem UnaryOp.spelt_punct (op : UnaryOp) : UnaryOp.Spelt (.punct op.punct) op := by
  cases op <;> constructor

/-- An operator is printed as one of the level by which parentheses are placed. -/
theorem BinaryOp.spelt_punct (op : BinaryOp) : BinaryOp.Spelt op.precedence (.punct op.punct) op := by
  cases op <;> constructor

namespace Expr

theorem Reads.loosen {level level' : Nat} {e : Expr} {ts rest : List Lexeme}
    (h : Expr.Reads level ts e rest) (hle : level' ≤ level) : Expr.Reads level' ts e rest := by
  induction hle with
  | refl => exact h
  | step _ ih => exact ih h.tighter

theorem precedence_bounds (e : Expr) : 1 ≤ e.precedence ∧ e.precedence ≤ 9 := by
  cases e with
  | binary op left right pos =>
    have := op.spelt_punct.bounds
    simp only [precedence]
    omega
  | _ => simp [precedence, unaryPrecedence]

/-- The tokens of the expression spell it, at the level of its outermost operator. -/
def Canonical (e : Expr) : Prop :=
  ∀ rest, Expr.Reads e.precedence (lexemesOf e.tokens ++ rest) e.erase rest

/-- An operand is wrapped unless it is of the level that its place asks for. -/
theorem Canonical.wrap {e : Expr} (h : e.Canonical) {level : Nat} {wrap : Bool} (hlevel : level ≤ 9)
    (hwrap : wrap = false → level ≤ e.precedence) (rest : List Lexeme) :
    Expr.Reads level (lexemesOf (wrapTokens wrap e.tokens) ++ rest) e.erase rest := by
  cases wrap with
  | false => exact (h rest).loosen (hwrap rfl)
  | true =>
    have hinner := (h (Punct.rightParen.at .start :: rest)).loosen e.precedence_bounds.1
    have htokens : lexemesOf (wrapTokens true e.tokens) ++ rest =
        Punct.leftParen.at .start :: (lexemesOf e.tokens ++ Punct.rightParen.at .start :: rest) := by
      simp [wrapTokens]
    rw [htokens]
    exact (Reads.paren hinner).loosen hlevel

theorem canonical_unary {op : UnaryOp} {e : Expr} {pos : Position} (h : e.Canonical) :
    (Expr.unary op e pos).Canonical := by
  intro rest
  simp only [tokens, erase, lexemesOf_cons, List.cons_append]
  refine .unary op.spelt_punct (h.wrap (by decide) (fun hwrap => ?_) rest)
  exact Nat.le_of_not_lt (of_decide_eq_false hwrap)

theorem canonical_binary {op : BinaryOp} {left right : Expr} {pos : Position} (hleft : left.Canonical)
    (hright : right.Canonical) : (Expr.binary op left right pos).Canonical := by
  intro rest
  have hbounds := op.spelt_punct.bounds
  simp only [tokens, erase, lexemesOf_append, lexemesOf_cons, List.append_assoc, List.cons_append]
  show Expr.Reads op.precedence _ _ rest
  refine .binary (hleft.wrap (by omega) (fun hwrap => ?_) _) op.spelt_punct
    (hright.wrap (by omega) (fun hwrap => ?_) rest)
  · exact Nat.le_of_not_lt (of_decide_eq_false hwrap)
  · exact Nat.lt_of_not_le (of_decide_eq_false hwrap)

theorem canonical_assign {name : String} {value : Expr} {pos : Position} (h : value.Canonical) :
    (Expr.assign name value pos).Canonical := by
  intro rest
  simp only [tokens, erase, lexemesOf_cons, List.cons_append]
  have htarget : Expr.Reads 2 (.name name .start :: Punct.equals.at .start :: _)
      (.var name .start) (Punct.equals.at .start :: (lexemesOf value.tokens ++ rest)) :=
    Reads.var.loosen (by decide)
  exact .assign htarget ((h rest).loosen value.precedence_bounds.1)

mutual

/-- The tokens of an expression spell it. -/
theorem reads_tokens : ∀ e : Expr, e.Canonical
  | .literal value _ => by
    intro rest
    simp only [tokens, erase]
    exact .literal value.spelt_token
  | .var name _ => by
    intro rest
    simp only [tokens, erase]
    exact .var
  | .assign _ value _ => canonical_assign (reads_tokens value)
  | .unary _ operand _ => canonical_unary (reads_tokens operand)
  | .binary _ left right _ => canonical_binary (reads_tokens left) (reads_tokens right)
  -- the grammar has a rule of its own for an empty list, as the closing parenthesis then follows at
  -- once
  | .call name [] _ => by
    intro rest
    simp only [tokens, tokenLists, commaTokens, erase, eraseAll]
    exact .call .none
  | .call name (e :: es) _ => by
    intro rest
    simp only [tokens, erase, lexemesOf_cons, lexemesOf_append, List.cons_append, List.append_assoc]
    exact .call (.some (listReads_tokens (e :: es) (List.cons_ne_nil e es) rest))

theorem listReads_tokens : ∀ es : List Expr, es ≠ [] → ∀ rest : List Lexeme,
    Expr.ListReads (lexemesOf (commaTokens (tokenLists es)) ++ Punct.rightParen.at .start :: rest)
      (eraseAll es) rest
  | [], hne, _ => absurd rfl hne
  | [e], _, rest => by
    simp only [tokenLists, commaTokens, eraseAll]
    exact .last ((reads_tokens e _).loosen e.precedence_bounds.1)
  | e :: e' :: es, _, rest => by
    have hothers := listReads_tokens (e' :: es) (List.cons_ne_nil e' es) rest
    simp only [tokenLists, commaTokens, eraseAll, lexemesOf_append, lexemesOf_cons,
      List.append_assoc, List.cons_append] at hothers ⊢
    exact .more ((reads_tokens e _).loosen e.precedence_bounds.1) hothers

end

/-- The tokens of an expression spell it as a whole expression. -/
theorem reads_whole (e : Expr) (rest : List Lexeme) :
    Expr.Reads 1 (lexemesOf e.tokens ++ rest) e.erase rest :=
  (reads_tokens e rest).loosen e.precedence_bounds.1

theorem optionReads_tokens (e? : Option Expr) (rest : List Lexeme) :
    Expr.OptionReads (lexemesOf (clauseTokens e?) ++ rest) (e?.map erase) rest := by
  cases e? with
  | none => exact .none
  | some e => exact .some (reads_whole e rest)

end Expr

/-! ## Statements -/

theorem VarDecl.reads_tokens (d : VarDecl) (rest : List Lexeme) :
    VarDecl.Reads (lexemesOf d.tokens ++ rest) d.erase rest := by
  cases d with
  | mk type name init pos =>
    cases init with
    | none => exact .mk .none
    | some e => exact .mk (.some (Expr.reads_whole e rest))

theorem ForInit.reads_tokens (init : Option ForInit) (rest : List Lexeme) :
    ForInit.Reads (lexemesOf ((init.map ForInit.tokens).getD []) ++ rest) (init.map ForInit.erase)
      rest := by
  rcases init with _ | d | e
  · exact .none
  · exact .declare (d.reads_tokens rest)
  · exact .eval (Expr.reads_whole e rest)

theorem CaseLabel.reads_tokens (label : CaseLabel) (rest : List Lexeme) :
    CaseLabel.Reads .wrapping (lexemesOf label.tokens ++ rest) label rest := by
  cases label with
  | char c => exact .char
  | int n =>
    simp only [CaseLabel.tokens]
    by_cases hn : n.toInt < 0
    · rw [if_pos hn]
      by_cases hleast : n = Int64.minValue
      · subst hleast
        exact .least rfl
      · refine .negative ?_
        rw [Arithmetic.toInt_neg_of_ne hleast, Int.neg_neg]
    · rw [if_neg hn]
      exact .int

theorem labelReads_tokens (label : Option CaseLabel) (rest : List Lexeme) :
    CaseGroup.LabelReads .wrapping (lexemesOf (labelTokens label) ++ rest) label .start rest := by
  cases label with
  | none => exact .default
  | some label =>
    simp only [labelTokens, lexemesOf_cons, lexemesOf_append, lexemesOf_nil, List.cons_append,
      List.append_assoc, List.nil_append]
    exact .case (label.reads_tokens _)

theorem Stmt.opensIf_erase : ∀ s : Stmt, s.erase.opensIf = s.opensIf
  | .branch _ _ none _ => by simp [Stmt.erase, Stmt.opensIf]
  | .branch _ _ (some onFalse) _ => by simp [Stmt.erase, Stmt.opensIf, onFalse.opensIf_erase]
  | .whileLoop _ body _ => by simp [Stmt.erase, Stmt.opensIf, body.opensIf_erase]
  | .forLoop _ _ _ body _ => by simp [Stmt.erase, Stmt.opensIf, body.opensIf_erase]
  | .declare _ | .eval _ _ | .block _ _ | .switch _ _ _ | .ret _ _ | .brk _ => by
    simp [Stmt.erase, Stmt.opensIf]

/-- A condition in parentheses. -/
theorem lexemesOf_header (keyword : Keyword) (cond : Expr) :
    lexemesOf (headerTokens keyword cond) =
      keyword.at .start :: Punct.leftParen.at .start ::
        (lexemesOf cond.tokens ++ [Punct.rightParen.at .start]) := by
  simp [headerTokens]

namespace Stmt

/-- The tokens of the statement spell it. -/
def Canonical (s : Stmt) : Prop :=
  ∀ rest, Stmt.Reads .wrapping (lexemesOf s.tokens ++ rest) s.erase rest

/-- The tokens of the statements spell the items of a block. -/
def CanonicalItems (body : List Stmt) : Prop :=
  ∀ rest, Stmt.ItemsRead .wrapping (lexemesOf (lineTokens body) ++ Punct.rightBrace.at .start :: rest)
    (eraseAll body) rest

/-- The tokens of the statements spell the statements of a case group. -/
def CanonicalBody (body : List Stmt) : Prop :=
  ∀ rest, Stmt.BodyReads .wrapping (lexemesOf (lineTokens body) ++ rest) (eraseAll body) rest

/-- The tokens of the case groups spell them. -/
def CanonicalGroups (groups : List CaseGroup) : Prop :=
  ∀ rest, CaseGroup.ListReads .wrapping
    (lexemesOf (CaseGroup.lineTokens groups) ++ Punct.rightBrace.at .start :: rest)
    (CaseGroup.eraseAll groups) rest

variable {e : Expr} {s s' : Stmt} {body : List Stmt} {groups : List CaseGroup} {pos : Position}

-- Every case below unfolds these: their equations are stated here, once for all of them.
attribute [local simp] tokens lineTokens erase eraseAll CaseGroup.lineTokens CaseGroup.eraseAll

/-- An expression statement begins where its expression does. -/
theorem canonical_eval : (Stmt.eval e pos).Canonical := by
  intro rest
  have hreads := Expr.reads_whole e (Punct.semicolon.at .start :: rest)
  simp only [tokens, erase, lexemesOf_append, List.append_assoc]
  cases htokens : e.tokens with
  | nil =>
    -- No expression is spelt by no tokens.
    rw [htokens] at hreads
    obtain ⟨l, ts, hl, hopens⟩ := hreads.opens
    cases hl
    cases hopens
  | cons t ts =>
    rw [htokens] at hreads
    exact .eval hreads

theorem canonical_block (h : CanonicalItems body) : (Stmt.block body pos).Canonical := by
  intro rest
  simp only [tokens, erase, lexemesOf_append, lexemesOf_cons, List.append_assoc, List.cons_append]
  exact .block (h rest)

theorem canonical_branch (h : s.Canonical) : (Stmt.branch e s none pos).Canonical := by
  intro rest
  simp only [tokens, erase, lexemesOf_append, List.append_assoc, List.cons_append, lexemesOf_header]
  exact .branch (Expr.reads_whole e _) (h rest)

theorem canonical_branchElse (h : s.Canonical) (closed : s.opensIf = false) (h' : s'.Canonical) :
    (Stmt.branch e s (some s') pos).Canonical := by
  intro rest
  simp only [tokens, erase, lexemesOf_append, lexemesOf_cons, List.append_assoc, List.cons_append,
    lexemesOf_header]
  exact .branchElse (Expr.reads_whole e _) (h _) (s.opensIf_erase.trans closed) (h' rest)

theorem canonical_whileLoop (h : s.Canonical) : (Stmt.whileLoop e s pos).Canonical := by
  intro rest
  simp only [tokens, erase, lexemesOf_append, List.append_assoc, List.cons_append, lexemesOf_header]
  exact .whileLoop (Expr.reads_whole e _) (h rest)

theorem canonical_forLoop {init : Option ForInit} {cond step : Option Expr} (h : s.Canonical) :
    (Stmt.forLoop init cond step s pos).Canonical := by
  intro rest
  simp only [tokens, erase, lexemesOf_append, lexemesOf_cons, List.append_assoc, List.cons_append]
  exact .forLoop (ForInit.reads_tokens init _) (Expr.optionReads_tokens cond _)
    (Expr.optionReads_tokens step _) (h rest)

theorem canonical_switch (h : CanonicalGroups groups) : (Stmt.switch e groups pos).Canonical := by
  intro rest
  simp only [tokens, erase, lexemesOf_append, lexemesOf_cons, List.append_assoc, List.cons_append,
    lexemesOf_header]
  exact .switch (Expr.reads_whole e _) (h rest)

theorem canonical_ret {value : Option Expr} : (Stmt.ret value pos).Canonical := by
  intro rest
  simp only [tokens, erase, lexemesOf_append, lexemesOf_cons, List.append_assoc, List.cons_append]
  exact .ret (Expr.optionReads_tokens value _)

theorem canonical_brk : (Stmt.brk pos).Canonical := by
  intro rest
  simp only [tokens, erase]
  exact .brk

theorem canonicalItems_nil : CanonicalItems [] := by
  intro rest
  simp only [lineTokens, eraseAll]
  exact .nil

theorem canonicalItems_declare {d : VarDecl} (h : CanonicalItems body) :
    CanonicalItems (.declare d :: body) := by
  intro rest
  simp only [lineTokens, tokens, eraseAll, erase, lexemesOf_append, List.append_assoc]
  exact .declare (d.reads_tokens _) (h rest)

theorem canonicalItems_stmt (hs : s.Canonical) (h : CanonicalItems body) :
    CanonicalItems (s :: body) := by
  intro rest
  simp only [lineTokens, eraseAll, lexemesOf_append, List.append_assoc]
  exact .stmt (hs _) (h rest)

theorem canonicalBody_nil : CanonicalBody [] := by
  intro rest
  simp only [lineTokens, eraseAll]
  exact .nil

theorem canonicalBody_cons (hs : s.Canonical) (h : CanonicalBody body) :
    CanonicalBody (s :: body) := by
  intro rest
  simp only [lineTokens, eraseAll, lexemesOf_append, List.append_assoc]
  exact .cons (hs _) (h rest)

theorem canonicalGroups_nil : CanonicalGroups [] := by
  intro rest
  simp only [CaseGroup.lineTokens, CaseGroup.eraseAll]
  exact .nil

theorem canonicalGroups_cons {label : Option CaseLabel} (hbody : CanonicalBody body)
    (h : CanonicalGroups groups) : CanonicalGroups (.mk label body pos :: groups) := by
  intro rest
  simp only [CaseGroup.lineTokens, CaseGroup.eraseAll, lexemesOf_append, List.append_assoc]
  exact .cons (labelReads_tokens label _) (hbody _) (h rest)

end Stmt

variable {arith : Arithmetic}

mutual

/-- The tokens of a statement that can be read spell it. -/
theorem Stmt.Reads.canonical : ∀ {ts rest : List Lexeme} {s : Stmt},
    Stmt.Reads arith ts s rest → s.Canonical
  | _, _, _, .eval _ => Stmt.canonical_eval
  | _, _, _, .block items => Stmt.canonical_block items.canonical
  | _, _, _, .branch _ onTrue => Stmt.canonical_branch onTrue.canonical
  | _, _, _, .branchElse _ onTrue closed onFalse =>
    Stmt.canonical_branchElse onTrue.canonical closed onFalse.canonical
  | _, _, _, .whileLoop _ body => Stmt.canonical_whileLoop body.canonical
  | _, _, _, .forLoop _ _ _ body => Stmt.canonical_forLoop body.canonical
  | _, _, _, .switch _ cases => Stmt.canonical_switch cases.canonical
  | _, _, _, .ret _ => Stmt.canonical_ret
  | _, _, _, .brk => Stmt.canonical_brk

theorem Stmt.ItemsRead.canonical : ∀ {ts rest : List Lexeme} {body : List Stmt},
    Stmt.ItemsRead arith ts body rest → Stmt.CanonicalItems body
  | _, _, _, .nil => Stmt.canonicalItems_nil
  | _, _, _, .declare _ others => Stmt.canonicalItems_declare others.canonical
  | _, _, _, .stmt reads others => Stmt.canonicalItems_stmt reads.canonical others.canonical

theorem Stmt.BodyReads.canonical : ∀ {ts rest : List Lexeme} {body : List Stmt},
    Stmt.BodyReads arith ts body rest → Stmt.CanonicalBody body
  | _, _, _, .nil => Stmt.canonicalBody_nil
  | _, _, _, .cons reads others => Stmt.canonicalBody_cons reads.canonical others.canonical

theorem CaseGroup.ListReads.canonical : ∀ {ts rest : List Lexeme} {groups : List CaseGroup},
    CaseGroup.ListReads arith ts groups rest → Stmt.CanonicalGroups groups
  | _, _, _, .nil => Stmt.canonicalGroups_nil
  | _, _, _, .cons _ body others => Stmt.canonicalGroups_cons body.canonical others.canonical

end

/-! ## Programs -/

theorem Param.reads_tokens (p : Param) (rest : List Lexeme) :
    Param.Reads (lexemesOf p.tokens ++ rest) p.erase rest :=
  .mk

theorem Param.listReads_tokens : ∀ (p : Param) (ps : List Param) (rest : List Lexeme),
    Param.ListReads
      (lexemesOf (commaTokens ((p :: ps).map Param.tokens)) ++ Punct.rightParen.at .start :: rest)
      ((p :: ps).map Param.erase) rest
  | p, [], rest => .last (p.reads_tokens _)
  | p, p' :: ps, rest => by
    have hothers := Param.listReads_tokens p' ps rest
    simp only [List.map_cons, commaTokens, lexemesOf_append, lexemesOf_cons, List.append_assoc,
      List.cons_append] at hothers ⊢
    exact .more (p.reads_tokens _) hothers

theorem Param.paramsRead_tokens (ps : List Param) (rest : List Lexeme) :
    Param.ParamsRead
      (lexemesOf (commaTokens (ps.map Param.tokens)) ++ Punct.rightParen.at .start :: rest)
      (ps.map Param.erase) rest := by
  cases ps with
  | nil => exact .none
  | cons p ps => exact .some (Param.listReads_tokens p ps rest)

theorem Item.Reads.tokens {ts rest : List Lexeme} {i : Item} (h : Item.Reads arith ts i rest)
    (more : List Lexeme) : Item.Reads .wrapping (lexemesOf i.tokens ++ more) i.erase more := by
  cases h with
  | @function returns name params body _ _ _ _ _ _ _ _ bodyReads =>
    simp only [Item.tokens, FunctionDef.tokens, lexemesOf_append, lexemesOf_cons, lexemesOf_nil,
      List.append_assoc, List.cons_append, List.nil_append]
    exact .function (Param.paramsRead_tokens params _) (bodyReads.canonical more)
  | @global d _ _ _ _ =>
    simp only [Item.tokens, lexemesOf_append, lexemesOf_cons, lexemesOf_nil, List.append_assoc,
      List.cons_append, List.nil_append]
    exact .global (d.reads_tokens _)

theorem Item.ListReads.tokens {ts rest : List Lexeme} {items : List Item}
    (h : Item.ListReads arith ts items rest) (more : List Lexeme) :
    Item.ListReads .wrapping (lexemesOf (items.flatMap Item.tokens) ++ more) (items.map Item.erase)
      more := by
  induction h with
  | nil => exact .nil
  | cons reads _ ih =>
    simp only [List.flatMap_cons, lexemesOf_append, List.append_assoc, List.map_cons]
    exact .cons (reads.tokens _) ih

/-- The tokens of a program that can be read spell it. -/
theorem Program.Reads.tokens {ts rest : List Lexeme} {p : Program} (h : Program.Reads arith ts p rest)
    (more : List Lexeme) : Program.Reads .wrapping (lexemesOf p.tokens ++ more) p.erase more := by
  cases h with
  | mk itemsRead => exact .mk (itemsRead.tokens more)

end Primer
