import Primer.Proofs.Grammar.Complete.Program
import Primer.Proofs.Grammar.Layout
import Primer.Proofs.Grammar.Sound
import Primer.Proofs.Stages
import Primer.Proofs.Tree.Spelling

/-!
# Printing and reading back

Reading the printed form of a program gives the program back, positions aside. The argument goes
through tokens:

- the tokens of a program that was read from a text can all stand in a text, because its names and
  literals come from that text (`Program.Reads.lexable`);
- so the printed form holds exactly these tokens (`Program.spells`);
- the tokens spell the program (`Program.Reads.tokens`), and what is spelt is read
  (`parse_of_reads`), at whatever positions the tokens stand (`parse_map_erase`).
-/

namespace Primer

/-! ## Trees read from a text -/

/-- Tokens that come from a text, possibly with the end of the input behind them. -/
def Scannable (ts : List Lexeme) : Prop :=
  ∀ l ∈ ts, l.token ≠ .endOfInput → l.token.lexable = true

theorem scannable_cons {l : Lexeme} {ts : List Lexeme} :
    Scannable (l :: ts) ↔ (l.token ≠ .endOfInput → l.token.lexable = true) ∧ Scannable ts :=
  List.forall_mem_cons

theorem Scannable.tail {l : Lexeme} {ts : List Lexeme} (h : Scannable (l :: ts)) : Scannable ts :=
  (scannable_cons.mp h).2

theorem Scannable.name {name : String} {pos : Position} {ts : List Lexeme}
    (h : Scannable (.name name pos :: ts)) : (Token.identifier name).lexable = true :=
  (scannable_cons.mp h).1 (by rintro ⟨⟩)

theorem lexable_comma {ts : List Token} {rest : List (List Token)} (h : Lexable ts)
    (hrest : Lexable (commaTokens rest)) : Lexable (commaTokens (ts :: rest)) := by
  cases rest with
  | nil => exact h
  | cons ts' rest =>
    simp only [commaTokens, lexable_append, lexable_cons]
    exact ⟨h, rfl, hrest⟩

namespace Expr

mutual

/-- An expression read from a text holds only tokens that texts hold. -/
theorem Reads.lexable : ∀ {level : Nat} {e : Expr} {ts rest : List Lexeme},
    Expr.Reads level ts e rest → Scannable ts → Lexable e.tokens ∧ Scannable rest
  | _, _, _, _, .literal spelt, h => by
    refine ⟨?_, h.tail⟩
    simp only [tokens, lexable_cons, lexable_nil, and_true]
    -- a literal stands for one token, which is not the end of the text
    cases spelt <;> exact (scannable_cons.mp h).1 (by rintro ⟨⟩)
  | _, _, _, _, .var, h => by
    refine ⟨?_, h.tail⟩
    simp only [tokens, lexable_cons, lexable_nil, and_true]
    exact h.name
  | _, _, _, _, .call arguments, h => by
    obtain ⟨hargs, hrest⟩ := arguments.lexable h.tail.tail
    simp only [tokens, lexable_cons, lexable_append]
    exact ⟨⟨h.name, rfl, hargs, rfl, lexable_nil⟩, hrest⟩
  -- parentheses are not part of the tree, so their tokens do not count
  | _, _, _, _, .paren inner, h => by
    obtain ⟨he, hrest⟩ := inner.lexable h.tail
    exact ⟨he, hrest.tail⟩
  | _, _, _, _, .unary _ operand, h => by
    obtain ⟨he, hrest⟩ := operand.lexable h.tail
    simp only [tokens, lexable_cons, lexable_wrap]
    exact ⟨⟨rfl, he⟩, hrest⟩
  | _, _, _, _, .binary left _ right, h => by
    obtain ⟨hleft, hmiddle⟩ := left.lexable h
    obtain ⟨hright, hrest⟩ := right.lexable hmiddle.tail
    simp only [tokens, lexable_append, lexable_cons, lexable_wrap]
    exact ⟨⟨hleft, rfl, hright⟩, hrest⟩
  | _, _, _, _, .assign target value, h => by
    obtain ⟨htarget, hmiddle⟩ := target.lexable h
    obtain ⟨hvalue, hrest⟩ := value.lexable hmiddle.tail
    -- the target is a name, though it was read as an expression
    simp only [tokens, lexable_cons, lexable_nil, and_true] at htarget
    simp only [tokens, lexable_cons]
    exact ⟨⟨htarget, rfl, hvalue⟩, hrest⟩
  | _, _, _, _, .tighter reads, h => reads.lexable h

theorem ArgsRead.lexable : ∀ {args : List Expr} {ts rest : List Lexeme},
    Expr.ArgsRead ts args rest → Scannable ts →
      Lexable (commaTokens (tokenLists args)) ∧ Scannable rest
  | _, _, _, .none, h => by
    simp only [tokenLists, commaTokens]
    exact ⟨lexable_nil, h.tail⟩
  | _, _, _, .some reads, h => reads.lexable h

theorem ListReads.lexable : ∀ {es : List Expr} {ts rest : List Lexeme},
    Expr.ListReads ts es rest → Scannable ts →
      Lexable (commaTokens (tokenLists es)) ∧ Scannable rest
  | _, _, _, .last reads, h => by
    obtain ⟨he, hrest⟩ := reads.lexable h
    simp only [tokenLists, commaTokens]
    exact ⟨he, hrest.tail⟩
  | _, _, _, .more reads others, h => by
    obtain ⟨he, hmiddle⟩ := reads.lexable h
    obtain ⟨hes, hrest⟩ := others.lexable hmiddle.tail
    simp only [tokenLists]
    exact ⟨lexable_comma he hes, hrest⟩

end

end Expr

section Clauses

variable {arith : Arithmetic} {ts rest : List Lexeme}

theorem Expr.OptionReads.lexable {e? : Option Expr} (h : Expr.OptionReads ts e? rest)
    (hts : Scannable ts) : Lexable (clauseTokens e?) ∧ Scannable rest := by
  cases h with
  | none => exact ⟨lexable_nil, hts⟩
  | some reads => exact reads.lexable hts

theorem VarDecl.Reads.lexable {d : VarDecl} (h : VarDecl.Reads ts d rest) (hts : Scannable ts) :
    Lexable d.tokens ∧ Scannable rest := by
  cases h with
  | mk initReads =>
    have hname := hts.tail.name
    cases initReads with
    | none =>
      simp only [VarDecl.tokens, lexable_cons]
      exact ⟨⟨rfl, hname, lexable_nil⟩, hts.tail.tail⟩
    | some reads =>
      obtain ⟨he, hrest⟩ := reads.lexable hts.tail.tail.tail
      simp only [VarDecl.tokens, lexable_cons]
      exact ⟨⟨rfl, hname, rfl, he⟩, hrest⟩

theorem ForInit.Reads.lexable {init : Option ForInit} (h : ForInit.Reads ts init rest)
    (hts : Scannable ts) : Lexable ((init.map ForInit.tokens).getD []) ∧ Scannable rest := by
  cases h with
  | none => exact ⟨lexable_nil, hts⟩
  | eval reads => exact reads.lexable hts
  | declare reads => exact reads.lexable hts

theorem CaseLabel.Reads.lexable {label : CaseLabel} (h : CaseLabel.Reads arith ts label rest)
    (hts : Scannable ts) : Lexable label.tokens ∧ Scannable rest := by
  cases h with
  | @int n pos _ =>
    have hn : (Token.integer n).lexable = true := (scannable_cons.mp hts).1 (by rintro ⟨⟩)
    have hpos : ¬ n.toInt < 0 := Int.not_lt.mpr (of_decide_eq_true hn)
    simp only [CaseLabel.tokens, if_neg hpos, lexable_cons]
    exact ⟨⟨hn, lexable_nil⟩, hts.tail⟩
  | char =>
    simp only [CaseLabel.tokens, lexable_cons]
    exact ⟨⟨(scannable_cons.mp hts).1 (by rintro ⟨⟩), lexable_nil⟩, hts.tail⟩
  | @negative n negative _ _ _ exact =>
    have hn : (Token.integer n).lexable = true := (scannable_cons.mp hts.tail).1 (by rintro ⟨⟩)
    have hnegative : negative = -n := by
      rw [← Int64.toInt_inj, exact, Arithmetic.toInt_neg_of_ne (Token.ne_minValue_of_lexable hn)]
    subst hnegative
    refine ⟨?_, hts.tail.tail⟩
    simp only [CaseLabel.tokens, Int64.neg_neg]
    -- A zero behind a minus is printed without it.
    by_cases hneg : (-n).toInt < 0
    · rw [if_pos hneg]
      simp only [lexable_cons]
      exact ⟨rfl, hn, lexable_nil⟩
    · rw [if_neg hneg]
      simp only [lexable_cons]
      exact ⟨decide_eq_true (Int.not_lt.mp hneg), lexable_nil⟩
  | least wraps =>
    have hn : (Token.integer Int64.minValue).lexable = true :=
      (scannable_cons.mp hts.tail).1 (by rintro ⟨⟩)
    exact absurd hn (by decide)

theorem CaseGroup.LabelReads.lexable {label : Option CaseLabel} {pos : Position}
    (h : CaseGroup.LabelReads arith ts label pos rest) (hts : Scannable ts) :
    Lexable (labelTokens label) ∧ Scannable rest := by
  cases h with
  | case reads =>
    obtain ⟨hlabel, hrest⟩ := reads.lexable hts.tail
    simp only [labelTokens, lexable_cons, lexable_append]
    exact ⟨⟨rfl, hlabel, rfl, lexable_nil⟩, hrest.tail⟩
  | default =>
    simp only [labelTokens, lexable_cons]
    exact ⟨⟨rfl, rfl, lexable_nil⟩, hts.tail.tail⟩

theorem lexable_header {k : Keyword} {e : Expr} (h : Lexable e.tokens) :
    Lexable (headerTokens k e) := by
  simp only [headerTokens, lexable_cons, lexable_append]
  exact ⟨rfl, rfl, h, rfl, lexable_nil⟩

end Clauses

mutual

/-- A statement read from a text holds only tokens that texts hold. -/
theorem Stmt.Reads.lexable : ∀ {ts rest : List Lexeme} {s : Stmt}, Stmt.Reads arith ts s rest →
    Scannable ts → Lexable s.tokens ∧ Scannable rest
  | _, _, _, .eval reads, h => by
    obtain ⟨he, hrest⟩ := reads.lexable h
    simp only [Stmt.tokens, lexable_append, lexable_cons]
    exact ⟨⟨he, rfl, lexable_nil⟩, hrest.tail⟩
  | _, _, _, .block items, h => by
    obtain ⟨hbody, hrest⟩ := items.lexable h.tail
    simp only [Stmt.tokens, lexable_append, lexable_cons]
    exact ⟨⟨rfl, hbody, rfl, lexable_nil⟩, hrest⟩
  | _, _, _, .branch cond onTrue, h => by
    obtain ⟨hcond, h₁⟩ := cond.lexable h.tail.tail
    obtain ⟨htrue, hrest⟩ := onTrue.lexable h₁.tail
    simp only [Stmt.tokens, lexable_append]
    exact ⟨⟨lexable_header hcond, htrue⟩, hrest⟩
  | _, _, _, .branchElse cond onTrue _ onFalse, h => by
    obtain ⟨hcond, h₁⟩ := cond.lexable h.tail.tail
    obtain ⟨htrue, h₂⟩ := onTrue.lexable h₁.tail
    obtain ⟨hfalse, hrest⟩ := onFalse.lexable h₂.tail
    simp only [Stmt.tokens, lexable_append, lexable_cons]
    exact ⟨⟨⟨lexable_header hcond, htrue⟩, rfl, hfalse⟩, hrest⟩
  | _, _, _, .whileLoop cond body, h => by
    obtain ⟨hcond, h₁⟩ := cond.lexable h.tail.tail
    obtain ⟨hbody, hrest⟩ := body.lexable h₁.tail
    simp only [Stmt.tokens, lexable_append]
    exact ⟨⟨lexable_header hcond, hbody⟩, hrest⟩
  | _, _, _, .forLoop init cond step body, h => by
    obtain ⟨hinit, h₁⟩ := init.lexable h.tail.tail
    obtain ⟨hcond, h₂⟩ := cond.lexable h₁.tail
    obtain ⟨hstep, h₃⟩ := step.lexable h₂.tail
    obtain ⟨hbody, hrest⟩ := body.lexable h₃.tail
    simp only [Stmt.tokens, lexable_append, lexable_cons]
    exact ⟨⟨rfl, rfl, hinit, rfl, hcond, rfl, hstep, rfl, hbody⟩, hrest⟩
  | _, _, _, .switch scrutinee cases, h => by
    obtain ⟨hscrutinee, h₁⟩ := scrutinee.lexable h.tail.tail
    obtain ⟨hcases, hrest⟩ := cases.lexable h₁.tail.tail
    simp only [Stmt.tokens, lexable_append, lexable_cons]
    exact ⟨⟨lexable_header hscrutinee, rfl, hcases, rfl, lexable_nil⟩, hrest⟩
  | _, _, _, .ret value, h => by
    obtain ⟨hvalue, hrest⟩ := value.lexable h.tail
    simp only [Stmt.tokens, lexable_append, lexable_cons]
    exact ⟨⟨rfl, hvalue, rfl, lexable_nil⟩, hrest.tail⟩
  | _, _, _, .brk, h => by
    simp only [Stmt.tokens, lexable_cons]
    exact ⟨⟨rfl, rfl, lexable_nil⟩, h.tail.tail⟩

theorem Stmt.ItemsRead.lexable : ∀ {ts rest : List Lexeme} {body : List Stmt},
    Stmt.ItemsRead arith ts body rest → Scannable ts → Lexable (Stmt.lineTokens body) ∧ Scannable rest
  | _, _, _, .nil, h => by
    simp only [Stmt.lineTokens]
    exact ⟨lexable_nil, h.tail⟩
  | _, _, _, .declare reads others, h => by
    obtain ⟨hd, h₁⟩ := reads.lexable h
    obtain ⟨hothers, hrest⟩ := others.lexable h₁.tail
    simp only [Stmt.lineTokens, Stmt.tokens, lexable_append, lexable_cons]
    exact ⟨⟨⟨hd, rfl, lexable_nil⟩, hothers⟩, hrest⟩
  | _, _, _, .stmt reads others, h => by
    obtain ⟨hs, h₁⟩ := reads.lexable h
    obtain ⟨hothers, hrest⟩ := others.lexable h₁
    simp only [Stmt.lineTokens, lexable_append]
    exact ⟨⟨hs, hothers⟩, hrest⟩

theorem Stmt.BodyReads.lexable : ∀ {ts rest : List Lexeme} {body : List Stmt},
    Stmt.BodyReads arith ts body rest → Scannable ts → Lexable (Stmt.lineTokens body) ∧ Scannable rest
  | _, _, _, .nil, h => by
    simp only [Stmt.lineTokens]
    exact ⟨lexable_nil, h⟩
  | _, _, _, .cons reads others, h => by
    obtain ⟨hs, h₁⟩ := reads.lexable h
    obtain ⟨hothers, hrest⟩ := others.lexable h₁
    simp only [Stmt.lineTokens, lexable_append]
    exact ⟨⟨hs, hothers⟩, hrest⟩

theorem CaseGroup.ListReads.lexable : ∀ {ts rest : List Lexeme} {groups : List CaseGroup},
    CaseGroup.ListReads arith ts groups rest → Scannable ts →
      Lexable (CaseGroup.lineTokens groups) ∧ Scannable rest
  | _, _, _, .nil, h => by
    simp only [CaseGroup.lineTokens]
    exact ⟨lexable_nil, h.tail⟩
  | _, _, _, .cons label body others, h => by
    obtain ⟨hlabel, h₁⟩ := label.lexable h
    obtain ⟨hbody, h₂⟩ := body.lexable h₁
    obtain ⟨hothers, hrest⟩ := others.lexable h₂
    simp only [CaseGroup.lineTokens, lexable_append]
    exact ⟨⟨⟨hlabel, hbody⟩, hothers⟩, hrest⟩

end

theorem Param.Reads.lexable {p : Param} {ts rest : List Lexeme} (h : Param.Reads ts p rest)
    (hts : Scannable ts) : Lexable p.tokens ∧ Scannable rest := by
  cases h with
  | mk =>
    simp only [Param.tokens, lexable_cons]
    exact ⟨⟨rfl, hts.tail.name, lexable_nil⟩, hts.tail.tail⟩

theorem Param.ListReads.lexable {ps : List Param} {ts rest : List Lexeme}
    (h : Param.ListReads ts ps rest) :
    Scannable ts → Lexable (commaTokens (ps.map Param.tokens)) ∧ Scannable rest := by
  induction h with
  | last reads =>
    intro hts
    obtain ⟨hp, hrest⟩ := reads.lexable hts
    exact ⟨hp, hrest.tail⟩
  | more reads _ ih =>
    intro hts
    obtain ⟨hp, h₁⟩ := reads.lexable hts
    obtain ⟨hps, hrest⟩ := ih h₁.tail
    exact ⟨lexable_comma hp hps, hrest⟩

theorem Param.ParamsRead.lexable {ps : List Param} {ts rest : List Lexeme}
    (h : Param.ParamsRead ts ps rest) (hts : Scannable ts) :
    Lexable (commaTokens (ps.map Param.tokens)) ∧ Scannable rest := by
  cases h with
  | none => exact ⟨lexable_nil, hts.tail⟩
  | some reads => exact reads.lexable hts

theorem Item.Reads.lexable {i : Item} {ts rest : List Lexeme} (h : Item.Reads arith ts i rest)
    (hts : Scannable ts) : Lexable i.tokens ∧ Scannable rest := by
  cases h with
  | function params body =>
    obtain ⟨hparams, h₁⟩ := params.lexable hts.tail.tail.tail
    obtain ⟨hbody, hrest⟩ := body.lexable h₁.tail
    simp only [Item.tokens, FunctionDef.tokens, lexable_cons, lexable_append]
    exact ⟨⟨rfl, hts.tail.name, rfl, hparams, rfl, rfl, hbody, rfl, lexable_nil⟩, hrest⟩
  | global reads =>
    obtain ⟨hd, hrest⟩ := reads.lexable hts
    simp only [Item.tokens, lexable_append, lexable_cons]
    exact ⟨⟨hd, rfl, lexable_nil⟩, hrest.tail⟩

theorem Item.ListReads.lexable {items : List Item} {ts rest : List Lexeme}
    (h : Item.ListReads arith ts items rest) : Scannable ts → Lexable (items.flatMap Item.tokens) := by
  induction h with
  | nil => exact fun _ => lexable_nil
  | cons reads _ ih =>
    intro hts
    obtain ⟨hi, h₁⟩ := reads.lexable hts
    rw [List.flatMap_cons, lexable_append]
    exact ⟨hi, ih h₁⟩

/-- A program read from a text holds only tokens that texts hold. -/
theorem Program.Reads.lexable {p : Program} {ts rest : List Lexeme} (h : Program.Reads arith ts p rest)
    (hts : Scannable ts) : Lexable p.tokens := by
  cases h with
  | mk items =>
    simp only [Program.tokens, lexable_cons]
    exact ⟨rfl, hts.tail.name, rfl, items.lexable hts.tail.tail.tail⟩

/-! ## The round trip -/

theorem scannable_of_tokenize {source : String} {tokens : List Lexeme}
    (h : tokenize source = .ok tokens) : Scannable tokens := by
  obtain ⟨pos, -, rfl⟩ := tokenize_eq_ok.mp h
  intro l hl hne
  rcases List.mem_append.mp hl with hl | hl
  · exact lexable_of_mem_scan hl
  · rw [List.mem_singleton.mp hl] at hne
    exact absurd rfl hne

/-- The tokens of a program that can be read are parsed as the program, wherever they stand. -/
theorem Program.Reads.parse_tokens {p : Program} {ts rest tokens : List Lexeme}
    (h : Program.Reads arith ts p rest) (htokens : tokens.map Lexeme.token = p.tokens ++ [.endOfInput]) :
    ∃ q, parse tokens = .ok q ∧ q.erase = p.erase := by
  have herased : parse (tokens.map Lexeme.erase) = .ok p.erase := by
    rw [map_erase_eq, htokens, lexemesOf_append]
    refine parse_of_reads (h.tokens _) ?_
    rintro l ⟨⟩
    rfl
  rw [parse_map_erase] at herased
  cases hparse : parse tokens with
  | error e =>
    rw [hparse] at herased
    cases herased
  | ok q =>
    rw [hparse] at herased
    exact ⟨q, rfl, Except.ok.inj herased⟩

/-- Reading the printed form of a program that was read from a text gives the program back, positions
aside. -/
theorem parseSource_text {source : String} {p : Program} (h : parseSource source = .ok p) :
    ∃ q, parseSource p.text = .ok q ∧ q.erase = p.erase := by
  obtain ⟨tokens, htokens, hparse⟩ := parseSource_eq_ok.mp h
  obtain ⟨rest, hreads, -⟩ := reads_of_parse hparse
  have hlexable : Lexable p.tokens := hreads.lexable (scannable_of_tokenize htokens)
  obtain ⟨printed, hprinted, hkinds⟩ := (p.spells hlexable []).tokenize_eq
  obtain ⟨q, hq, herase⟩ := hreads.parse_tokens hkinds
  exact ⟨q, parseSource_eq_ok.mpr ⟨printed, hprinted, hq⟩, herase⟩

/-- A program in a layout of its own: a comment, needless parentheses, an `else` that belongs to the
inner `if`, a negative label and escapes. -/
def unevenLayout : String :=
  "Program p; char c='\\''; /* both */ int f(int x)\x7b if(x) if((x)) return -(x+1)*(2)-(3-4); else " ++
  "\x7bint y=((x)=2);print(\"\\\"\\n\",c);\x7d switch(x)\x7bcase -1:f(!x);default:break;\x7d for(;;)break;return 0;\x7d"

theorem unevenLayout_roundTrip : ∃ p q, parseSource unevenLayout = .ok p ∧
    parseSource p.text = .ok q ∧ q.erase = p.erase := by
  have hok : (parseSource unevenLayout).isOk = true := by decide +kernel
  cases h : parseSource unevenLayout with
  | error e =>
    rw [h] at hok
    cases hok
  | ok p =>
    obtain ⟨q, hq, herase⟩ := parseSource_text h
    exact ⟨p, q, rfl, hq, herase⟩

end Primer
