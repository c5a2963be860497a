import Primer.Proofs.Grammar.Complete.Program
import Primer.Proofs.Grammar.Sound
import Primer.Proofs.Tree.Erase

/-!
# The parser accepts the grammar exactly

The rules of the grammar are local: what a rule reads is a front part of the tokens that never holds
the end marker, and this part is read in the same way in front of any other tokens (`Local`). So the
tokens up to the end marker can be cut off from it, and the parser yields a program exactly for the
token lists that derive one. The program is the only one they derive.

`Local` is proved for each relation of the grammar by induction on its derivations; the combinators
`Local.start`, `Local.seq` and `Local.close` follow the shapes that the rules have.
-/

namespace Primer

/-! ## Local relations -/

/-- The tokens hold no end marker. -/
def NoEnd (ts : List Lexeme) : Prop := ∀ l ∈ ts, l.token ≠ .endOfInput

instance (ts : List Lexeme) : Decidable (NoEnd ts) :=
  inferInstanceAs (Decidable (∀ l ∈ ts, l.token ≠ .endOfInput))

@[simp] theorem noEnd_nil : NoEnd [] := List.forall_mem_nil _

@[simp] theorem noEnd_cons {l : Lexeme} {ts : List Lexeme} :
    NoEnd (l :: ts) ↔ l.token ≠ .endOfInput ∧ NoEnd ts :=
  List.forall_mem_cons

@[simp] theorem noEnd_append {ts ts' : List Lexeme} : NoEnd (ts ++ ts') ↔ NoEnd ts ∧ NoEnd ts' :=
  List.forall_mem_append

/-- The tokens `ts` are `rest` after a part that holds no end marker, and `R` reads this part in front
of anything. -/
def Local (R : List Lexeme → List Lexeme → Prop) (ts rest : List Lexeme) : Prop :=
  ∃ used, ts = used ++ rest ∧ NoEnd used ∧ ∀ after, R (used ++ after) after

namespace Local

variable {R S : List Lexeme → List Lexeme → Prop} {ts ts' rest : List Lexeme}

theorem mono (h : Local R ts rest) (hS : ∀ {ts rest}, R ts rest → S ts rest) : Local S ts rest := by
  obtain ⟨used, rfl, hused, hreads⟩ := h
  exact ⟨used, rfl, hused, fun after => hS (hreads after)⟩

/-- Fixed tokens, possibly none. -/
theorem fixed (front : List Lexeme) (hfront : NoEnd front) (hR : ∀ {after}, R (front ++ after) after) :
    Local R (front ++ rest) rest :=
  ⟨front, rfl, hfront, fun _ => hR⟩

/-- Fixed tokens in front of what `R` reads. -/
theorem start (front : List Lexeme) (hfront : NoEnd front) (h : Local R ts rest)
    (hS : ∀ {ts rest}, R ts rest → S (front ++ ts) rest) : Local S (front ++ ts) rest := by
  obtain ⟨used, rfl, hused, hreads⟩ := h
  refine ⟨front ++ used, by simp, noEnd_append.mpr ⟨hfront, hused⟩, fun after => ?_⟩
  rw [List.append_assoc]
  exact hS (hreads after)

/-- What `R` reads, fixed tokens behind it, then what `S` reads. -/
theorem seq (sep : List Lexeme) (hsep : NoEnd sep) (h : Local R ts (sep ++ ts'))
    (h' : Local S ts' rest) : Local (fun ts rest => ∃ mid, R ts (sep ++ mid) ∧ S mid rest) ts rest := by
  obtain ⟨used, rfl, hused, hreads⟩ := h
  obtain ⟨used', rfl, hused', hreads'⟩ := h'
  refine ⟨used ++ (sep ++ used'), by simp, by simp [hused, hsep, hused'], fun after => ?_⟩
  rw [List.append_assoc, List.append_assoc]
  exact ⟨used' ++ after, hreads _, hreads' after⟩

/-- What `R` reads, up to fixed tokens that close it. -/
theorem close (sep : List Lexeme) (hsep : NoEnd sep) (h : Local R ts (sep ++ rest)) :
    Local (fun ts rest => R ts (sep ++ rest)) ts rest :=
  (h.seq sep hsep (fixed [] noEnd_nil rfl)).mono fun ⟨_, hts, hmid⟩ => hmid ▸ hts

/-- What is read up to the end marker is all that comes before it. -/
theorem before_end {pos : Position} (h : Local R (ts ++ [⟨.endOfInput, pos⟩]) rest) (hts : NoEnd ts)
    (hrest : ∀ l ∈ rest.head?, l.token = .endOfInput) : R ts [] := by
  obtain ⟨used, hcut, hused, hreads⟩ := h
  have hused_eq : used = ts := by
    rcases List.append_eq_append_iff.mp hcut with ⟨mid, rfl, hmid⟩ | ⟨mid, rfl, hmid⟩
    · -- the part that is read would reach the end marker
      cases mid with
      | nil => simp
      | cons l mid =>
        obtain ⟨rfl, -⟩ := List.cons.inj hmid
        simp at hused
    · -- a token of `ts` that is left over would be an end marker
      cases mid with
      | nil => simp
      | cons l mid =>
        obtain rfl := hmid
        exact absurd (hrest l rfl) (hts l (by simp))
  simpa [hused_eq] using hreads []

end Local

/-! ## Expressions -/

theorem Literal.Spelt.ne_end {t : Token} {value : Literal} (h : Literal.Spelt t value) :
    t ≠ .endOfInput := by
  rintro rfl
  cases h

theorem UnaryOp.Spelt.ne_end {t : Token} {op : UnaryOp} (h : UnaryOp.Spelt t op) :
    t ≠ .endOfInput := by
  rintro rfl
  cases h

theorem BinaryOp.Spelt.ne_end {level : Nat} {t : Token} {op : BinaryOp}
    (h : BinaryOp.Spelt level t op) : t ≠ .endOfInput := by
  rintro rfl
  cases h

mutual

theorem Expr.Reads.isLocal {level : Nat} {e : Expr} {ts rest : List Lexeme} :
    Expr.Reads level ts e rest → Local (Expr.Reads level · e ·) ts rest
  | .literal spelt => .fixed [_] (by simpa using spelt.ne_end) (.literal spelt)
  | .var => .fixed [_] (by simp) .var
  | .call arguments => .start [_, _] (by simp) arguments.isLocal .call
  | .paren inner => .start [_] (by simp) (inner.isLocal.close [_] (by simp)) .paren
  | .unary spelt operand =>
    .start [_] (by simpa using spelt.ne_end) operand.isLocal (.unary spelt)
  | .binary left spelt right =>
    (left.isLocal.seq [_] (by simpa using spelt.ne_end) right.isLocal).mono
      fun ⟨_, hleft, hright⟩ => .binary hleft spelt hright
  | .assign target value =>
    (target.isLocal.seq [_] (by simp) value.isLocal).mono
      fun ⟨_, htarget, hvalue⟩ => .assign htarget hvalue
  | .tighter reads => reads.isLocal.mono .tighter

theorem Expr.ArgsRead.isLocal {args : List Expr} {ts rest : List Lexeme} :
    Expr.ArgsRead ts args rest → Local (Expr.ArgsRead · args ·) ts rest
  | .none => .fixed [_] (by simp) .none
  | .some reads => reads.isLocal.mono .some

theorem Expr.ListReads.isLocal {es : List Expr} {ts rest : List Lexeme} :
    Expr.ListReads ts es rest → Local (Expr.ListReads · es ·) ts rest
  | .last reads => (reads.isLocal.close [_] (by simp)).mono .last
  | .more reads others =>
    (reads.isLocal.seq [_] (by simp) others.isLocal).mono fun ⟨_, he, hes⟩ => .more he hes

end

theorem Expr.OptionReads.isLocal {e? : Option Expr} {ts rest : List Lexeme} :
    Expr.OptionReads ts e? rest → Local (Expr.OptionReads · e? ·) ts rest
  | .none => .fixed [] noEnd_nil .none
  | .some reads => reads.isLocal.mono .some

/-! ## Declarations and labels -/

variable {arith : Arithmetic}

theorem VarDecl.InitReads.isLocal {init : Option Expr} {ts rest : List Lexeme} :
    VarDecl.InitReads ts init rest → Local (VarDecl.InitReads · init ·) ts rest
  | .none => .fixed [] noEnd_nil .none
  | .some reads => .start [_] (by simp) reads.isLocal .some

theorem VarDecl.Reads.isLocal {d : VarDecl} {ts rest : List Lexeme} :
    VarDecl.Reads ts d rest → Local (VarDecl.Reads · d ·) ts rest
  | .mk initReads => .start [_, _] (by simp) initReads.isLocal .mk

theorem ForInit.Reads.isLocal {init : Option ForInit} {ts rest : List Lexeme} :
    ForInit.Reads ts init rest → Local (ForInit.Reads · init ·) ts rest
  | .none => .fixed [] noEnd_nil .none
  | .eval reads => reads.isLocal.mono .eval
  | .declare reads => reads.isLocal.mono .declare

theorem CaseLabel.Reads.isLocal {label : CaseLabel} {ts rest : List Lexeme} :
    CaseLabel.Reads arith ts label rest → Local (CaseLabel.Reads arith · label ·) ts rest
  | .int => .fixed [_] (by simp) .int
  | .char => .fixed [_] (by simp) .char
  | .negative exact => .fixed [_, _] (by simp) (.negative exact)
  | .least wraps => .fixed [_, _] (by simp) (.least wraps)

theorem CaseGroup.LabelReads.isLocal {label : Option CaseLabel} {pos : Position}
    {ts rest : List Lexeme} :
    CaseGroup.LabelReads arith ts label pos rest → Local (CaseGroup.LabelReads arith · label pos ·) ts rest
  | .case reads => .start [_] (by simp) (reads.isLocal.close [_] (by simp)) .case
  | .default => .fixed [_, _] (by simp) .default

/-! ## Statements -/

mutual

theorem Stmt.Reads.isLocal {s : Stmt} {ts rest : List Lexeme} :
    Stmt.Reads arith ts s rest → Local (Stmt.Reads arith · s ·) ts rest
  | .eval reads => by
    obtain ⟨used, hts, hused, hreads⟩ := reads.isLocal.close [_] (by simp)
    -- the first token of the expression is part of what is read, and gives the position
    cases used with
    | nil => exact absurd rfl (hreads []).ne_nil
    | cons l used =>
      obtain ⟨rfl, rfl⟩ := List.cons.inj hts
      exact ⟨_ :: used, rfl, hused, fun after => .eval (hreads after)⟩
  | .block items => .start [_] (by simp) items.isLocal .block
  | .branch cond onTrue =>
    .start [_, _] (by simp) (cond.isLocal.seq [_] (by simp) onTrue.isLocal)
      fun ⟨_, hcond, hs⟩ => .branch hcond hs
  | .branchElse cond onTrue closed onFalse =>
    .start [_, _] (by simp)
      (cond.isLocal.seq [_] (by simp) (onTrue.isLocal.seq [_] (by simp) onFalse.isLocal))
      fun ⟨_, hcond, _, hs, hs'⟩ => .branchElse hcond hs closed hs'
  | .whileLoop cond body =>
    .start [_, _] (by simp) (cond.isLocal.seq [_] (by simp) body.isLocal)
      fun ⟨_, hcond, hs⟩ => .whileLoop hcond hs
  | .forLoop init cond step body =>
    .start [_, _] (by simp)
      (init.isLocal.seq [_] (by simp)
        (cond.isLocal.seq [_] (by simp) (step.isLocal.seq [_] (by simp) body.isLocal)))
      fun ⟨_, hinit, _, hcond, _, hstep, hs⟩ => .forLoop hinit hcond hstep hs
  | .switch scrutinee cases =>
    .start [_, _] (by simp) (scrutinee.isLocal.seq [_, _] (by simp) cases.isLocal)
      fun ⟨_, he, hgroups⟩ => .switch he hgroups
  | .ret value => .start [_] (by simp) (value.isLocal.close [_] (by simp)) .ret
  | .brk => .fixed [_, _] (by simp) .brk

theorem Stmt.ItemsRead.isLocal {items : List Stmt} {ts rest : List Lexeme} :
    Stmt.ItemsRead arith ts items rest → Local (Stmt.ItemsRead arith · items ·) ts rest
  | .nil => .fixed [_] (by simp) .nil
  | .declare reads others =>
    (reads.isLocal.seq [_] (by simp) others.isLocal).mono fun ⟨_, hd, hitems⟩ => .declare hd hitems
  | .stmt reads others =>
    (reads.isLocal.seq [] noEnd_nil others.isLocal).mono fun ⟨_, hs, hitems⟩ => .stmt hs hitems

theorem Stmt.BodyReads.isLocal {body : List Stmt} {ts rest : List Lexeme} :
    Stmt.BodyReads arith ts body rest → Local (Stmt.BodyReads arith · body ·) ts rest
  | .nil => .fixed [] noEnd_nil .nil
  | .cons reads others =>
    (reads.isLocal.seq [] noEnd_nil others.isLocal).mono fun ⟨_, hs, hbody⟩ => .cons hs hbody

theorem CaseGroup.ListReads.isLocal {groups : List CaseGroup} {ts rest : List Lexeme} :
    CaseGroup.ListReads arith ts groups rest → Local (CaseGroup.ListReads arith · groups ·) ts rest
  | .nil => .fixed [_] (by simp) .nil
  | .cons label body others =>
    (label.isLocal.seq [] noEnd_nil (body.isLocal.seq [] noEnd_nil others.isLocal)).mono
      fun ⟨_, hlabel, _, hbody, hgroups⟩ => .cons hlabel hbody hgroups

end

/-! ## Programs -/

theorem Param.Reads.isLocal {p : Param} {ts rest : List Lexeme} :
    Param.Reads ts p rest → Local (Param.Reads · p ·) ts rest
  | .mk => .fixed [_, _] (by simp) .mk

theorem Param.ListReads.isLocal {ps : List Param} {ts rest : List Lexeme} :
    Param.ListReads ts ps rest → Local (Param.ListReads · ps ·) ts rest
  | .last reads => (reads.isLocal.close [_] (by simp)).mono .last
  | .more reads others =>
    (reads.isLocal.seq [_] (by simp) others.isLocal).mono fun ⟨_, hp, hps⟩ => .more hp hps

theorem Param.ParamsRead.isLocal {ps : List Param} {ts rest : List Lexeme} :
    Param.ParamsRead ts ps rest → Local (Param.ParamsRead · ps ·) ts rest
  | .none => .fixed [_] (by simp) .none
  | .some reads => reads.isLocal.mono .some

theorem Item.Reads.isLocal {i : Item} {ts rest : List Lexeme} :
    Item.Reads arith ts i rest → Local (Item.Reads arith · i ·) ts rest
  | .function params body =>
    .start [_, _, _] (by simp) (params.isLocal.seq [_] (by simp) body.isLocal)
      fun ⟨_, hparams, hbody⟩ => .function hparams hbody
  | .global reads => (reads.isLocal.close [_] (by simp)).mono .global

theorem Item.ListReads.isLocal {items : List Item} {ts rest : List Lexeme} :
    Item.ListReads arith ts items rest → Local (Item.ListReads arith · items ·) ts rest
  | .nil => .fixed [] noEnd_nil .nil
  | .cons reads others =>
    (reads.isLocal.seq [] noEnd_nil others.isLocal).mono fun ⟨_, hi, hitems⟩ => .cons hi hitems

theorem Program.Reads.isLocal {p : Program} {ts rest : List Lexeme} :
    Program.Reads arith ts p rest → Local (Program.Reads arith · p ·) ts rest
  | .mk items => .start [_, _, _] (by simp) items.isLocal .mk

/-- Adding the end marker to tokens that derive a program does not change the derivation. -/
theorem Program.Reads.append_end {p : Program} {ts : List Lexeme} (h : Program.Reads arith ts p [])
    (pos : Position) :
    Program.Reads arith (ts ++ [⟨.endOfInput, pos⟩]) p [⟨.endOfInput, pos⟩] := by
  obtain ⟨used, hts, -, hreads⟩ := h.isLocal
  rw [List.append_nil] at hts
  exact hts ▸ hreads _

/-- The tokens before the end marker are parsed to a program exactly when they derive it, and they
derive no other. This holds in either kind of arithmetic. -/
theorem parse_eq_ok_iff_derives {ts : List Lexeme} (hts : NoEnd ts) (pos : Position) :
    (∀ p, parse (ts ++ [⟨.endOfInput, pos⟩]) = .ok p ↔ Program.Reads .wrapping ts p []) ∧
      (∀ arith p, parseIn arith (ts ++ [⟨.endOfInput, pos⟩]) = some (.ok p) ↔
        Program.Reads arith ts p []) ∧
      ∀ arith p q, Program.Reads arith ts p [] → Program.Reads arith ts q [] → p = q := by
  have hparse : ∀ arith p, Program.Reads arith ts p [] →
      parseIn arith (ts ++ [⟨.endOfInput, pos⟩]) = some (.ok p) := by
    intro arith p h
    refine parseIn_of_reads (h.append_end pos) ?_
    rintro l ⟨⟩
    rfl
  have hiff : ∀ arith p, parseIn arith (ts ++ [⟨.endOfInput, pos⟩]) = some (.ok p) ↔
      Program.Reads arith ts p [] := by
    intro arith p
    refine ⟨fun h => ?_, hparse arith p⟩
    obtain ⟨rest, hreads, hrest⟩ := reads_of_parseIn h
    exact hreads.isLocal.before_end hts hrest
  refine ⟨fun p => parse_eq_ok_iff.trans (hiff .wrapping p), hiff, fun arith p q hp hq => ?_⟩
  exact Except.ok.inj (Option.some.inj ((hparse arith p hp).symm.trans (hparse arith q hq)))

/-- The tokens of `Program p; int f() { if (0) if (1) (x) = y = 2; else return 3 - 4 * 5 - 6; }`. -/
def nestedIf : List Lexeme :=
  lexemesOf
    [.keyword .programWord, .identifier "p", .punct .semicolon, .keyword (.typeWord .int),
      .identifier "f", .punct .leftParen, .punct .rightParen, .punct .leftBrace, .keyword .ifWord,
      .punct .leftParen, .integer 0, .punct .rightParen, .keyword .ifWord, .punct .leftParen,
      .integer 1, .punct .rightParen, .punct .leftParen, .identifier "x", .punct .rightParen,
      .punct .equals, .identifier "y", .punct .equals, .integer 2, .punct .semicolon,
      .keyword .elseWord, .keyword .returnWord, .integer 3, .punct .minus, .integer 4, .punct .star,
      .integer 5, .punct .minus, .integer 6, .punct .semicolon, .punct .rightBrace]

/-- The tree of `nestedIf`: the `else` belongs to the inner `if`, subtraction associates to the left and
assignment to the right, and the product is a part of the difference. -/
def nestedIfTree : Program :=
  let int (n : Int64) : Expr := .literal (.int n) .start
  let body : Stmt :=
    .branch (int 0)
      (.branch (int 1) (.eval (.assign "x" (.assign "y" (int 2) .start) .start) .start)
        (some (.ret (some (.binary .sub (.binary .sub (int 3) (.binary .mul (int 4) (int 5) .start) .start)
          (int 6) .start)) .start))
        .start)
      none .start
  ⟨"p", [.function
    { name := "f", params := [], returns := .int, body := [body], bodyPos := .start, pos := .start }],
    .start⟩

theorem nestedIf_derives : NoEnd nestedIf ∧ (∀ arith, Program.Reads arith nestedIf nestedIfTree []) ∧
    ∀ arith q, Program.Reads arith nestedIf q [] → q = nestedIfTree := by
  have hend : NoEnd nestedIf := by decide
  obtain ⟨-, hiff, hunique⟩ := parse_eq_ok_iff_derives hend .start
  have hreads : ∀ arith, Program.Reads arith nestedIf nestedIfTree [] :=
    fun arith => (hiff arith nestedIfTree).mp rfl
  exact ⟨hend, hreads, fun arith q hq => hunique arith q _ hq (hreads arith)⟩

end Primer
