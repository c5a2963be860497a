import Primer.Proofs.Grammar.Reader
import Primer.Proofs.Grammar.Rules

/-!
# What is read follows the grammar

Whenever a reader succeeds, the tokens it took spell what it returns by the rules of the grammar.
There is one lemma for each reader, in the order in which the readers are built from each other; the
bounds play no part.

A statement that ends with an `if` without `else` is never followed by `else`: the reader would have
taken it. This is what the rule for `else` asks of the branch in front of it, so it is carried along
in `Stmt.Taken`.
-/

namespace Primer

open Reader

/-! ## Expressions -/

namespace Expr

/-- The reader takes expressions of the given level. -/
def Takes (reader : Reader Expr) (level : Nat) : Prop :=
  ∀ {tokens e rest}, reader tokens = .ok e rest → Expr.Reads level tokens e rest

variable {expression operand : Reader Expr} {bound level : Nat} {tokens rest : List Lexeme} {e : Expr}

theorem args_reads (hexpr : Takes expression 1) {args : List Expr}
    (h : parenthesized expression bound tokens = .ok args rest) : Expr.ArgsRead tokens args rest := by
  rcases parenthesized_eq_ok h with ⟨pos, rfl, rfl⟩ | h
  · exact .none
  · refine .some (commaList_rec (M := Expr.ListReads) ?_ ?_ bound h)
    · exact fun hitem => .last (hexpr hitem)
    · exact fun hitem others => .more (hexpr hitem) others

theorem nameTail_reads (hexpr : Takes expression 1) {name : String} {pos : Position}
    (h : nameTail expression bound name pos tokens = .ok e rest) :
    Expr.Reads 9 (.name name pos :: tokens) e rest := by
  obtain ⟨paren, ts₁, hparen, h₁⟩ := bind_eq_ok h
  rcases accept_eq_ok hparen with ⟨pos', rfl, rfl⟩ | ⟨rfl, rfl, -⟩
  · obtain ⟨args, ts₂, hargs, h₂⟩ := bind_eq_ok h₁
    cases h₂
    exact .call (args_reads hexpr hargs)
  · cases h₁
    exact .var

theorem primary_takes (hexpr : Takes expression 1) : Takes (primary expression bound) 9 := by
  intro tokens e rest h
  obtain ⟨literal, ts₁, hliteral, h₁⟩ := bind_eq_ok h
  rcases take?_eq_ok hliteral with ⟨t, value, pos, rfl, rfl, ht⟩ | ⟨rfl, rfl, -⟩
  · cases h₁
    exact .literal (Token.literal?_eq_some_iff.mp ht)
  · obtain ⟨next, ts₂, hnext, h₂⟩ := bind_eq_ok h₁
    obtain ⟨rfl, rfl⟩ := peek_eq_ok hnext
    -- the kind of the next token decides; all that fit none of the rules are refused
    rcases ts₁ with _ | ⟨⟨t, pos⟩, ts⟩
    · cases h₂
    · cases t with
      | identifier name => exact nameTail_reads hexpr h₂
      | punct p =>
        cases p with
        | leftParen =>
          obtain ⟨inner, ts₃, hinner, h₃⟩ := bind_eq_ok (of_skip_bind h₂)
          obtain ⟨pos', ts₄, hclose, h₄⟩ := bind_eq_ok h₃
          cases h₄
          exact .paren (punct_eq_ok hclose ▸ hexpr hinner)
        | _ => cases h₂
      | _ => cases h₂

theorem prefixed_takes {primary : Reader Expr} (hprimary : Takes primary 9) :
    ∀ bound, Takes (prefixed primary bound) 8
  | 0, _, _, _, h => nomatch h
  | bound + 1, tokens, e, rest, h => by
    obtain ⟨op, ts₁, hop, h₁⟩ := bind_eq_ok h
    rcases take?_eq_ok hop with ⟨t, op, pos, rfl, rfl, ht⟩ | ⟨rfl, rfl, -⟩
    · obtain ⟨operand, ts₂, hoperand, h₂⟩ := bind_eq_ok h₁
      cases h₂
      exact .unary (Token.unaryOp?_eq_some_iff.mp ht) (prefixed_takes hprimary bound hoperand)
    · exact .tighter (hprimary h₁)

/-- Further operands are added to what was read before, at the left. -/
theorem chain_reads (hoperand : Takes operand (level + 1)) {start : List Lexeme} :
    ∀ (bound : Nat) {left : Expr} {tokens : List Lexeme}, Expr.Reads level start left tokens →
      chain level operand bound left tokens = .ok e rest → Expr.Reads level start e rest
  | 0, _, _, _, h => nomatch h
  | bound + 1, left, tokens, hleft, h => by
    obtain ⟨op, ts₁, hop, h₁⟩ := bind_eq_ok h
    rcases take?_eq_ok hop with ⟨t, op, pos, rfl, rfl, ht⟩ | ⟨rfl, rfl, -⟩
    · obtain ⟨right, ts₂, hright, h₂⟩ := bind_eq_ok h₁
      have hop : BinaryOp.Spelt level t op := operatorAt?_eq_some_iff.mp ht
      exact chain_reads hoperand bound (.binary hleft hop (hoperand hright)) h₂
    · cases h₁
      exact hleft

/-- The levels from `level` on make an expression of that level out of prefixed ones. -/
theorem ladder_takes (hoperand : Takes operand 8) (bound : Nat) :
    ∀ (count level : Nat), level + count = 8 →
      Takes (ladder operand bound (List.range' level count)) level
  | 0, level, hlevel, _, _, _, h => by
    obtain rfl : level = 8 := hlevel
    exact hoperand h
  | count + 1, level, hlevel, tokens, e, rest, h => by
    have htighter : Takes (ladder operand bound (List.range' (level + 1) count)) (level + 1) :=
      ladder_takes hoperand bound count (level + 1) (by omega)
    obtain ⟨left, ts₁, hleft, h₁⟩ := bind_eq_ok h
    exact chain_reads htighter bound (.tighter (htighter hleft)) h₁

theorem assignTo_eq_ok {target value : Expr} {pos : Position}
    (h : assignTo target value pos tokens = .ok e rest) :
    ∃ name pos', target = .var name pos' ∧ e = .assign name value pos ∧ tokens = rest := by
  unfold assignTo at h
  split at h
  · cases h
    exact ⟨_, _, rfl, rfl, rfl⟩
  · cases h

/-- Expressions are read by the rules of the grammar. -/
theorem reader_takes : ∀ bound, Takes (Expr.reader bound) 1
  | 0, _, _, _, h => nomatch h
  | bound + 1, tokens, e, rest, h => by
    have hexpr : Takes (Expr.reader bound) 1 := reader_takes bound
    obtain ⟨target, ts₁, htarget, h₁⟩ := bind_eq_ok h
    obtain ⟨equals, ts₂, hequals, h₂⟩ := bind_eq_ok h₁
    have htarget : Expr.Reads 2 tokens target ts₁ :=
      ladder_takes (prefixed_takes (primary_takes hexpr) _) _ 6 2 rfl htarget
    rcases accept_eq_ok hequals with ⟨pos, rfl, rfl⟩ | ⟨rfl, rfl, -⟩
    · obtain ⟨value, ts₃, hvalue, h₃⟩ := bind_eq_ok h₂
      obtain ⟨name, pos', rfl, rfl, rfl⟩ := assignTo_eq_ok h₃
      exact .assign htarget (hexpr hvalue)
    · cases h₂
      exact .tighter htarget

end Expr

/-! ## Declarations -/

namespace VarDecl

variable {bound : Nat} {tokens rest : List Lexeme}

theorem tail_eq_ok {type : Ty} {name : String} {pos : Position} {d : VarDecl}
    (h : VarDecl.tail bound type name pos tokens = .ok d rest) :
    ∃ init, d = ⟨type, name, init, pos⟩ ∧ VarDecl.InitReads tokens init rest := by
  obtain ⟨equals, ts₁, hequals, h₁⟩ := bind_eq_ok h
  rcases accept_eq_ok hequals with ⟨pos', rfl, rfl⟩ | ⟨rfl, rfl, -⟩
  · obtain ⟨e, ts₂, he, h₂⟩ := bind_eq_ok h₁
    cases h₂
    exact ⟨some e, rfl, .some (Expr.reader_takes bound he)⟩
  · cases h₁
    exact ⟨none, rfl, .none⟩

theorem reader_reads {d : VarDecl} (h : VarDecl.reader bound tokens = .ok d rest) :
    VarDecl.Reads tokens d rest := by
  obtain ⟨⟨type, pos⟩, ts₁, htype, h₁⟩ := bind_eq_ok h
  obtain ⟨⟨name, pos'⟩, ts₂, hname, h₂⟩ := bind_eq_ok h₁
  obtain rfl := typeName_eq_ok htype
  obtain rfl := identifier_eq_ok hname
  obtain ⟨init, rfl, hinit⟩ := tail_eq_ok h₂
  exact .mk hinit

end VarDecl

/-! ## Statements -/

namespace Stmt

variable {arith : Arithmetic} {bound : Nat} {tokens rest : List Lexeme}

theorem exprUnless_reads {p : Punct} {e? : Option Expr}
    (h : exprUnless bound p tokens = .ok e? rest) : Expr.OptionReads tokens e? rest := by
  obtain ⟨next, ts₁, hnext, h₁⟩ := bind_eq_ok h
  obtain ⟨-, rfl⟩ := peek_eq_ok hnext
  split at h₁
  · cases h₁
    exact .none
  · obtain ⟨e, ts₂, he, h₂⟩ := bind_eq_ok h₁
    cases h₂
    exact .some (Expr.reader_takes bound he)

theorem condition_reads {keyword : Keyword} {e : Expr}
    (h : condition bound keyword tokens = .ok e rest) :
    ∃ pos pos' ts, tokens = Punct.leftParen.at pos :: ts ∧
      Expr.Reads 1 ts e (Punct.rightParen.at pos' :: rest) := by
  obtain ⟨pos, ts₁, hopen, h₁⟩ := bind_eq_ok h
  obtain ⟨e, ts₂, he, h₂⟩ := bind_eq_ok h₁
  obtain ⟨pos', ts₃, hclose, h₃⟩ := bind_eq_ok h₂
  cases h₃
  exact ⟨pos, pos', ts₁, punct_eq_ok hopen, punct_eq_ok hclose ▸ Expr.reader_takes bound he⟩

theorem forInit_reads {init : Option ForInit} (h : forInit bound tokens = .ok init rest) :
    ForInit.Reads tokens init rest := by
  obtain ⟨isType, ts₁, htype, h₁⟩ := bind_eq_ok h
  obtain rfl := atType_eq_ok htype
  split at h₁
  · obtain ⟨d, ts₂, hd, h₂⟩ := bind_eq_ok h₁
    cases h₂
    exact .declare (VarDecl.reader_reads hd)
  · obtain ⟨e, ts₂, he, h₂⟩ := bind_eq_ok h₁
    cases h₂
    cases exprUnless_reads he with
    | none => exact .none
    | some reads => exact .eval reads

theorem integer?_eq_some {t : Token} {n : Int64} (h : integer? t = some n) : t = .integer n := by
  unfold integer? at h
  split at h <;> cases h
  rfl

/-- A number behind a minus sign. -/
theorem negatedLabel_reads {label : CaseLabel} {n : Int64} {pos pos' : Position}
    (h : negatedLabel arith n tokens = .ok label rest) :
    CaseLabel.Reads arith (Punct.minus.at pos :: ⟨.integer n, pos'⟩ :: tokens) label rest := by
  cases hnegative : arith.negate? n with
  | none =>
    rw [negatedLabel_of_none hnegative] at h
    cases h
  | some negative =>
    rw [negatedLabel_of_some hnegative] at h
    cases h
    rcases Arithmetic.negate?_eq_some_iff.mp hnegative with hexact | ⟨rfl, rfl, rfl⟩
    · exact .negative hexact
    · exact .least rfl

theorem caseLabel_reads {label : CaseLabel} (h : caseLabel arith tokens = .ok label rest) :
    CaseLabel.Reads arith tokens label rest := by
  obtain ⟨next, ts₁, hnext, h₁⟩ := bind_eq_ok h
  obtain ⟨rfl, rfl⟩ := peek_eq_ok hnext
  rcases tokens with _ | ⟨⟨t, pos⟩, ts⟩
  · cases h₁
  · cases t with
    | integer n =>
      cases h₁
      exact .int
    | char c =>
      cases h₁
      exact .char
    | punct p =>
      cases p with
      | minus =>
        obtain ⟨⟨n, pos'⟩, ts₂, hn, h₂⟩ := bind_eq_ok (of_skip_bind h₁)
        -- a minus sign is part of a label only in front of a number
        obtain ⟨t, rfl, ht⟩ := take_eq_ok hn
        obtain rfl := integer?_eq_some ht
        exact negatedLabel_reads h₂
      | _ => cases h₁
    | _ => cases h₁

/-- The statement is spelt by the tokens taken, and if it could go on with `else`, none follows. -/
structure Taken (arith : Arithmetic) (tokens : List Lexeme) (s : Stmt) (rest : List Lexeme) : Prop where
  reads : Stmt.Reads arith tokens s rest
  noElse : s.opensIf = true → NotNext (.keyword .elseWord) rest

/-- The reader takes statements. -/
def Takes (arith : Arithmetic) (reader : Reader Stmt) : Prop :=
  ∀ {tokens s rest}, reader tokens = .ok s rest → Stmt.Taken arith tokens s rest

variable {statement : Reader Stmt}

/-- The items of a block: a type name announces a declaration. -/
theorem blockItem_reads (hstmt : Takes arith statement) {s : Stmt}
    (h : blockItem statement bound tokens = .ok s rest) :
    (∃ d pos, s = .declare d ∧ VarDecl.Reads tokens d (Punct.semicolon.at pos :: rest)) ∨
      Stmt.Reads arith tokens s rest := by
  obtain ⟨isType, ts₁, htype, h₁⟩ := bind_eq_ok h
  obtain rfl := atType_eq_ok htype
  split at h₁
  · obtain ⟨d, ts₂, hd, h₂⟩ := bind_eq_ok h₁
    obtain ⟨pos, ts₃, hsemicolon, h₃⟩ := bind_eq_ok h₂
    cases h₃
    exact .inl ⟨d, pos, rfl, punct_eq_ok hsemicolon ▸ VarDecl.reader_reads hd⟩
  · exact .inr (hstmt h₁).reads

theorem blockTail_reads (hstmt : Takes arith statement) {itemBound : Nat} :
    ∀ (bound : Nat) {tokens : List Lexeme} {body : List Stmt} {rest : List Lexeme},
      blockTail (blockItem statement itemBound) bound tokens = .ok body rest →
        Stmt.ItemsRead arith tokens body rest
  | 0, _, _, _, h => nomatch h
  | bound + 1, tokens, body, rest, h => by
    -- a round that reads one more item, whatever token it starts with
    have hmore : ∀ {tokens : List Lexeme},
        (do let first ← blockItem statement itemBound
            let rest ← blockTail (blockItem statement itemBound) bound
            return first :: rest : Reader (List Stmt)) tokens = .ok body rest →
          Stmt.ItemsRead arith tokens body rest := by
      intro tokens h
      obtain ⟨first, ts₁, hfirst, h₁⟩ := bind_eq_ok h
      obtain ⟨others, ts₂, hothers, h₂⟩ := bind_eq_ok h₁
      cases h₂
      have hothers : Stmt.ItemsRead arith ts₁ others rest := blockTail_reads hstmt bound hothers
      rcases blockItem_reads hstmt hfirst with ⟨d, pos, rfl, hd⟩ | hs
      · exact .declare hd hothers
      · exact .stmt hs hothers
    obtain ⟨next, ts₁, hnext, h₁⟩ := bind_eq_ok h
    obtain ⟨rfl, rfl⟩ := peek_eq_ok hnext
    rcases tokens with _ | ⟨⟨t, pos⟩, ts⟩
    · cases h₁
    · cases t with
      | punct p =>
        cases p with
        | rightBrace =>
          cases h₁
          exact .nil
        | _ => exact hmore h₁
      | endOfInput => cases h₁
      | _ => exact hmore h₁

theorem groupTail_reads (hstmt : Takes arith statement) {label : Option CaseLabel} {pos : Position}
    {group : CaseGroup} (h : groupTail statement bound label pos tokens = .ok group rest) :
    ∃ body pos' ts, tokens = Punct.colon.at pos' :: ts ∧ group = .mk label body pos ∧
      Stmt.BodyReads arith ts body rest := by
  obtain ⟨pos', ts₁, hcolon, h₁⟩ := bind_eq_ok h
  obtain ⟨body, ts₂, hbody, h₂⟩ := bind_eq_ok h₁
  cases h₂
  refine ⟨body, pos', ts₁, punct_eq_ok hcolon, rfl, ?_⟩
  exact manyWhile_rec (M := Stmt.BodyReads arith) (fun _ => .nil)
    (fun hs others => .cons (hstmt hs).reads others) bound hbody

theorem groups_reads (hstmt : Takes arith statement) :
    ∀ (bound : Nat) {tokens : List Lexeme} {cases : List CaseGroup} {rest : List Lexeme},
      groups arith statement bound tokens = .ok cases rest → CaseGroup.ListReads arith tokens cases rest
  | 0, _, _, _, h => nomatch h
  | bound + 1, tokens, groups, rest, h => by
    rw [Stmt.groups, here_bind, peek_bind] at h
    rcases tokens with _ | ⟨⟨t, pos⟩, ts⟩
    · cases h
    · cases t with
      | keyword k =>
        cases k with
        | caseWord =>
          obtain ⟨label, ts₁, hlabel, h₁⟩ := bind_eq_ok (of_skip_bind h)
          obtain ⟨first, ts₂, hfirst, h₂⟩ := bind_eq_ok h₁
          obtain ⟨others, ts₃, hothers, h₃⟩ := bind_eq_ok h₂
          cases h₃
          obtain ⟨body, pos', ts₄, rfl, rfl, hbody⟩ := groupTail_reads hstmt hfirst
          exact .cons (.case (caseLabel_reads hlabel)) hbody (groups_reads hstmt bound hothers)
        | defaultWord =>
          obtain ⟨first, ts₂, hfirst, h₂⟩ := bind_eq_ok (of_skip_bind h)
          obtain ⟨others, ts₃, hothers, h₃⟩ := bind_eq_ok h₂
          cases h₃
          obtain ⟨body, pos', ts₄, rfl, rfl, hbody⟩ := groupTail_reads hstmt hfirst
          exact .cons .default hbody (groups_reads hstmt bound hothers)
        | _ => cases h
      | punct p =>
        cases p with
        | rightBrace =>
          cases h
          exact .nil
        | _ => cases h
      | _ => cases h

theorem branchTail_taken (hstmt : Takes arith statement) {pos : Position} {s : Stmt}
    (h : branchTail statement bound pos tokens = .ok s rest) :
    Taken arith (Keyword.ifWord.at pos :: tokens) s rest := by
  obtain ⟨cond, ts₁, hparens, h₁⟩ := bind_eq_ok h
  obtain ⟨onTrue, ts₂, hfirst, h₂⟩ := bind_eq_ok h₁
  obtain ⟨elseWord, ts₃, helse, h₃⟩ := bind_eq_ok h₂
  obtain ⟨pos₁, pos₂, ts, rfl, hcond⟩ := condition_reads hparens
  have htrue : Taken arith ts₁ onTrue ts₂ := hstmt hfirst
  rcases accept_eq_ok helse with ⟨pos₃, rfl, rfl⟩ | ⟨rfl, rfl, hnone⟩
  · obtain ⟨onFalse, ts₄, hsecond, h₄⟩ := bind_eq_ok h₃
    cases h₄
    have hfalse : Taken arith ts₃ onFalse rest := hstmt hsecond
    -- An open `if` inside the first branch would have taken this `else`.
    have hclosed : onTrue.opensIf = false :=
      Bool.eq_false_iff.mpr fun hopen => htrue.noElse hopen _ rfl rfl
    exact ⟨.branchElse hcond htrue.reads hclosed hfalse.reads, hfalse.noElse⟩
  · cases h₃
    exact ⟨.branch hcond htrue.reads, fun _ => hnone⟩

theorem whileTail_taken (hstmt : Takes arith statement) {pos : Position} {s : Stmt}
    (h : whileTail statement bound pos tokens = .ok s rest) :
    Taken arith (Keyword.whileWord.at pos :: tokens) s rest := by
  obtain ⟨cond, ts₁, hparens, h₁⟩ := bind_eq_ok h
  obtain ⟨body, ts₂, hread, h₂⟩ := bind_eq_ok h₁
  cases h₂
  obtain ⟨pos₁, pos₂, ts, rfl, hcond⟩ := condition_reads hparens
  have hbody : Taken arith ts₁ body rest := hstmt hread
  exact ⟨.whileLoop hcond hbody.reads, hbody.noElse⟩

theorem forTail_taken (hstmt : Takes arith statement) {pos : Position} {s : Stmt}
    (h : forTail statement bound pos tokens = .ok s rest) :
    Taken arith (Keyword.forWord.at pos :: tokens) s rest := by
  obtain ⟨pos₁, ts₁, hopen, h₁⟩ := bind_eq_ok h
  obtain ⟨init, ts₂, hinit, h₂⟩ := bind_eq_ok h₁
  obtain ⟨pos₂, ts₃, hsemi, h₃⟩ := bind_eq_ok h₂
  obtain ⟨cond, ts₄, hcond, h₄⟩ := bind_eq_ok h₃
  obtain ⟨pos₃, ts₅, hsemi', h₅⟩ := bind_eq_ok h₄
  obtain ⟨step, ts₆, hstep, h₆⟩ := bind_eq_ok h₅
  obtain ⟨pos₄, ts₇, hclose, h₇⟩ := bind_eq_ok h₆
  obtain ⟨body, ts₈, hbody, h₈⟩ := bind_eq_ok h₇
  cases h₈
  obtain rfl := punct_eq_ok hopen
  obtain rfl := punct_eq_ok hsemi
  obtain rfl := punct_eq_ok hsemi'
  obtain rfl := punct_eq_ok hclose
  have hbody : Taken arith ts₇ body rest := hstmt hbody
  exact ⟨.forLoop (forInit_reads hinit) (exprUnless_reads hcond) (exprUnless_reads hstep)
    hbody.reads, hbody.noElse⟩

theorem switchTail_taken (hstmt : Takes arith statement) {pos : Position} {s : Stmt}
    (h : switchTail arith statement bound pos tokens = .ok s rest) :
    Taken arith (Keyword.switchWord.at pos :: tokens) s rest := by
  obtain ⟨scrutinee, ts₁, hparens, h₁⟩ := bind_eq_ok h
  obtain ⟨pos₃, ts₂, hbrace, h₂⟩ := bind_eq_ok h₁
  obtain ⟨groups, ts₃, hgroups, h₃⟩ := bind_eq_ok h₂
  cases h₃
  obtain rfl := punct_eq_ok hbrace
  obtain ⟨pos₁, pos₂, ts, rfl, hscrutinee⟩ := condition_reads hparens
  exact ⟨.switch hscrutinee (groups_reads hstmt bound hgroups), by simp [opensIf]⟩

theorem returnTail_taken {pos : Position} {s : Stmt}
    (h : returnTail bound pos tokens = .ok s rest) :
    Taken arith (Keyword.returnWord.at pos :: tokens) s rest := by
  obtain ⟨value, ts₁, hvalue, h₁⟩ := bind_eq_ok h
  obtain ⟨pos', ts₂, hsemi, h₂⟩ := bind_eq_ok h₁
  cases h₂
  obtain rfl := punct_eq_ok hsemi
  exact ⟨.ret (exprUnless_reads hvalue), by simp [opensIf]⟩

theorem breakTail_taken {pos : Position} {s : Stmt} (h : breakTail pos tokens = .ok s rest) :
    Taken arith (Keyword.breakWord.at pos :: tokens) s rest := by
  obtain ⟨pos', ts₁, hsemi, h₁⟩ := bind_eq_ok h
  cases h₁
  obtain rfl := punct_eq_ok hsemi
  exact ⟨.brk, by simp [opensIf]⟩

theorem evalStatement_taken {l : Lexeme} {s : Stmt}
    (h : evalStatement bound l.pos (l :: tokens) = .ok s rest) : Taken arith (l :: tokens) s rest := by
  obtain ⟨e, ts₁, he, h₁⟩ := bind_eq_ok h
  obtain ⟨pos', ts₂, hsemi, h₂⟩ := bind_eq_ok h₁
  cases h₂
  obtain rfl := punct_eq_ok hsemi
  exact ⟨.eval (Expr.reader_takes bound he), by simp [opensIf]⟩

/-- Statements are read by the rules of the grammar. -/
theorem reader_takes : ∀ bound, Takes arith (Stmt.reader arith bound)
  | 0, _, _, _, h => nomatch h
  | bound + 1, tokens, s, rest, h => by
    have hstmt : Takes arith (Stmt.reader arith bound) := reader_takes bound
    rw [Stmt.reader, here_bind, peek_bind] at h
    rcases tokens with _ | ⟨⟨t, pos⟩, ts⟩
    · obtain ⟨e, ts₁, he, -⟩ := bind_eq_ok h
      cases Expr.Reads.ne_nil (Expr.reader_takes _ he) rfl
    -- The first token chooses the kind of statement.
    · cases t with
      | keyword k =>
        cases k with
        | typeWord type => cases h
        | ifWord => exact branchTail_taken hstmt h
        | whileWord => exact whileTail_taken hstmt h
        | forWord => exact forTail_taken hstmt h
        | switchWord => exact switchTail_taken hstmt h
        | returnWord => exact returnTail_taken h
        | breakWord => exact breakTail_taken h
        | _ => exact evalStatement_taken h
      | punct p =>
        cases p with
        | leftBrace =>
          obtain ⟨body, ts₁, hbody, h₁⟩ := bind_eq_ok (of_skip_bind h)
          cases h₁
          exact ⟨.block (blockTail_reads hstmt _ hbody), by simp [opensIf]⟩
        | _ => exact evalStatement_taken h
      | _ => exact evalStatement_taken h

end Stmt

/-! ## Programs -/

theorem Param.reader_reads {p : Param} {tokens rest : List Lexeme}
    (h : Param.reader tokens = .ok p rest) : Param.Reads tokens p rest := by
  obtain ⟨⟨type, pos⟩, ts₁, htype, h₁⟩ := bind_eq_ok h
  obtain ⟨⟨name, pos'⟩, ts₂, hname, h₂⟩ := bind_eq_ok h₁
  cases h₂
  obtain rfl := typeName_eq_ok htype
  obtain rfl := identifier_eq_ok hname
  exact .mk

theorem Param.params_reads {params : List Param} {bound : Nat} {tokens rest : List Lexeme}
    (h : parenthesized Param.reader bound tokens = .ok params rest) :
    Param.ParamsRead tokens params rest := by
  rcases parenthesized_eq_ok h with ⟨pos, rfl, rfl⟩ | h
  · exact .none
  · refine .some (commaList_rec (M := Param.ListReads) ?_ ?_ bound h)
    · exact fun hitem => .last (Param.reader_reads hitem)
    · exact fun hitem others => .more (Param.reader_reads hitem) others

theorem Item.reader_reads {arith : Arithmetic} {i : Item} {bound : Nat} {tokens rest : List Lexeme}
    (h : Item.reader arith bound tokens = .ok i rest) : Item.Reads arith tokens i rest := by
  obtain ⟨⟨type, pos⟩, ts₁, htype, h₁⟩ := bind_eq_ok h
  obtain ⟨⟨name, pos₁⟩, ts₂, hname, h₂⟩ := bind_eq_ok h₁
  obtain ⟨paren, ts₃, hparen, h₃⟩ := bind_eq_ok h₂
  obtain rfl := typeName_eq_ok htype
  obtain rfl := identifier_eq_ok hname
  -- a parenthesis behind the name makes it a function
  rcases accept_eq_ok hparen with ⟨pos₂, rfl, rfl⟩ | ⟨rfl, rfl, -⟩
  · obtain ⟨f, ts₄, hf, h₄⟩ := bind_eq_ok h₃
    cases h₄
    obtain ⟨params, ts₅, hparams, h₅⟩ := bind_eq_ok hf
    obtain ⟨bodyPos, ts₆, hbrace, h₆⟩ := bind_eq_ok h₅
    obtain ⟨body, ts₇, hbody, h₇⟩ := bind_eq_ok h₆
    cases h₇
    obtain rfl := punct_eq_ok hbrace
    exact .function (Param.params_reads hparams)
      (Stmt.blockTail_reads (Stmt.reader_takes bound) bound hbody)
  · obtain ⟨d, ts₄, hd, h₄⟩ := bind_eq_ok h₃
    obtain ⟨pos₂, ts₅, hsemi, h₅⟩ := bind_eq_ok h₄
    cases h₅
    obtain rfl := punct_eq_ok hsemi
    obtain ⟨init, rfl, hinit⟩ := VarDecl.tail_eq_ok hd
    exact .global (.mk hinit)

theorem Program.reader_reads {arith : Arithmetic} {p : Program} {bound : Nat} {tokens rest : List Lexeme}
    (h : Program.reader arith bound tokens = .ok p rest) :
    Program.Reads arith tokens p rest ∧ ∀ l ∈ rest.head?, l.token = .endOfInput := by
  obtain ⟨pos, ts₁, hword, h₁⟩ := bind_eq_ok h
  obtain ⟨⟨name, pos₁⟩, ts₂, hname, h₂⟩ := bind_eq_ok h₁
  obtain ⟨pos₂, ts₃, hsemi, h₃⟩ := bind_eq_ok h₂
  obtain ⟨items, ts₄, hitems, h₄⟩ := bind_eq_ok h₃
  cases h₄
  obtain rfl := expect_eq_ok hword
  obtain rfl := identifier_eq_ok hname
  obtain rfl := punct_eq_ok hsemi
  have hlist : Item.ListReads arith ts₃ items rest ∧ ∀ l ∈ rest.head?, l.token = .endOfInput := by
    refine manyWhile_rec
      (M := fun ts items rest =>
        Item.ListReads arith ts items rest ∧ ∀ l ∈ rest.head?, l.token = .endOfInput) ?_ ?_ bound hitems
    · exact fun hend => ⟨.nil, fun l hl => by simpa using hend l hl⟩
    · exact fun hitem others => ⟨.cons (Item.reader_reads hitem) others.1, others.2⟩
  exact ⟨.mk hlist.1, hlist.2⟩

/-- A program that is parsed is spelt by the tokens up to the end marker. -/
theorem reads_of_parseIn {arith : Arithmetic} {p : Program} {tokens : List Lexeme}
    (h : parseIn arith tokens = some (.ok p)) :
    ∃ rest, Program.Reads arith tokens p rest ∧ ∀ l ∈ rest.head?, l.token = .endOfInput := by
  obtain ⟨rest, hread⟩ := parseIn_eq_ok_iff.mp h
  exact ⟨rest, Program.reader_reads hread⟩

theorem reads_of_parse {p : Program} {tokens : List Lexeme} (h : parse tokens = .ok p) :
    ∃ rest, Program.Reads .wrapping tokens p rest ∧ ∀ l ∈ rest.head?, l.token = .endOfInput :=
  reads_of_parseIn (parse_eq_ok_iff.mp h)

end Primer
