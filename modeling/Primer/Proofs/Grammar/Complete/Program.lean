import Primer.Proofs.Grammar.Complete.Expression

/-!
# Programs of the grammar are read

The statements and programs that tokens spell by the rules of the grammar are what the readers return.
What comes after a statement matters in one case only: an `else` behind an `if` that is still open
would be taken.

- `Stmt.Reads.complete` is the statement for statements, by induction on the rules.
- `parse_of_reads` is the statement for programs.
-/

namespace Primer

open Reader

variable {arith : Arithmetic}

/-! ## First tokens -/

/-- Tokens that a statement may begin with. -/
def Token.opensStmt (t : Token) : Bool :=
  t.opensExpr ||
    match t with
    | .punct .leftBrace => true
    | .keyword .ifWord | .keyword .whileWord | .keyword .forWord | .keyword .switchWord => true
    | .keyword .returnWord | .keyword .breakWord => true
    | _ => false

/-- A statement does not begin like a declaration, and it does not end a list of statements. -/
theorem Token.type?_of_opensStmt {t : Token} (h : t.opensStmt = true) : t.type? = none := by
  cases t with
  | keyword k =>
    cases k with
    | typeWord type => cases h
    | _ => rfl
  | _ => rfl

theorem Token.inGroup_of_opensStmt {t : Token} (h : t.opensStmt = true) : Stmt.inGroup t = true := by
  cases t with
  | keyword k =>
    cases k with
    | caseWord | defaultWord => cases h
    | _ => rfl
  | punct p =>
    cases p with
    | rightBrace => cases h
    | _ => rfl
  | endOfInput => cases h
  | _ => rfl

theorem Token.opensStmt_of_opensExpr {t : Token} (h : t.opensExpr = true) : t.opensStmt = true := by
  unfold Token.opensStmt
  rw [h]
  rfl

theorem Stmt.Reads.opens {ts rest : List Lexeme} {s : Stmt} (h : Stmt.Reads arith ts s rest) :
    ∃ l more, ts = l :: more ∧ l.token.opensStmt = true := by
  cases h with
  | eval reads =>
    obtain ⟨l, more, hts, hl⟩ := reads.opens
    exact ⟨l, more, hts, Token.opensStmt_of_opensExpr hl⟩
  | _ => exact ⟨_, _, rfl, rfl⟩

/-- The first token of a statement is not `t` if no statement begins with `t`. -/
theorem Stmt.Reads.notNext {ts rest : List Lexeme} {s : Stmt} {t : Token} (h : Stmt.Reads arith ts s rest)
    (ht : t.opensStmt = false) : NotNext t ts := by
  obtain ⟨l, more, rfl, hl⟩ := h.opens
  refine notNext_cons ?_
  rintro rfl
  rw [ht] at hl
  cases hl

theorem Stmt.ItemsRead.notNext_else {ts rest : List Lexeme} {body : List Stmt}
    (h : Stmt.ItemsRead arith ts body rest) : NotNext (.keyword .elseWord) ts := by
  cases h with
  | nil => exact notNext_cons (by decide)
  | declare reads _ =>
    cases reads with
    | mk _ => exact notNext_cons (by rintro ⟨⟩)
  | stmt reads _ => exact reads.notNext rfl

theorem Stmt.BodyReads.notNext_else {ts rest : List Lexeme} {body : List Stmt}
    (h : Stmt.BodyReads arith ts body rest) (hrest : NotNext (.keyword .elseWord) rest) :
    NotNext (.keyword .elseWord) ts := by
  cases h with
  | nil => exact hrest
  | cons reads _ => exact reads.notNext rfl

/-- A list of case groups begins with something that ends the statements in front of it. -/
theorem CaseGroup.ListReads.inGroup_eq_false {ts rest : List Lexeme} {groups : List CaseGroup}
    (h : CaseGroup.ListReads arith ts groups rest) : ∀ l ∈ ts.head?, Stmt.inGroup l.token = false := by
  cases h with
  | nil =>
    rintro l ⟨⟩
    rfl
  | cons labelReads _ _ =>
    cases labelReads <;>
    · rintro l ⟨⟩
      rfl

/-! ## Lengths -/

section Shorter

variable {ts rest : List Lexeme}

theorem Expr.OptionReads.shorter {e? : Option Expr} (h : Expr.OptionReads ts e? rest) :
    rest.length ≤ ts.length := by
  cases h with
  | none => exact Nat.le_refl _
  | some reads => exact Nat.le_of_lt reads.shorter

theorem VarDecl.Reads.shorter {d : VarDecl} (h : VarDecl.Reads ts d rest) :
    rest.length < ts.length := by
  cases h with
  | mk initReads =>
    cases initReads with
    | none =>
      simp only [List.length_cons]
      omega
    | some reads =>
      have := reads.shorter
      simp only [List.length_cons]
      omega

theorem ForInit.Reads.shorter {init : Option ForInit} (h : ForInit.Reads ts init rest) :
    rest.length ≤ ts.length := by
  cases h with
  | none => exact Nat.le_refl _
  | eval reads => exact Nat.le_of_lt reads.shorter
  | declare reads => exact Nat.le_of_lt reads.shorter

theorem CaseGroup.LabelReads.shorter {label : Option CaseLabel} {pos : Position}
    (h : CaseGroup.LabelReads arith ts label pos rest) : rest.length < ts.length := by
  cases h with
  | case reads =>
    cases reads <;> simp only [List.length_cons] <;> omega
  | default =>
    simp only [List.length_cons]
    omega

end Shorter

mutual

theorem Stmt.Reads.shorter : ∀ {ts rest : List Lexeme} {s : Stmt}, Stmt.Reads arith ts s rest →
    rest.length < ts.length
  | _, _, _, .eval reads => by
    have := reads.shorter
    simp only [List.length_cons] at *
    omega
  | _, _, _, .block items => by
    have := items.shorter
    simp only [List.length_cons] at *
    omega
  | _, _, _, .branch cond onTrue => by
    have := cond.shorter
    have := onTrue.shorter
    simp only [List.length_cons] at *
    omega
  | _, _, _, .branchElse cond onTrue _ onFalse => by
    have := cond.shorter
    have := onTrue.shorter
    have := onFalse.shorter
    simp only [List.length_cons] at *
    omega
  | _, _, _, .whileLoop cond body => by
    have := cond.shorter
    have := body.shorter
    simp only [List.length_cons] at *
    omega
  | _, _, _, .forLoop init cond step body => by
    have := init.shorter
    have := cond.shorter
    have := step.shorter
    have := body.shorter
    simp only [List.length_cons] at *
    omega
  | _, _, _, .switch scrutinee cases => by
    have := scrutinee.shorter
    have := cases.shorter
    simp only [List.length_cons] at *
    omega
  | _, _, _, .ret value => by
    have := value.shorter
    simp only [List.length_cons] at *
    omega
  | _, _, _, .brk => by
    simp only [List.length_cons]
    omega

theorem Stmt.ItemsRead.shorter : ∀ {ts rest : List Lexeme} {body : List Stmt},
    Stmt.ItemsRead arith ts body rest → rest.length < ts.length
  | _, _, _, .nil => by simp
  | _, _, _, .declare reads others => by
    have := reads.shorter
    have := others.shorter
    simp only [List.length_cons] at *
    omega
  | _, _, _, .stmt reads others => Nat.lt_trans others.shorter reads.shorter

theorem Stmt.BodyReads.shorter : ∀ {ts rest : List Lexeme} {body : List Stmt},
    Stmt.BodyReads arith ts body rest → rest.length ≤ ts.length
  | _, _, _, .nil => Nat.le_refl _
  | _, _, _, .cons reads others => Nat.le_trans others.shorter (Nat.le_of_lt reads.shorter)

theorem CaseGroup.ListReads.shorter : ∀ {ts rest : List Lexeme} {groups : List CaseGroup},
    CaseGroup.ListReads arith ts groups rest → rest.length < ts.length
  | _, _, _, .nil => by simp
  | _, _, _, .cons label body others => by
    have := label.shorter
    have := body.shorter
    have := others.shorter
    omega

end

/-! ## Clauses -/

section Clauses

variable {bound : Nat} {ts rest : List Lexeme} {pos : Position}

theorem Punct.opensExpr_of_endsExpr {p : Punct} (h : p.endsExpr = true) :
    (Token.punct p).opensExpr = false := by
  cases p with
  | semicolon | comma | rightParen => rfl
  | _ => cases h

theorem Expr.OptionReads.read {p : Punct} {e? : Option Expr}
    (h : Expr.OptionReads ts e? (p.at pos :: rest)) (hbound : ts.length < bound)
    (hp : p.endsExpr = true) : Stmt.exprUnless bound p ts = .ok e? (p.at pos :: rest) := by
  cases h with
  | none =>
    rw [Stmt.exprUnless, peek_bind]
    exact congrFun (if_pos rfl) _
  | some reads =>
    obtain ⟨l, more, rfl, hl⟩ := reads.opens
    have hne : Option.some l.token ≠ Option.some (.punct p) := by
      intro heq
      rw [Option.some.inj heq, Punct.opensExpr_of_endsExpr hp] at hl
      cases hl
    rw [Stmt.exprUnless, peek_bind]
    refine (congrFun (if_neg hne) _).trans ?_
    exact bind_ok (reads.read hbound hp)

theorem atType_cons (t : Token) (pos : Position) (rest : List Lexeme) :
    atType (⟨t, pos⟩ :: rest) = .ok t.type?.isSome (⟨t, pos⟩ :: rest) := rfl

theorem VarDecl.InitReads.read {type : Ty} {name : String} {init : Option Expr} {pos' : Position}
    (h : VarDecl.InitReads ts init (Punct.semicolon.at pos :: rest)) (hbound : ts.length < bound) :
    VarDecl.tail bound type name pos' ts =
      .ok ⟨type, name, init, pos'⟩ (Punct.semicolon.at pos :: rest) := by
  cases h with
  | none =>
    rw [VarDecl.tail, bind_ok (accept_miss (notNext_cons (by decide)))]
    rfl
  | some reads =>
    simp only [List.length_cons] at hbound
    rw [VarDecl.tail, bind_ok (accept_hit _ _ _)]
    exact bind_ok (reads.read (by omega) rfl)

theorem VarDecl.Reads.read {d : VarDecl} (h : VarDecl.Reads ts d (Punct.semicolon.at pos :: rest))
    (hbound : ts.length < bound) :
    VarDecl.reader bound ts = .ok d (Punct.semicolon.at pos :: rest) := by
  cases h with
  | mk initReads =>
    simp only [List.length_cons] at hbound
    exact (bind_ok (typeName_hit _ _ _)).trans
      ((bind_ok (identifier_hit _ _ _ _)).trans (initReads.read (by omega)))

theorem ForInit.Reads.read {init : Option ForInit}
    (h : ForInit.Reads ts init (Punct.semicolon.at pos :: rest)) (hbound : ts.length < bound) :
    Stmt.forInit bound ts = .ok init (Punct.semicolon.at pos :: rest) := by
  cases h with
  | none =>
    rw [Stmt.forInit, bind_ok (atType_cons _ _ _)]
    exact bind_ok (Expr.OptionReads.none.read hbound rfl)
  | eval reads =>
    obtain ⟨l, more, rfl, hl⟩ := reads.opens
    have htype : l.token.type? = Option.none :=
      Token.type?_of_opensStmt (Token.opensStmt_of_opensExpr hl)
    rw [Stmt.forInit, bind_ok (atType_cons _ _ _), htype]
    exact bind_ok ((Expr.OptionReads.some reads).read hbound rfl)
  | declare reads =>
    have hd := reads.read hbound
    cases reads with
    | mk initReads =>
      rw [Stmt.forInit, bind_ok (atType_cons _ _ _)]
      exact bind_ok hd

theorem CaseLabel.Reads.read {label : CaseLabel} (h : CaseLabel.Reads arith ts label rest) :
    Stmt.caseLabel arith ts = .ok label rest := by
  -- what becomes of a number behind a minus sign is a matter of the arithmetic
  have hminus : ∀ {n negative : Int64} {pos pos' : Position}, arith.negate? n = some negative →
      Stmt.caseLabel arith (Punct.minus.at pos :: ⟨.integer n, pos'⟩ :: rest) =
        .ok (.int negative) rest :=
    fun hnegative => Stmt.negatedLabel_of_some hnegative rest
  cases h with
  | int | char => rfl
  | negative exact => exact hminus (Arithmetic.negate?_eq_some_iff.mpr (.inl exact))
  | least wraps => exact hminus (Arithmetic.negate?_eq_some_iff.mpr (.inr ⟨wraps, rfl, rfl⟩))

/-- A condition in parentheses. -/
theorem condition_complete {e : Expr} {keyword : Keyword} {pos₁ pos₂ : Position}
    (h : Expr.Reads 1 ts e (Punct.rightParen.at pos₂ :: rest)) (hbound : ts.length < bound) :
    Stmt.condition bound keyword (Punct.leftParen.at pos₁ :: ts) = .ok e rest := by
  rw [Stmt.condition, bind_ok (punct_hit _ _ _ _), bind_ok (h.read hbound rfl)]
  exact bind_ok (punct_hit _ _ _ _)

end Clauses

/-! ## Statements -/

namespace Stmt

variable {bound : Nat} {ts ts' rest : List Lexeme} {pos pos₁ : Position} {e : Expr} {s : Stmt}
  {item : Reader Stmt}

/-- The reader returns the statement, unless it would take an `else` that follows. -/
def Complete (arith : Arithmetic) (ts : List Lexeme) (s : Stmt) (rest : List Lexeme) : Prop :=
  ∀ bound, ts.length < bound → (s.opensIf = true → NotNext (.keyword .elseWord) rest) →
    Stmt.reader arith bound ts = .ok s rest

/-- What is complete is shown for bounds that are not used up. -/
theorem Complete.intro {l : Lexeme}
    (h : ∀ bound, ts.length < bound → (s.opensIf = true → NotNext (.keyword .elseWord) rest) →
      Stmt.reader arith (bound + 1) (l :: ts) = .ok s rest) : Complete arith (l :: ts) s rest := by
  intro bound hbound helse
  simp only [List.length_cons] at hbound
  obtain ⟨bound, rfl⟩ := Nat.exists_eq_succ_of_ne_zero (show bound ≠ 0 by omega)
  exact h bound (by omega) helse

theorem complete_eval {l : Lexeme} {pos' : Position}
    (reads : Expr.Reads 1 (l :: ts) e (Punct.semicolon.at pos' :: rest)) :
    Complete arith (l :: ts) (.eval e l.pos) rest := by
  refine .intro fun bound hbound _ => ?_
  obtain ⟨l', more, hl', hopens⟩ := reads.opens
  obtain ⟨rfl, rfl⟩ := List.cons.inj hl'
  -- the first token is one that an expression opens with, so the reader tries no other kind of
  -- statement
  have hread : Stmt.reader arith (bound + 1) (l :: ts) = evalStatement (bound + 1) l.pos (l :: ts) := by
    rcases l with ⟨t, pos⟩
    cases t with
    | punct p =>
      cases p with
      | leftBrace => cases hopens
      | _ => rfl
    | keyword k => cases hopens
    | _ => rfl
  have hshort : (l :: ts).length < bound + 1 := by
    simp only [List.length_cons]
    omega
  rw [hread, evalStatement, bind_ok (reads.read hshort rfl)]
  exact bind_ok (punct_hit _ _ _ _)

theorem complete_block {body : List Stmt}
    (items : ∀ bound itemBound more, ts.length < bound → ts.length < itemBound → ts.length < more →
      blockTail (blockItem (Stmt.reader arith bound) itemBound) more ts = .ok body rest) :
    Complete arith (Punct.leftBrace.at pos :: ts) (.block body pos) rest := by
  refine .intro fun bound hbound _ => ?_
  exact bind_ok (items bound (bound + 1) (bound + 1) hbound (by omega) (by omega))

theorem complete_branch {pos₂ : Position}
    (cond : Expr.Reads 1 ts e (Punct.rightParen.at pos₂ :: ts')) (onTrue : Complete arith ts' s rest) :
    Complete arith (Keyword.ifWord.at pos :: Punct.leftParen.at pos₁ :: ts) (.branch e s none pos)
      rest := by
  refine .intro fun bound hbound helse => ?_
  have hshort := cond.shorter
  simp only [List.length_cons] at hbound hshort
  have htrue : Stmt.reader arith bound ts' = .ok s rest := onTrue bound (by omega) fun _ => helse rfl
  show branchTail (Stmt.reader arith bound) (bound + 1) pos (Punct.leftParen.at pos₁ :: ts) = _
  rw [branchTail, bind_ok (condition_complete cond (by omega)), bind_ok htrue,
    bind_ok (accept_miss (helse rfl))]
  rfl

theorem complete_branchElse {s' : Stmt} {pos₂ pos₃ : Position} {ts'' : List Lexeme}
    (cond : Expr.Reads 1 ts e (Punct.rightParen.at pos₂ :: ts'))
    (hshort' : (Keyword.elseWord.at pos₃ :: ts'').length < ts'.length)
    (onTrue : Complete arith ts' s (Keyword.elseWord.at pos₃ :: ts'')) (closed : s.opensIf = false)
    (onFalse : Complete arith ts'' s' rest) :
    Complete arith (Keyword.ifWord.at pos :: Punct.leftParen.at pos₁ :: ts) (.branch e s (some s') pos)
      rest := by
  refine .intro fun bound hbound helse => ?_
  have hshort := cond.shorter
  simp only [List.length_cons] at hbound hshort hshort'
  -- The first branch is closed, so the `else` is left for this `if`.
  have htrue : Stmt.reader arith bound ts' = .ok s (Keyword.elseWord.at pos₃ :: ts'') :=
    onTrue bound (by omega) fun hopen => absurd (closed.symm.trans hopen) (by decide)
  have hfalse : Stmt.reader arith bound ts'' = .ok s' rest := onFalse bound (by omega) helse
  show branchTail (Stmt.reader arith bound) (bound + 1) pos (Punct.leftParen.at pos₁ :: ts) = _
  rw [branchTail, bind_ok (condition_complete cond (by omega)), bind_ok htrue,
    bind_ok (accept_hit _ _ _)]
  exact bind_ok hfalse

theorem complete_whileLoop {pos₂ : Position}
    (cond : Expr.Reads 1 ts e (Punct.rightParen.at pos₂ :: ts')) (body : Complete arith ts' s rest) :
    Complete arith (Keyword.whileWord.at pos :: Punct.leftParen.at pos₁ :: ts) (.whileLoop e s pos)
      rest := by
  refine .intro fun bound hbound helse => ?_
  have hshort := cond.shorter
  simp only [List.length_cons] at hbound hshort
  have hbody : Stmt.reader arith bound ts' = .ok s rest := body bound (by omega) helse
  show whileTail (Stmt.reader arith bound) (bound + 1) pos (Punct.leftParen.at pos₁ :: ts) = _
  rw [whileTail, bind_ok (condition_complete cond (by omega))]
  exact bind_ok hbody

theorem complete_forLoop {init : Option ForInit} {cond step : Option Expr} {pos₂ pos₃ pos₄ : Position}
    {ts₁ ts₂ ts₃ ts₄ : List Lexeme}
    (initReads : ForInit.Reads ts₁ init (Punct.semicolon.at pos₂ :: ts₂))
    (condReads : Expr.OptionReads ts₂ cond (Punct.semicolon.at pos₃ :: ts₃))
    (stepReads : Expr.OptionReads ts₃ step (Punct.rightParen.at pos₄ :: ts₄))
    (body : Complete arith ts₄ s rest) :
    Complete arith (Keyword.forWord.at pos :: Punct.leftParen.at pos₁ :: ts₁)
      (.forLoop init cond step s pos) rest := by
  refine .intro fun bound hbound helse => ?_
  have h₁ := initReads.shorter
  have h₂ := condReads.shorter
  have h₃ := stepReads.shorter
  simp only [List.length_cons] at hbound h₁ h₂ h₃
  -- each clause takes a token at least, so the bound of the body is still large enough
  have hbody : Stmt.reader arith bound ts₄ = .ok s rest := body bound (by omega) helse
  show forTail (Stmt.reader arith bound) (bound + 1) pos (Punct.leftParen.at pos₁ :: ts₁) = _
  rw [forTail, bind_ok (punct_hit _ _ _ _), bind_ok (initReads.read (by omega)),
    bind_ok (punct_hit _ _ _ _), bind_ok (condReads.read (by omega) rfl),
    bind_ok (punct_hit _ _ _ _), bind_ok (stepReads.read (by omega) rfl),
    bind_ok (punct_hit _ _ _ _)]
  exact bind_ok hbody

theorem complete_switch {cases : List CaseGroup} {pos₂ pos₃ : Position}
    (scrutinee : Expr.Reads 1 ts e (Punct.rightParen.at pos₂ :: Punct.leftBrace.at pos₃ :: ts'))
    (hcases : ∀ bound more, ts'.length < bound → ts'.length < more →
      groups arith (Stmt.reader arith bound) more ts' = .ok cases rest) :
    Complete arith (Keyword.switchWord.at pos :: Punct.leftParen.at pos₁ :: ts) (.switch e cases pos)
      rest := by
  refine .intro fun bound hbound _ => ?_
  have hshort := scrutinee.shorter
  simp only [List.length_cons] at hbound hshort
  show switchTail arith (Stmt.reader arith bound) (bound + 1) pos (Punct.leftParen.at pos₁ :: ts) = _
  rw [switchTail, bind_ok (condition_complete scrutinee (by omega)), bind_ok (punct_hit _ _ _ _)]
  exact bind_ok (hcases bound (bound + 1) (by omega) (by omega))

theorem complete_ret {e? : Option Expr} {pos' : Position}
    (value : Expr.OptionReads ts e? (Punct.semicolon.at pos' :: rest)) :
    Complete arith (Keyword.returnWord.at pos :: ts) (.ret e? pos) rest := by
  refine .intro fun bound hbound _ => ?_
  show returnTail (bound + 1) pos ts = _
  rw [returnTail, bind_ok (value.read (by omega) rfl)]
  exact bind_ok (punct_hit _ _ _ _)

theorem complete_brk {pos' : Position} :
    Complete arith (Keyword.breakWord.at pos :: Punct.semicolon.at pos' :: rest) (.brk pos) rest :=
  .intro fun _ _ _ => rfl

/-! ## Lists of statements -/

theorem blockTail_cons {l : Lexeme} {body : List Stmt} (hbrace : l.token ≠ .punct .rightBrace)
    (hend : l.token ≠ .endOfInput) (hfirst : item (l :: ts) = .ok s ts')
    (hothers : blockTail item bound ts' = .ok body rest) :
    blockTail item (bound + 1) (l :: ts) = .ok (s :: body) rest := by
  have hmore : (do
      let first ← item
      let rest ← blockTail item bound
      return first :: rest : Reader (List Stmt)) (l :: ts) = .ok (s :: body) rest := by
    rw [bind_ok hfirst]
    exact bind_ok hothers
  rw [blockTail, peek_bind]
  rcases l with ⟨t, pos⟩
  cases t with
  | punct p =>
    cases p with
    | rightBrace => exact absurd rfl hbrace
    | _ => exact hmore
  | endOfInput => exact absurd rfl hend
  | _ => exact hmore

theorem blockItem_declare {d : VarDecl} {statement : Reader Stmt}
    (reads : VarDecl.Reads ts d (Punct.semicolon.at pos :: rest)) (hbound : ts.length < bound) :
    blockItem statement bound ts = .ok (.declare d) rest := by
  have hd := reads.read hbound
  cases reads with
  | mk _ =>
    rw [blockItem, bind_ok (atType_cons _ _ _)]
    exact (bind_ok hd).trans (bind_ok (punct_hit _ _ _ _))

theorem blockItem_stmt {statement : Reader Stmt} (reads : Stmt.Reads arith ts s rest) :
    blockItem statement bound ts = statement ts := by
  obtain ⟨l, more, rfl, hl⟩ := reads.opens
  rw [blockItem, bind_ok (atType_cons _ _ _), Token.type?_of_opensStmt hl]
  rfl

/-- The next declaration of a block. -/
theorem blockTail_declare {d : VarDecl} {body : List Stmt} {statement : Reader Stmt} {itemBound : Nat}
    (reads : VarDecl.Reads ts d (Punct.semicolon.at pos :: ts')) (hbound : ts.length < itemBound)
    (hothers : blockTail (blockItem statement itemBound) bound ts' = .ok body rest) :
    blockTail (blockItem statement itemBound) (bound + 1) ts = .ok (.declare d :: body) rest := by
  have hfirst : blockItem statement itemBound ts = .ok (.declare d) ts' :=
    blockItem_declare reads hbound
  cases reads with
  | mk _ => exact blockTail_cons (by rintro ⟨⟩) (by rintro ⟨⟩) hfirst hothers

/-- The next statement of a block. -/
theorem blockTail_stmt {body : List Stmt} {statement : Reader Stmt} {itemBound : Nat}
    (reads : Stmt.Reads arith ts s ts') (hs : statement ts = .ok s ts')
    (hothers : blockTail (blockItem statement itemBound) bound ts' = .ok body rest) :
    blockTail (blockItem statement itemBound) (bound + 1) ts = .ok (s :: body) rest := by
  have hfirst : blockItem statement itemBound ts = .ok s ts' := (blockItem_stmt reads).trans hs
  have hbrace : NotNext (.punct .rightBrace) ts := reads.notNext rfl
  have hend : NotNext .endOfInput ts := reads.notNext rfl
  obtain ⟨l, more, rfl, -⟩ := reads.opens
  exact blockTail_cons (hbrace l rfl) (hend l rfl) hfirst hothers

/-- The next case group. -/
theorem groups_cons {label : Option CaseLabel} {body : List Stmt} {cases : List CaseGroup}
    {statement : Reader Stmt} {ts₁ ts₂ : List Lexeme}
    (labelReads : CaseGroup.LabelReads arith ts label pos ts₁)
    (hbody : manyWhile inGroup statement (bound + 1) ts₁ = .ok body ts₂)
    (hothers : groups arith statement bound ts₂ = .ok cases rest) :
    groups arith statement (bound + 1) ts = .ok (.mk label body pos :: cases) rest := by
  have hgroup : ∀ pos', groupTail statement (bound + 1) label pos (Punct.colon.at pos' :: ts₁) =
      .ok (.mk label body pos) ts₂ := by
    intro pos'
    rw [groupTail, bind_ok (punct_hit _ _ _ _)]
    exact bind_ok hbody
  rw [groups, here_bind, peek_bind]
  cases labelReads with
  | case reads => exact (bind_ok reads.read).trans ((bind_ok (hgroup _)).trans (bind_ok hothers))
  | default => exact (bind_ok (hgroup _)).trans (bind_ok hothers)

end Stmt

mutual

/-- Statements of the grammar are read. -/
theorem Stmt.Reads.complete : ∀ {ts rest : List Lexeme} {s : Stmt}, Stmt.Reads arith ts s rest →
    Stmt.Complete arith ts s rest
  | _, _, _, .eval reads => Stmt.complete_eval reads
  | _, _, _, .block items => Stmt.complete_block items.complete
  | _, _, _, .branch cond onTrue => Stmt.complete_branch cond onTrue.complete
  | _, _, _, .branchElse cond onTrue closed onFalse =>
    Stmt.complete_branchElse cond onTrue.shorter onTrue.complete closed onFalse.complete
  | _, _, _, .whileLoop cond body => Stmt.complete_whileLoop cond body.complete
  | _, _, _, .forLoop init cond step body => Stmt.complete_forLoop init cond step body.complete
  | _, _, _, .switch scrutinee cases => Stmt.complete_switch scrutinee cases.complete
  | _, _, _, .ret value => Stmt.complete_ret value
  | _, _, _, .brk => Stmt.complete_brk

theorem Stmt.ItemsRead.complete : ∀ {ts rest : List Lexeme} {body : List Stmt},
    Stmt.ItemsRead arith ts body rest → ∀ bound itemBound more, ts.length < bound →
      ts.length < itemBound → ts.length < more →
      Stmt.blockTail (Stmt.blockItem (Stmt.reader arith bound) itemBound) more ts = .ok body rest
  | _, _, _, .nil, _, _, more, _, _, hmore => by
    obtain ⟨more, rfl⟩ := Nat.exists_eq_succ_of_ne_zero (show more ≠ 0 by omega)
    rfl
  | _, _, _, .declare reads others, bound, itemBound, more, hbound, hitem, hmore => by
    obtain ⟨more, rfl⟩ := Nat.exists_eq_succ_of_ne_zero (show more ≠ 0 by omega)
    have hshort := reads.shorter
    simp only [List.length_cons] at hshort
    exact Stmt.blockTail_declare reads hitem
      (others.complete bound itemBound more (by omega) (by omega) (by omega))
  | _, _, _, .stmt reads others, bound, itemBound, more, hbound, hitem, hmore => by
    obtain ⟨more, rfl⟩ := Nat.exists_eq_succ_of_ne_zero (show more ≠ 0 by omega)
    have hshort := reads.shorter
    exact Stmt.blockTail_stmt reads (reads.complete bound hbound fun _ => others.notNext_else)
      (others.complete bound itemBound more (by omega) (by omega) (by omega))

theorem Stmt.BodyReads.complete : ∀ {ts rest : List Lexeme} {body : List Stmt},
    Stmt.BodyReads arith ts body rest → (∀ l ∈ rest.head?, Stmt.inGroup l.token = false) →
      ∀ bound more, ts.length < bound → ts.length < more →
      manyWhile Stmt.inGroup (Stmt.reader arith bound) more ts = .ok body rest
  | _, _, _, .nil, hrest, _, more, _, hmore => by
    obtain ⟨more, rfl⟩ := Nat.exists_eq_succ_of_ne_zero (show more ≠ 0 by omega)
    exact manyWhile_stop hrest
  | _, _, _, .cons reads others, hrest, bound, more, hbound, hmore => by
    obtain ⟨more, rfl⟩ := Nat.exists_eq_succ_of_ne_zero (show more ≠ 0 by omega)
    have hshort := reads.shorter
    have helse : NotNext (.keyword .elseWord) _ := others.notNext_else fun l hl ht => by
      have := hrest l hl
      rw [ht] at this
      cases this
    have hfirst := reads.complete bound hbound fun _ => helse
    have hothers := others.complete hrest bound more (by omega) (by omega)
    obtain ⟨l, ts, rfl, hl⟩ := reads.opens
    exact manyWhile_more (Token.inGroup_of_opensStmt hl) hfirst hothers

theorem CaseGroup.ListReads.complete : ∀ {ts rest : List Lexeme} {groups : List CaseGroup},
    CaseGroup.ListReads arith ts groups rest → ∀ bound more, ts.length < bound → ts.length < more →
      Stmt.groups arith (Stmt.reader arith bound) more ts = .ok groups rest
  | _, _, _, .nil, _, more, _, hmore => by
    obtain ⟨more, rfl⟩ := Nat.exists_eq_succ_of_ne_zero (show more ≠ 0 by omega)
    rfl
  | _, _, _, .cons label body others, bound, more, hbound, hmore => by
    obtain ⟨more, rfl⟩ := Nat.exists_eq_succ_of_ne_zero (show more ≠ 0 by omega)
    have hlabel := label.shorter
    have hbody := body.shorter
    exact Stmt.groups_cons label
      (body.complete others.inGroup_eq_false bound (more + 1) (by omega) (by omega))
      (others.complete bound more (by omega) (by omega))

end

/-! ## Programs -/

theorem Param.Reads.read {p : Param} {ts rest : List Lexeme} (h : Param.Reads ts p rest) :
    Param.reader ts = .ok p rest := by
  cases h with
  | mk => rfl

theorem Param.Reads.shorter {p : Param} {ts rest : List Lexeme} (h : Param.Reads ts p rest) :
    rest.length < ts.length := by
  cases h with
  | mk =>
    simp only [List.length_cons]
    omega

theorem Param.ListReads.complete {ps : List Param} {ts rest : List Lexeme}
    (h : Param.ListReads ts ps rest) : ∀ bound, ts.length < bound →
      commaList Param.reader bound ts = .ok ps rest := by
  induction h with
  | last reads =>
    intro bound hbound
    obtain ⟨bound, rfl⟩ := Nat.exists_eq_succ_of_ne_zero (show bound ≠ 0 by omega)
    exact commaList_last reads.read
  | more reads _ ih =>
    intro bound hbound
    obtain ⟨bound, rfl⟩ := Nat.exists_eq_succ_of_ne_zero (show bound ≠ 0 by omega)
    have hshort := reads.shorter
    simp only [List.length_cons] at hshort
    exact commaList_more reads.read (ih bound (by omega))

theorem Param.ListReads.shorter {ps : List Param} {ts rest : List Lexeme}
    (h : Param.ListReads ts ps rest) : rest.length < ts.length := by
  induction h with
  | last reads =>
    have := reads.shorter
    simp only [List.length_cons] at this
    omega
  | more reads _ ih =>
    have := reads.shorter
    simp only [List.length_cons] at this
    omega

theorem Param.ParamsRead.read {ps : List Param} {ts rest : List Lexeme} {bound : Nat}
    (h : Param.ParamsRead ts ps rest) (hbound : ts.length < bound) :
    parenthesized Param.reader bound ts = .ok ps rest := by
  cases h with
  | none =>
    rw [parenthesized, bind_ok (accept_hit _ _ _)]
    rfl
  | some reads =>
    have hparen : NotNext (.punct .rightParen) ts := by
      cases reads with
      | last reads | more reads _ =>
        cases reads with
        | mk => exact notNext_cons (by rintro ⟨⟩)
    rw [parenthesized, bind_ok (accept_miss hparen)]
    exact reads.complete bound hbound

theorem Param.ParamsRead.shorter {ps : List Param} {ts rest : List Lexeme}
    (h : Param.ParamsRead ts ps rest) : rest.length < ts.length := by
  cases h with
  | none => simp
  | some reads => exact reads.shorter

theorem Item.Reads.read {i : Item} {ts rest : List Lexeme} {bound : Nat} (h : Item.Reads arith ts i rest)
    (hbound : ts.length < bound) : Item.reader arith bound ts = .ok i rest := by
  cases h with
  | @function returns name _ _ pos _ _ _ ts _ _ params body =>
    have hshort := params.shorter
    simp only [List.length_cons] at hbound hshort
    have hbody := body.complete bound bound bound (by omega) (by omega) (by omega)
    have hf : FunctionDef.tail arith bound returns name pos ts = .ok _ rest :=
      (bind_ok (params.read (by omega))).trans ((bind_ok (punct_hit _ _ _ _)).trans (bind_ok hbody))
    exact (bind_ok (typeName_hit _ _ _)).trans ((bind_ok (identifier_hit _ _ _ _)).trans
      ((bind_ok (accept_hit _ _ _)).trans (bind_ok hf)))
  | global reads =>
    cases reads with
    | @mk _ _ _ _ _ ts _ initReads =>
      simp only [List.length_cons] at hbound
      -- without a parenthesis behind the name the item is a global
      have hparen : NotNext (.punct .leftParen) ts := by
        cases initReads with
        | none => exact notNext_cons (by decide)
        | some _ => exact notNext_cons (by decide)
      exact (bind_ok (typeName_hit _ _ _)).trans ((bind_ok (identifier_hit _ _ _ _)).trans
        ((bind_ok (accept_miss hparen)).trans ((bind_ok (initReads.read (by omega))).trans
          (bind_ok (punct_hit _ _ _ _)))))

theorem Item.Reads.shorter {i : Item} {ts rest : List Lexeme} (h : Item.Reads arith ts i rest) :
    rest.length < ts.length := by
  cases h with
  | function params body =>
    have := params.shorter
    have := body.shorter
    simp only [List.length_cons] at *
    omega
  | global reads =>
    have := reads.shorter
    simp only [List.length_cons] at this
    omega

theorem Item.Reads.opens {i : Item} {ts rest : List Lexeme} (h : Item.Reads arith ts i rest) :
    ∃ type pos more, ts = (Keyword.typeWord type).at pos :: more := by
  cases h with
  | function _ _ => exact ⟨_, _, _, rfl⟩
  | global reads =>
    cases reads with
    | mk _ => exact ⟨_, _, _, rfl⟩

theorem Item.ListReads.complete {items : List Item} {ts rest : List Lexeme} {itemBound : Nat}
    (h : Item.ListReads arith ts items rest) (hrest : ∀ l ∈ rest.head?, l.token = .endOfInput) :
    ts.length < itemBound → ∀ bound, ts.length < bound →
      manyWhile (fun t => t != .endOfInput) (Item.reader arith itemBound) bound ts = .ok items rest := by
  induction h with
  | nil =>
    intro _ bound hbound
    obtain ⟨bound, rfl⟩ := Nat.exists_eq_succ_of_ne_zero (show bound ≠ 0 by omega)
    exact manyWhile_stop fun l hl => by simp [hrest l hl]
  | cons reads _ ih =>
    intro hitem bound hbound
    obtain ⟨bound, rfl⟩ := Nat.exists_eq_succ_of_ne_zero (show bound ≠ 0 by omega)
    have hfirst := reads.read hitem
    have hshort := reads.shorter
    have hothers := ih hrest (by omega) bound (by omega)
    obtain ⟨type, pos, more, rfl⟩ := reads.opens
    exact manyWhile_more rfl hfirst hothers

theorem Program.Reads.read {p : Program} {ts rest : List Lexeme} {bound : Nat}
    (h : Program.Reads arith ts p rest) (hrest : ∀ l ∈ rest.head?, l.token = .endOfInput)
    (hbound : ts.length < bound) : Program.reader arith bound ts = .ok p rest := by
  cases h with
  | mk itemsRead =>
    simp only [List.length_cons] at hbound
    have hitems := itemsRead.complete hrest (show _ < bound by omega) bound (by omega)
    exact (bind_ok (expect_hit _ _ _ _)).trans ((bind_ok (identifier_hit _ _ _ _)).trans
      ((bind_ok (punct_hit _ _ _ _)).trans (bind_ok hitems)))

/-- The program that tokens spell up to the end marker is what they are parsed to. -/
theorem parseIn_of_reads {p : Program} {tokens rest : List Lexeme} (h : Program.Reads arith tokens p rest)
    (hrest : ∀ l ∈ rest.head?, l.token = .endOfInput) : parseIn arith tokens = some (.ok p) :=
  parseIn_eq_ok_iff.mpr ⟨rest, h.read hrest (Nat.lt_succ_self _)⟩

theorem parse_of_reads {p : Program} {tokens rest : List Lexeme}
    (h : Program.Reads .wrapping tokens p rest) (hrest : ∀ l ∈ rest.head?, l.token = .endOfInput) :
    parse tokens = .ok p :=
  parse_eq_ok_iff.mpr (parseIn_of_reads h hrest)

end Primer
