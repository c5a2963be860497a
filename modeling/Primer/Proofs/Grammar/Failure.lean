import Primer.Proofs.Grammar.Prompt

/-!
# Where parsing fails

All readers of the grammar are prompt, so a syntax error is settled at the token where it is raised:
no token behind this one has a say in it. The end of the tokens never has to be guessed as long as
there is an end marker.

- `Program.prompt_reader` is what the lemmas about readers come to.
- `Settles` says that the first tokens settle an error.
- `parse_error_raised` is the statement about all token lists that hold an end marker.
-/

namespace Primer

open Reader

variable {arith : Arithmetic} {n b : Nat}

/-! ## Expressions -/

namespace Expr

variable {expression expression' operand operand' : Reader Expr}

theorem prompt_chain (level : Nat) (hoperand : Prompt arith n operand operand') (hb : n ≤ b) (b' : Nat)
    (left : Expr) : Prompt arith n (chain level operand b left) (chain level operand' b' left) := by
  refine Prompt.roundsWith (fun _ => rfl) (fun hk _ ih left => ?_) b' hb left
  refine .take? rfl (fun found => ?_) (prompt_pure left)
  exact (hoperand.mono (Nat.le_of_lt hk)).bind fun right => ih _

theorem prompt_ladder (hoperand : Prompt arith n operand operand') (hb : n ≤ b) (b' : Nat) :
    ∀ levels, Prompt arith n (ladder operand b levels) (ladder operand' b' levels)
  | [] => hoperand
  | level :: tighter => by
    have htighter := prompt_ladder hoperand hb b' tighter
    exact htighter.bind fun left => prompt_chain level htighter hb b' left

theorem prompt_prefixed (hoperand : Prompt arith n operand operand') (hb : n ≤ b) (b' : Nat) :
    Prompt arith n (prefixed operand b) (prefixed operand' b') := by
  refine Prompt.rounds rfl (fun hk _ ih => ?_) b' hb
  refine .take? rfl (fun found => ?_) (hoperand.mono hk)
  exact ih.bind fun e => prompt_pure _

theorem prompt_nameTail (hexpr : Prompt arith n expression expression') (hb : n ≤ b) (b' : Nat)
    (name : String) (pos : Position) :
    Prompt arith n (nameTail expression b name pos) (nameTail expression' b' name pos) := by
  refine (prompt_accept (by decide)).bind fun paren => ?_
  cases paren with
  | none => exact prompt_pure _
  | some _ => exact (prompt_parenthesized hexpr hb b').bind fun args => prompt_pure _

/-- An expression in an expression stands behind a token, so its reader has to cope with one token
less. -/
theorem prompt_primary (hexpr : Prompt arith n expression expression') (hb : n ≤ b) (b' : Nat) :
    Prompt arith (n + 1) (primary expression b) (primary expression' b') := by
  refine (prompt_take? rfl).bind fun found => ?_
  cases found with
  | some found => exact prompt_pure _
  | none =>
    intro next
    refine .peek ?_
    -- from here on the reader looks at the kind of the next token only
    rcases next with _ | ⟨t, pos⟩
    · exact promptOn_reject .expression nofun
    · cases t with
      | identifier name =>
        exact .here (.skip (by rintro ⟨⟩) (prompt_nameTail hexpr hb b' name pos))
      | punct p =>
        cases p with
        | leftParen =>
          refine .skip (by rintro ⟨⟩) (hexpr.bind fun inner => ?_)
          exact (prompt_punct .closingParen nofun).bind fun _ => prompt_pure _
        | _ => exact promptOn_reject .expression nofun
      | _ => exact promptOn_reject .expression nofun

/-- The right side of an assignment whose target is not a variable. Its error names the equals sign `l`,
which is one of the tokens only as long as it is counted among them. -/
theorem settled_badTarget {l : Lexeme} {ts : List Lexeme} {s : Reader Expr}
    (hl : l.token = .punct .equals) (hexpr : Settled arith expression' ts (expression ts))
    (hs : ∀ ts', s (l :: ts') = (expression' >>= fun _ => fail (.invalidTarget l.pos)) ts') :
    Settled arith s (l :: ts) ((expression >>= fun _ => fail (.invalidTarget l.pos)) ts) := by
  rw [bind_apply]
  cases hts : expression ts with
  | ok e rest =>
    rw [hts] at hexpr
    refine .badTarget List.mem_cons_self hl ?_
    rw [Confirms, hs]
    exact hexpr.confirms.bind (.inl rfl)
  | error e =>
    rw [hts] at hexpr
    exact hexpr.bind_error.cons (by rw [hl]; rintro ⟨⟩) hs
  | overflow =>
    rw [hts] at hexpr
    exact hexpr.bind_overflow.cons (by rw [hl]; rintro ⟨⟩) hs
  | unfinished =>
    rw [hts] at hexpr
    cases hexpr

theorem prompt_assignment (hexpr : Prompt arith n expression expression') (target : Expr) :
    Prompt arith (n + 1)
      (do match ← accept (.punct .equals) with
          | some pos =>
            let value ← expression
            assignTo target value pos
          | none => return target)
      (do match ← accept (.punct .equals) with
          | some pos =>
            let value ← expression'
            assignTo target value pos
          | none => return target) := by
  -- only a variable may be assigned to; any other target fails once the value was read
  by_cases hvar : ∃ name pos, target = .var name pos
  · obtain ⟨name, pos, rfl⟩ := hvar
    refine .accept (by decide) (fun pos => ?_) (prompt_pure _)
    exact hexpr.bind fun value => prompt_pure _
  · have hassign : ∀ value pos, assignTo target value pos = fail (.invalidTarget pos) := by
      intro value pos
      cases target with
      | var name pos' => exact absurd ⟨name, pos', rfl⟩ hvar
      | _ => rfl
    simp only [hassign]
    -- the error names the equals sign, which `Prompt.accept` no longer counts among the tokens
    intro next ts _ hts
    by_cases hequals : NotNext (.punct .equals) ts
    · rw [bind_ok (accept_miss hequals)]
      refine ((prompt_pure target).settled hts).of_head fun ts' hhead => bind_ok (accept_miss ?_)
      rwa [NotNext, hhead]
    · rcases ts with _ | ⟨⟨t, pos⟩, ts⟩
      · exact absurd (fun l hl => nomatch hl) hequals
      · obtain rfl : t = .punct .equals := Classical.byContradiction fun ht =>
          hequals (notNext_cons ht)
        rw [bind_ok (accept_hit _ pos ts)]
        exact settled_badTarget rfl (hexpr.settled (Nat.lt_of_succ_lt_succ hts)) fun ts' =>
          bind_ok (accept_hit _ pos ts')

theorem prompt_reader (b b' : Nat) : Prompt arith b (reader b) (reader b') := by
  refine Prompt.rounds rfl (fun {k b b'} _ hk hexpr => ?_) b' (Nat.le_refl b)
  have hoperand : Prompt arith (k + 1) (prefixed (primary (reader b) (b + 1)) (b + 1))
      (prefixed (primary (reader b') (b' + 1)) (b' + 1)) :=
    prompt_prefixed (prompt_primary hexpr (Nat.le_succ_of_le hk) _) (Nat.succ_le_succ hk) _
  refine Prompt.bind (prompt_ladder hoperand (Nat.succ_le_succ hk) _ _) fun target => ?_
  exact prompt_assignment hexpr target

end Expr

/-! ## Statements -/

namespace VarDecl

theorem prompt_tail (hb : n ≤ b) (b' : Nat) (type : Ty) (name : String) (pos : Position) :
    Prompt arith n (tail b type name pos) (tail b' type name pos) := by
  refine (prompt_accept (by decide)).bind fun equals => ?_
  cases equals with
  | none => exact prompt_pure _
  | some _ => exact ((Expr.prompt_reader b b').mono hb).bind fun e => prompt_pure _

theorem prompt_reader (hb : n ≤ b) (b' : Nat) : Prompt arith n (reader b) (reader b') := by
  refine prompt_typeName.bind fun type => ?_
  exact (prompt_identifier .variableName nofun).bind fun name => prompt_tail hb b' type.1 name.1 type.2

end VarDecl

namespace Stmt

variable {statement statement' item item' : Reader Stmt}

theorem prompt_exprUnless (hb : n ≤ b) (b' : Nat) (p : Punct) :
    Prompt arith n (exprUnless b p) (exprUnless b' p) := by
  refine prompt_peek.bind fun next => ?_
  by_cases hp : next = some (.punct p)
  · simp only [if_pos hp]
    exact prompt_pure _
  · simp only [if_neg hp]
    exact ((Expr.prompt_reader b b').mono hb).bind fun e => prompt_pure _

theorem prompt_condition (hb : n ≤ b) (b' : Nat) (keyword : Keyword) :
    Prompt arith n (condition b keyword) (condition b' keyword) := by
  refine (prompt_punct (.parenAfter keyword) nofun).bind fun _ => ?_
  refine ((Expr.prompt_reader b b').mono hb).bind fun e => ?_
  exact (prompt_punct (.parenAfterCondition keyword) nofun).bind fun _ => prompt_pure _

theorem prompt_blockTail (hitem : Prompt arith n item item') (hadvances : item.Advances) (hb : n ≤ b)
    (b' : Nat) : Prompt arith n (blockTail item b) (blockTail item' b') := by
  refine Prompt.rounds rfl (fun {k b b'} hk _ ih => ?_) b' hb
  -- one more item, and the rest of the block with a round less
  have hmore : Prompt arith (k + 1)
      (do let first ← item
          let rest ← blockTail item b
          return first :: rest)
      (do let first ← item'
          let rest ← blockTail item' b'
          return first :: rest) := by
    refine (hitem.mono hk).next hadvances fun first => ?_
    exact ih.bind fun others => prompt_pure _
  intro next
  refine .peek ?_
  rcases next with _ | ⟨t, pos⟩
  · exact promptOn_reject .blockEnd nofun
  · cases t with
    | punct p =>
      cases p with
      | rightBrace => exact .skip (by rintro ⟨⟩) (prompt_pure _)
      | _ => exact hmore _
    | endOfInput => exact promptOn_reject .blockEnd nofun
    | _ => exact hmore _

theorem prompt_blockItem (hstmt : Prompt arith n statement statement') (hb : n ≤ b) (b' : Nat) :
    Prompt arith n (blockItem statement b) (blockItem statement' b') := by
  refine prompt_atType.bind fun isType => ?_
  cases isType with
  | false => exact hstmt
  | true =>
    refine (VarDecl.prompt_reader hb b').bind fun d => ?_
    exact (prompt_punct .semicolonAfterDeclaration nofun).bind fun _ => prompt_pure _

theorem prompt_branchTail (hstmt : Prompt arith n statement statement') (hb : n ≤ b) (b' : Nat)
    (pos : Position) : Prompt arith n (branchTail statement b pos) (branchTail statement' b' pos) := by
  refine (prompt_condition hb b' _).bind fun cond => ?_
  refine hstmt.bind fun onTrue => ?_
  refine (prompt_accept (by decide)).bind fun elseWord => ?_
  cases elseWord with
  | none => exact prompt_pure _
  | some _ => exact hstmt.bind fun onFalse => prompt_pure _

theorem prompt_whileTail (hstmt : Prompt arith n statement statement') (hb : n ≤ b) (b' : Nat)
    (pos : Position) : Prompt arith n (whileTail statement b pos) (whileTail statement' b' pos) := by
  refine (prompt_condition hb b' _).bind fun cond => ?_
  exact hstmt.bind fun body => prompt_pure _

theorem prompt_forInit (hb : n ≤ b) (b' : Nat) : Prompt arith n (forInit b) (forInit b') := by
  refine prompt_atType.bind fun isType => ?_
  cases isType with
  | true => exact (VarDecl.prompt_reader hb b').bind fun d => prompt_pure _
  | false => exact (prompt_exprUnless hb b' _).bind fun e => prompt_pure _

theorem prompt_forTail (hstmt : Prompt arith n statement statement') (hb : n ≤ b) (b' : Nat)
    (pos : Position) : Prompt arith n (forTail statement b pos) (forTail statement' b' pos) := by
  refine (prompt_punct (.parenAfter .forWord) nofun).bind fun _ => ?_
  refine (prompt_forInit hb b').bind fun init => ?_
  refine (prompt_punct .semicolonAfterForInit nofun).bind fun _ => ?_
  refine (prompt_exprUnless hb b' _).bind fun cond => ?_
  refine (prompt_punct .semicolonAfterForCondition nofun).bind fun _ => ?_
  refine (prompt_exprUnless hb b' _).bind fun step => ?_
  refine (prompt_punct .parenAfterForClauses nofun).bind fun _ => ?_
  exact hstmt.bind fun body => prompt_pure _

/-- Behind a minus sign anything else than a number is refused. -/
theorem takeInteger_other {ts : List Lexeme} (h : ∀ l ∈ ts.head?, integer? l.token = none)
    (f : Int64 × Position → Reader CaseLabel) :
    (take integer? .integerAfterMinus >>= f) ts = .error (unexpected .integerAfterMinus ts) := by
  rw [take, bind_apply, bind_ok (take?_none h)]
  rfl

theorem exists_integer_of_head {ts : List Lexeme} (h : ¬∀ l ∈ ts.head?, integer? l.token = none) :
    ∃ k pos after, ts = ⟨.integer k, pos⟩ :: after := by
  rcases ts with _ | ⟨⟨t, pos⟩, after⟩
  · exact absurd (fun l hl => nomatch hl) h
  · cases t with
    | integer k => exact ⟨k, pos, after, rfl⟩
    | _ => exact absurd (by rintro l ⟨⟩; rfl) h

/-- A minus sign and a number behind it. -/
theorem promptOn_negated {pos : Position} :
    PromptOn arith (some (Punct.minus.at pos)) (n + 1)
      (do skip
          let (k, _) ← take integer? .integerAfterMinus
          negatedLabel arith k)
      (do skip
          let (k, _) ← take integer? .integerAfterMinus
          negatedLabel arith k) := by
  intro ts hnext hts
  rcases ts with _ | ⟨l, ts⟩
  · cases hnext
  cases hnext
  show Settled arith _ _ ((take integer? .integerAfterMinus >>= fun k => negatedLabel arith k.1) ts)
  have hoverflow : ∀ {k} (pos' : Position) (after : List Lexeme), arith.negate? k = none →
      (take integer? .integerAfterMinus >>= fun k => negatedLabel arith k.1)
        (⟨.integer k, pos'⟩ :: after) = .overflow :=
    fun _ after hk => negatedLabel_of_none hk after
  by_cases hnumber : ∀ l ∈ ts.head?, integer? l.token = none
  · rw [takeInteger_other hnumber]
    rcases ts with _ | ⟨l, ts⟩
    · exact .ranOut (by simp) (.inl rfl)
    · have hfront : NoEnd [Punct.minus.at pos] := by simp
      refine .raised rfl hfront (raisedAt_unexpected _ l ts) (fun after => .inl ?_) fun _ _ => ?_
      · have hhead : ∀ l' ∈ (l :: after).head?, integer? l'.token = none := hnumber
        exact takeInteger_other hhead fun k => negatedLabel arith k.1
      · exact ⟨List.cons_ne_nil _ _, fun k pos' after hk => .inl (hoverflow pos' after hk)⟩
  · obtain ⟨k, pos', after, rfl⟩ := exists_integer_of_head hnumber
    cases hk : arith.negate? k with
    | some negative =>
      have hused : NoEnd [Punct.minus.at pos, ⟨.integer k, pos'⟩] := by simp
      show Settled arith _ _ (negatedLabel arith k after)
      rw [negatedLabel_of_some hk]
      exact .ok rfl hused fun after _ => .inl (negatedLabel_of_some hk after)
    | none =>
      have hsplit : Punct.minus.at pos :: ⟨.integer k, pos'⟩ :: after =
          [] ++ Punct.minus.at pos :: ⟨.integer k, pos'⟩ :: after := rfl
      rw [hoverflow pos' after hk]
      exact .overflow hsplit noEnd_nil rfl rfl hk (.inl (hoverflow pos' after hk)) fun _ => .inl rfl

theorem prompt_caseLabel : Prompt arith n (caseLabel arith) (caseLabel arith) := by
  refine Prompt.mono (n := n + 1) (fun next => .peek ?_) (Nat.le_succ n)
  rcases next with _ | ⟨t, pos⟩
  · exact promptOn_reject .caseConstant nofun
  · cases t with
    | integer _ | char _ => exact .skip (by rintro ⟨⟩) (prompt_pure _)
    | punct p =>
      cases p with
      | minus => exact promptOn_negated
      | _ => exact promptOn_reject .caseConstant nofun
    | _ => exact promptOn_reject .caseConstant nofun

theorem prompt_groupTail (hstmt : Prompt arith n statement statement') (hadvances : statement.Advances)
    (hb : n ≤ b) (b' : Nat) (label : Option CaseLabel) (pos : Position) :
    Prompt arith n (groupTail statement b label pos) (groupTail statement' b' label pos) := by
  refine (prompt_punct .colonAfterLabel nofun).bind fun _ => ?_
  exact (prompt_manyWhile _ hstmt hadvances hb b').bind fun body => prompt_pure _

theorem prompt_groups (hstmt : Prompt arith n statement statement') (hadvances : statement.Advances)
    (hb : n ≤ b) (b' : Nat) : Prompt arith n (groups arith statement b)
      (groups arith statement' b') := by
  refine Prompt.rounds rfl (fun {k b b'} hk hkb ih => ?_) b' hb
  -- a group and the ones behind it; its label was taken before
  have hgroup : ∀ label pos, Prompt arith k
      (do let first ← groupTail statement (b + 1) label pos
          let rest ← groups arith statement b
          return first :: rest)
      (do let first ← groupTail statement' (b' + 1) label pos
          let rest ← groups arith statement' b'
          return first :: rest) := by
    intro label pos
    refine Prompt.bind (prompt_groupTail (hstmt.mono (Nat.le_of_lt hk)) hadvances
      (Nat.le_succ_of_le hkb) _ label pos) fun first => ?_
    exact ih.bind fun others => prompt_pure _
  intro next
  refine .here (.peek ?_)
  rcases next with _ | ⟨t, pos⟩
  · exact promptOn_reject .caseOrEnd nofun
  · cases t with
    | keyword word =>
      cases word with
      | caseWord =>
        exact .skip (by rintro ⟨⟩) (prompt_caseLabel.bind fun label => hgroup (some label) pos)
      | defaultWord => exact .skip (by rintro ⟨⟩) (hgroup none pos)
      | _ => exact promptOn_reject .caseOrEnd nofun
    | punct p =>
      cases p with
      | rightBrace => exact .skip (by rintro ⟨⟩) (prompt_pure _)
      | _ => exact promptOn_reject .caseOrEnd nofun
    | _ => exact promptOn_reject .caseOrEnd nofun

theorem prompt_switchTail (hstmt : Prompt arith n statement statement') (hadvances : statement.Advances)
    (hb : n ≤ b) (b' : Nat) (pos : Position) :
    Prompt arith n (switchTail arith statement b pos) (switchTail arith statement' b' pos) := by
  refine (prompt_condition hb b' _).bind fun scrutinee => ?_
  refine (prompt_punct .switchBody nofun).bind fun _ => ?_
  exact (prompt_groups hstmt hadvances hb b').bind fun cases => prompt_pure _

theorem prompt_returnTail (hb : n ≤ b) (b' : Nat) (pos : Position) :
    Prompt arith n (returnTail b pos) (returnTail b' pos) := by
  refine (prompt_exprUnless hb b' _).bind fun value => ?_
  exact (prompt_punct .semicolonAfterReturn nofun).bind fun _ => prompt_pure _

theorem prompt_breakTail (pos : Position) : Prompt arith n (breakTail pos) (breakTail pos) :=
  (prompt_punct .semicolonAfterBreak nofun).bind fun _ => prompt_pure _

theorem prompt_evalStatement (hb : n ≤ b) (b' : Nat) (pos : Position) :
    Prompt arith n (evalStatement b pos) (evalStatement b' pos) := by
  refine ((Expr.prompt_reader b b').mono hb).bind fun e => ?_
  exact (prompt_punct .semicolonAfterExpression nofun).bind fun _ => prompt_pure _

theorem reader_advances (b : Nat) : (reader arith b).Advances :=
  fun h => (reader_takes b h).1.shorter

theorem blockItem_advances (hstmt : Takes arith statement) (b : Nat) :
    (blockItem statement b).Advances := by
  intro ts s rest h
  rcases blockItem_reads hstmt h with ⟨d, pos, rfl, hd⟩ | hs
  · have := hd.shorter
    simp only [List.length_cons] at this
    omega
  · exact hs.shorter

theorem prompt_reader (b b' : Nat) : Prompt arith b (reader arith b) (reader arith b') := by
  refine Prompt.rounds rfl (fun {k b b'} _ hkb hstmt => ?_) b' (Nat.le_refl b)
  have hk : k ≤ b + 1 := Nat.le_succ_of_le hkb
  have heval : ∀ pos, Prompt arith (k + 1) (evalStatement (b + 1) pos) (evalStatement (b' + 1) pos) :=
    prompt_evalStatement (Nat.succ_le_succ hkb) _
  intro next
  refine .here (.peek ?_)
  rcases next with _ | ⟨t, pos⟩
  · exact heval _ _
  -- The first token chooses the kind of statement, and is refused if it is the name of a type.
  · cases t with
    | keyword word =>
      cases word with
      | typeWord type => exact promptOn_fail ⟨rfl, rfl⟩ nofun
      | ifWord => exact .skip (by rintro ⟨⟩) (prompt_branchTail hstmt hk _ pos)
      | whileWord => exact .skip (by rintro ⟨⟩) (prompt_whileTail hstmt hk _ pos)
      | forWord => exact .skip (by rintro ⟨⟩) (prompt_forTail hstmt hk _ pos)
      | switchWord =>
        exact .skip (by rintro ⟨⟩) (prompt_switchTail hstmt (reader_advances b) hk _ pos)
      | returnWord => exact .skip (by rintro ⟨⟩) (prompt_returnTail hk _ pos)
      | breakWord => exact .skip (by rintro ⟨⟩) (prompt_breakTail pos)
      | _ => exact heval _ _
    | punct p =>
      cases p with
      | leftBrace =>
        refine .skip (by rintro ⟨⟩) ?_
        exact Prompt.bind (prompt_blockTail (prompt_blockItem hstmt hk _)
          (blockItem_advances (reader_takes b) _) hk _) fun body => prompt_pure _
      | _ => exact heval _ _
    | _ => exact heval _ _

end Stmt

/-! ## Programs -/

theorem Param.prompt_reader : Prompt arith n Param.reader Param.reader := by
  refine prompt_typeName.bind fun type => ?_
  exact (prompt_identifier .parameterName nofun).bind fun name => prompt_pure _

theorem FunctionDef.prompt_tail (b b' : Nat) (returns : Ty) (name : String) (pos : Position) :
    Prompt arith b (FunctionDef.tail arith b returns name pos)
      (FunctionDef.tail arith b' returns name pos) := by
  refine (prompt_parenthesized Param.prompt_reader (Nat.le_refl b) b').bind fun params => ?_
  refine (prompt_punct .functionBody nofun).bind fun bodyPos => ?_
  have hitem : Prompt arith b (Stmt.itemReader arith b) (Stmt.itemReader arith b') :=
    Stmt.prompt_blockItem (Stmt.prompt_reader b b') (Nat.le_refl b) b'
  exact Prompt.bind (Stmt.prompt_blockTail hitem (Stmt.blockItem_advances (Stmt.reader_takes b) b)
    (Nat.le_refl b) b') fun body => prompt_pure _

theorem Item.prompt_reader (b b' : Nat) : Prompt arith b (Item.reader arith b) (Item.reader arith b') := by
  refine prompt_typeName.bind fun type => ?_
  refine (prompt_identifier .itemName nofun).bind fun name => ?_
  refine (prompt_accept (by decide)).bind fun paren => ?_
  cases paren with
  | some _ =>
    exact (FunctionDef.prompt_tail b b' type.1 name.1 type.2).bind fun f => prompt_pure _
  | none =>
    refine (VarDecl.prompt_tail (Nat.le_refl b) b' type.1 name.1 type.2).bind fun d => ?_
    exact (prompt_punct .semicolonAfterDeclaration nofun).bind fun _ => prompt_pure _

theorem Program.prompt_reader (arith : Arithmetic) (b b' : Nat) :
    Prompt arith b (Program.reader arith b) (Program.reader arith b') := by
  refine (prompt_expect (by decide) .programHeader nofun).bind fun pos => ?_
  refine (prompt_identifier .programName nofun).bind fun name => ?_
  refine (prompt_punct .semicolonAfterName nofun).bind fun _ => ?_
  exact Prompt.bind (prompt_manyWhile _ (Item.prompt_reader b b')
    (fun h => (Item.reader_reads h).shorter) (Nat.le_refl b) b') fun items => prompt_pure _

/-! ## Errors of whole programs -/

variable {tokens tokens' : List Lexeme} {e : SyntaxError} {l : Lexeme}

/-- All bounds above the number of tokens lead to the same answer. -/
theorem Program.reader_eq {b' : Nat} (hb : tokens.length < b) (hb' : tokens.length < b') :
    Program.reader arith b' tokens = Program.reader arith b tokens :=
  ((Program.prompt_reader arith b b').settled hb).confirms.resolve_right
    ((Program.prompt_reader arith b' b).ne_unfinished hb')

theorem parseIn_eq_error_iff (hb : tokens.length < b) :
    parseIn arith tokens = some (.error e) ↔ Program.reader arith b tokens = .error e := by
  have hunfinished := (Program.prompt_reader arith b b).ne_unfinished hb
  rw [parseIn, Reader.read?, Program.reader_eq hb (Nat.lt_succ_self _)]
  cases hread : Program.reader arith b tokens with
  | ok p rest => simp [Except.map]
  | error e' => simp [Except.map]
  | overflow => simp
  | unfinished => exact absurd hread hunfinished

theorem parseIn_eq_none_iff (hb : tokens.length < b) :
    parseIn arith tokens = none ↔ Program.reader arith b tokens = .overflow := by
  rw [parseIn, Reader.read?, Program.reader_eq hb (Nat.lt_succ_self _)]
  cases Program.reader arith b tokens <;> simp

/-- In wrapping arithmetic the parser always has an answer. -/
theorem parseIn_wrapping (tokens : List Lexeme) : parseIn .wrapping tokens = some (parse tokens) := by
  have hoverflow :=
    (Program.prompt_reader .wrapping (tokens.length + 1) 0).ne_overflow (Nat.lt_succ_self _)
  rw [parseIn, parse, Reader.read, Reader.read?]
  cases hread : Program.reader .wrapping (tokens.length + 1) tokens with
  | overflow => exact absurd hread hoverflow
  | _ => rfl

/-- Any bound above the number of tokens gives the answer of the parser. -/
theorem parse_eq_error_iff (hb : tokens.length < b) :
    parse tokens = .error e ↔ Program.reader .wrapping b tokens = .error e := by
  rw [← parseIn_eq_error_iff hb, parseIn_wrapping, Option.some.injEq]

/-- The first `k` tokens settle that parsing fails with `e`, whatever stands behind them. -/
def Settles (tokens : List Lexeme) (k : Nat) (e : SyntaxError) : Prop :=
  ∀ tokens', tokens'.take k = tokens.take k → parse tokens' = .error e

theorem Settles.mono {k k' : Nat} (h : Settles tokens k e) (hk : k ≤ k') : Settles tokens k' e := by
  intro tokens' htake
  have htake' := congrArg (List.take k) htake
  rw [List.take_take, List.take_take, Nat.min_eq_left hk] at htake'
  exact h tokens' htake'

/-- The tokens hold one at which `e` is raised, and parsing fails with `e` on all lists of less than
`b` tokens that begin like this. -/
def RaisedBelow (b : Nat) (tokens : List Lexeme) (e : SyntaxError) : Prop :=
  ∃ front l after, tokens = front ++ l :: after ∧ e.RaisedAt l ∧
    ∀ after', (front ++ l :: after').length < b → parse (front ++ l :: after') = .error e

/-- There is such a token unless a target is refused or the tokens run out. -/
theorem raisedBelow_of_parse (hb : tokens.length < b) (h : parse tokens = .error e)
    (htarget : ∀ pos, e ≠ .invalidTarget pos)
    (hend : ∀ expected, e = .unexpectedEnd expected .start → ¬NoEnd tokens) :
    RaisedBelow b tokens e := by
  have hsettled := (Program.prompt_reader .wrapping b b).settled hb
  rw [(parse_eq_error_iff hb).mp h] at hsettled
  cases hsettled with
  | @raised _ front after l split noEnd raisedAt again breaks =>
    refine ⟨front, l, after, split, raisedAt, fun after' hlength => ?_⟩
    rw [parse_eq_error_iff hlength]
    exact (again after').resolve_right ((Program.prompt_reader .wrapping b b).ne_unfinished hlength)
  | ranOut noEnd again => exact absurd noEnd (hend _ rfl)
  | badTarget mem equals again => exact absurd rfl (htarget _)

theorem SyntaxError.RaisedAt.ne_invalidTarget (h : e.RaisedAt l) (pos : Position) :
    e ≠ .invalidTarget pos := by
  rintro rfl
  exact h

/-- The token at which an error is raised and the tokens in front of it settle the error: parsing only
these tokens fails in the same way, and of this failure it is known for every bound where it is
raised. -/
theorem settles_of_raisedBelow (h : RaisedBelow (tokens.length + 1) tokens e) :
    ∃ front l after, tokens = front ++ l :: after ∧ e.RaisedAt l ∧
      Settles tokens (front.length + 1) e := by
  obtain ⟨front, l, after, rfl, hraised, hagain⟩ := h
  refine ⟨front, l, after, rfl, hraised, fun tokens' htake => ?_⟩
  -- what is known is about the bounds of one list of tokens, so the tokens up to `l` are parsed once
  -- more
  have hpre : parse (front ++ [l]) = .error e := hagain [] (by simp)
  have hend : ∀ expected, e = .unexpectedEnd expected .start → ¬NoEnd (front ++ [l]) := by
    rintro expected rfl hnoEnd
    exact hnoEnd l (by simp) hraised.2
  obtain ⟨front', l', after', hsplit, -, hagain'⟩ :=
    -- this bound is enough for the tokens of `tokens'`, too, whatever stands behind `l` there
    raisedBelow_of_parse (b := (front ++ [l]).length + tokens'.length + 1) (by omega) hpre
      hraised.ne_invalidTarget hend
  have htokens' : tokens' = front' ++ l' :: (after' ++ tokens'.drop (front.length + 1)) := by
    have htake : tokens'.take (front.length + 1) = front ++ [l] :=
      htake.trans (List.take_length_add_append 1)
    rw [← List.cons_append, ← List.append_assoc, ← hsplit, ← htake, List.take_append_drop]
  rw [htokens']
  refine hagain' _ ?_
  rw [← htokens']
  omega

/-- If the first tokens settle an error, it is raised at one of them. The end marker that is put behind
them stands in a place of its own, so the error cannot be about it. -/
theorem raised_of_settles {k : Nat} (hk : k ≤ tokens.length) (h : Settles tokens k e)
    (htarget : ∀ pos, e ≠ .invalidTarget pos) :
    ∃ front l after, tokens.take k = front ++ l :: after ∧ e.RaisedAt l ∧
      Settles tokens (front.length + 1) e := by
  -- an end marker with a line of its own, which no error about the tokens can name
  let stop : Lexeme := ⟨.endOfInput, ⟨e.pos.line + 1, e.pos.column⟩⟩
  have hlength : (tokens.take k).length = k := List.length_take_of_le hk
  have hparse : parse (tokens.take k ++ [stop]) = .error e :=
    h _ (by rw [List.take_append_of_le_length (by omega), List.take_take, Nat.min_self])
  obtain ⟨front, l, after, hsplit, hraised, hsettles⟩ := settles_of_raisedBelow
    (raisedBelow_of_parse (Nat.lt_succ_self _) hparse htarget fun _ _ hnoEnd => hnoEnd stop (by simp) rfl)
  have hne : l ≠ stop := by
    rintro rfl
    have hline := congrArg Position.line hraised.pos_eq
    exact absurd hline (Nat.ne_of_lt (Nat.lt_succ_self _))
  obtain ⟨after, htake⟩ : ∃ after, tokens.take k = front ++ l :: after := by
    -- the token named is not the marker at the end, so it is one of the first `k`
    rcases List.eq_nil_or_concat after with rfl | ⟨after, last, rfl⟩
    · exact absurd (List.append_singleton_inj.mp hsplit).2.symm hne
    · rw [List.concat_eq_append, ← List.cons_append, ← List.append_assoc] at hsplit
      exact ⟨after, (List.append_singleton_inj.mp hsplit).1⟩
  refine ⟨front, l, after, htake, hraised, fun tokens' htokens' => hsettles tokens' ?_⟩
  have hle : front.length + 1 ≤ k := by
    rw [← hlength, htake, List.length_append, List.length_cons]
    omega
  rw [htokens', List.take_append_of_le_length (by omega), List.take_take, Nat.min_eq_left hle]

/-- Without any token nothing is settled, as there are programs. -/
theorem not_settles_zero : ¬Settles tokens 0 e := by
  intro h
  have := h [Keyword.programWord.at .start, .name "p" .start, Punct.semicolon.at .start,
    ⟨.endOfInput, .start⟩] rfl
  cases this

/-- An error that some of the tokens settle is raised at the token that settles it. -/
theorem exists_settling {k : Nat} (hk : k ≤ tokens.length) (h : Settles tokens k e)
    (htarget : ∀ pos, e ≠ .invalidTarget pos) :
    ∃ i l, tokens[i]? = some l ∧ e.RaisedAt l ∧ Settles tokens (i + 1) e ∧ ¬Settles tokens i e := by
  induction k with
  | zero => exact absurd h not_settles_zero
  | succ k ih =>
    by_cases hbefore : Settles tokens k e
    · exact ih (Nat.le_of_succ_le hk) hbefore
    · obtain ⟨front, l, after, htake, hraised, hsettles⟩ := raised_of_settles hk h htarget
      have hlength := congrArg List.length htake
      rw [List.length_take_of_le hk, List.length_append, List.length_cons] at hlength
      -- If the error were raised further in front, the first `k` tokens would settle it.
      have hfront : ¬front.length + 1 ≤ k := fun hle => hbefore (hsettles.mono hle)
      obtain rfl : front.length = k := by omega
      refine ⟨front.length, l, ?_, hraised, hsettles, hbefore⟩
      rw [← List.getElem?_take_of_lt (Nat.lt_succ_self _), htake]
      simp

/-- The end marker is refused as such and every other token as a token. -/
theorem SyntaxError.RaisedAt.unexpectedEnd_iff (h : e.RaisedAt l) :
    (∃ expected, e = .unexpectedEnd expected l.pos) ↔ l.token = .endOfInput := by
  constructor
  · rintro ⟨expected, rfl⟩
    exact h.2
  · intro hl
    cases e with
    | unexpectedToken expected found pos => exact absurd hl h.2.2
    | unexpectedEnd expected pos => exact ⟨expected, by rw [h.1]⟩
    | declarationNotAllowed pos =>
      have htype := h.2
      rw [hl] at htype
      cases htype
    | invalidTarget pos => exact h.elim

/-- An error of a token list with an end marker names an equals sign of the list, or is raised at one
of its tokens. -/
theorem parse_error_cases (hend : ¬NoEnd tokens) (h : parse tokens = .error e) :
    (∃ l ∈ tokens, l.token = .punct .equals ∧ e = .invalidTarget l.pos) ∨
      ((∀ pos, e ≠ .invalidTarget pos) ∧ ∃ front l after, tokens = front ++ l :: after ∧ e.RaisedAt l ∧
        Settles tokens (front.length + 1) e) := by
  by_cases htarget : ∀ pos, e ≠ .invalidTarget pos
  · exact .inr ⟨htarget, settles_of_raisedBelow
      (raisedBelow_of_parse (Nat.lt_succ_self _) h htarget fun _ _ => hend)⟩
  · have hsettled := (Program.prompt_reader .wrapping (tokens.length + 1) 0).settled (Nat.lt_succ_self _)
    rw [(parse_eq_error_iff (Nat.lt_succ_self _)).mp h] at hsettled
    cases hsettled with
    | raised split noEnd raisedAt again breaks => exact absurd raisedAt.ne_invalidTarget htarget
    | ranOut noEnd again => exact absurd noEnd hend
    | @badTarget l mem equals again => exact .inl ⟨l, mem, equals, rfl⟩

/-- On tokens that hold an end marker, a syntax error carries the position of one of the tokens. Except
for a bad assignment target, the error is raised at the first token that settles it: every token list
that begins with the same tokens up to this one fails with the same error, while the tokens in front of
it leave this open. The error is about this token, and it is an unexpected end exactly if the token is
an end marker. -/
theorem parse_error_raised (hend : ∃ l ∈ tokens, l.token = .endOfInput)
    (h : parse tokens = .error e) :
    (∃ l ∈ tokens, l.pos = e.pos) ∧
      ((∃ l ∈ tokens, l.token = .punct .equals ∧ e = .invalidTarget l.pos) ∨
        ∃ i l, tokens[i]? = some l ∧ e.RaisedAt l ∧
          Settles tokens (i + 1) e ∧ ¬Settles tokens i e ∧
          ((∃ expected, e = .unexpectedEnd expected l.pos) ↔ l.token = .endOfInput)) := by
  have hend : ¬NoEnd tokens := by
    obtain ⟨l, hl, hend⟩ := hend
    exact fun hnoEnd => hnoEnd l hl hend
  rcases parse_error_cases hend h with ⟨l, hl, hequals, rfl⟩ |
    ⟨htarget, front, l, after, hsplit, hraised, hsettles⟩
  · exact ⟨⟨l, hl, rfl⟩, .inl ⟨l, hl, hequals, rfl⟩⟩
  · have hl : l ∈ tokens := by
      rw [hsplit]
      exact List.mem_append_right _ List.mem_cons_self
    have hlength : front.length + 1 ≤ tokens.length := by
      rw [hsplit, List.length_append, List.length_cons]
      omega
    obtain ⟨i, l', hi, hraised', hsettles', hopen⟩ := exists_settling hlength hsettles htarget
    exact ⟨⟨l, hl, hraised.pos_eq.symm⟩,
      .inr ⟨i, l', hi, hraised', hsettles', hopen, hraised'.unexpectedEnd_iff⟩⟩

/-- The tokens of `Program p; int x = ; 1 = 2;`, in which a value is missing. -/
def missingValue : List Lexeme :=
  [Keyword.programWord.at ⟨1, 1⟩, .name "p" ⟨1, 9⟩, Punct.semicolon.at ⟨1, 10⟩,
    (Keyword.typeWord .int).at ⟨1, 12⟩, .name "x" ⟨1, 16⟩, Punct.equals.at ⟨1, 18⟩,
    Punct.semicolon.at ⟨1, 20⟩, ⟨.integer 1, ⟨1, 22⟩⟩, Punct.equals.at ⟨1, 24⟩,
    ⟨.integer 2, ⟨1, 26⟩⟩, Punct.semicolon.at ⟨1, 27⟩, ⟨.endOfInput, ⟨1, 28⟩⟩]

theorem missingValue_raised :
    ∃ i l, missingValue[i]? = some l ∧ l.token = .punct .semicolon ∧ l.pos = ⟨1, 20⟩ ∧
      Settles missingValue (i + 1) (.unexpectedToken .expression (.punct .semicolon) ⟨1, 20⟩) ∧
      ¬Settles missingValue i (.unexpectedToken .expression (.punct .semicolon) ⟨1, 20⟩) := by
  have hparse : parse missingValue =
      .error (.unexpectedToken .expression (.punct .semicolon) ⟨1, 20⟩) := rfl
  obtain ⟨-, ⟨l, -, -, htarget⟩ | ⟨i, l, hi, hraised, hsettles, hopen, -⟩⟩ :=
    parse_error_raised ⟨⟨.endOfInput, ⟨1, 28⟩⟩, by decide, rfl⟩ hparse
  · cases htarget
  · exact ⟨i, l, hi, hraised.1.symm, hraised.2.1.symm, hsettles, hopen⟩

end Primer
