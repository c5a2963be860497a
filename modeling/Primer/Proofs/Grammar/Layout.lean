import Primer.Proofs.Grammar.Reader
import Primer.Proofs.Tree.Erase

/-!
# Reading does not look at positions

Readers look at tokens and copy their positions into trees and errors. So on tokens without positions
a reader comes to the same answer, without positions.

- `Reader.Erases` is this relation between a reader and its counterpart; there is one lemma for each
  way in which readers are put together.
- `parse_map_erase` is the statement for programs.
-/

namespace Primer

variable {α β : Type}

/-- An answer without positions, `f` being what removes them from a result. -/
def Reading.erase (f : α → α) : Reading α → Reading α
  | .ok a rest => .ok (f a) (rest.map Lexeme.erase)
  | .error e => .error e.erase
  | .overflow => .overflow
  | .unfinished => .unfinished

namespace Reader

/-- On tokens without positions, `r'` comes to the answer of `r` without positions. -/
def Erases (f : α → α) (r r' : Reader α) : Prop :=
  ∀ tokens, r' (tokens.map Lexeme.erase) = (r tokens).erase f

/-! ## Composition -/

theorem Erases.bind {f : α → α} {g : β → β} {x x' : Reader α} {k k' : α → Reader β}
    (hx : Erases f x x') (hk : ∀ a, Erases g (k a) (k' (f a))) : Erases g (x >>= k) (x' >>= k') := by
  intro tokens
  rw [bind_apply, bind_apply, hx tokens]
  cases x tokens with
  | ok a rest => exact hk a rest
  | error e => rfl
  | overflow => rfl
  | unfinished => rfl

theorem erases_pure {f : α → α} {a a' : α} (h : f a = a') :
    Erases f (pure a : Reader α) (pure a') := by
  intro tokens
  subst h
  rfl

theorem erases_fail {f : α → α} {e e' : SyntaxError} (h : e.erase = e') :
    Erases f (fail e) (fail e') := by
  intro tokens
  subst h
  rfl

theorem erases_overflow {f : α → α} : Erases f overflow overflow := fun _ => rfl

theorem erases_unfinished {f : α → α} : Erases f unfinished unfinished := fun _ => rfl

/-! ## Single tokens -/

/-- Something found at a position, without the position. -/
def eraseFound (found : α × Position) : α × Position :=
  (found.1, .start)

theorem erases_reject {f : α → α} (expected : Expected) :
    Erases f (reject expected) (reject expected) := by
  intro tokens
  cases tokens with
  | nil => rfl
  | cons l rest =>
    have herror : unexpected expected (l.erase :: rest.map Lexeme.erase) =
        (unexpected expected (l :: rest)).erase := by
      by_cases hend : l.token = .endOfInput
      · simp [unexpected, Lexeme.erase, SyntaxError.erase, hend]
      · simp [unexpected, Lexeme.erase, SyntaxError.erase, hend]
    exact congrArg Reading.error herror

theorem erases_peek : Erases id peek peek := by
  intro tokens
  cases tokens with
  | nil => rfl
  | cons l rest => rfl

theorem erases_here : Erases (fun _ => .start) here here := by
  intro tokens
  cases tokens with
  | nil => rfl
  | cons l rest => rfl

theorem erases_skip : Erases id skip skip := by
  intro tokens
  cases tokens with
  | nil => rfl
  | cons l rest => rfl

theorem erases_take? (choose : Token → Option α) :
    Erases (Option.map eraseFound) (take? choose) (take? choose) := by
  intro tokens
  cases tokens with
  | nil => rfl
  | cons l rest =>
    cases h : choose l.token with
    | none => simp [take?, Lexeme.erase, h, Reading.erase]
    | some a => simp [take?, Lexeme.erase, h, Reading.erase, eraseFound]

theorem erases_take (choose : Token → Option α) (expected : Expected) :
    Erases eraseFound (take choose expected) (take choose expected) := by
  refine (erases_take? choose).bind fun found => ?_
  cases found with
  | none => exact erases_reject expected
  | some found => exact erases_pure rfl

theorem erases_accept (t : Token) :
    Erases (Option.map fun _ => .start) (accept t) (accept t) := by
  refine (erases_take? _).bind fun found => ?_
  cases found with
  | none => exact erases_pure rfl
  | some found => exact erases_pure rfl

theorem erases_expect (t : Token) (expected : Expected) :
    Erases (fun _ => .start) (expect t expected) (expect t expected) := by
  refine (erases_accept t).bind fun found => ?_
  cases found with
  | none => exact erases_reject expected
  | some pos => exact erases_pure rfl

theorem erases_punct (p : Punct) (expected : Expected) :
    Erases (fun _ => .start) (punct p expected) (punct p expected) :=
  erases_expect _ expected

theorem erases_identifier (expected : Expected) :
    Erases eraseFound (identifier expected) (identifier expected) :=
  erases_take _ expected

theorem erases_typeName : Erases eraseFound typeName typeName :=
  erases_take _ _

theorem erases_atType : Erases id atType atType := by
  refine erases_peek.bind fun next => ?_
  cases next with
  | none => exact erases_pure rfl
  | some t => exact erases_pure rfl

/-! ## Repetition -/

variable {f : α → α} {item item' : Reader α}

theorem erases_commaList (hitem : Erases f item item') :
    ∀ bound, Erases (List.map f) (commaList item bound) (commaList item' bound)
  | 0 => erases_unfinished
  | bound + 1 => by
    refine hitem.bind fun first => ?_
    refine (erases_accept _).bind fun comma => ?_
    cases comma with
    | none => exact (erases_punct _ _).bind fun _ => erases_pure rfl
    | some pos => exact (erases_commaList hitem bound).bind fun others => erases_pure rfl

theorem erases_parenthesized (hitem : Erases f item item') (bound : Nat) :
    Erases (List.map f) (parenthesized item bound) (parenthesized item' bound) := by
  refine (erases_accept _).bind fun paren => ?_
  cases paren with
  | none => exact erases_commaList hitem bound
  | some pos => exact erases_pure rfl

theorem erases_manyWhile (more : Token → Bool) (hitem : Erases f item item') :
    ∀ bound, Erases (List.map f) (manyWhile more item bound) (manyWhile more item' bound)
  | 0 => erases_unfinished
  | bound + 1 => by
    refine erases_peek.bind fun next => ?_
    cases next with
    | none => exact erases_pure rfl
    | some t =>
      show Erases _ (if more t then _ else _) (if more t then _ else _)
      cases more t with
      | true =>
        refine hitem.bind fun first => ?_
        exact (erases_manyWhile more hitem bound).bind fun others => erases_pure rfl
      | false => exact erases_pure rfl

end Reader

open Reader

/-! ## Expressions -/

namespace Expr

variable {expression expression' operand operand' : Reader Expr}

theorem erases_chain (level : Nat) (hoperand : Erases erase operand operand') :
    ∀ bound left, Erases erase (chain level operand bound left) (chain level operand' bound left.erase)
  | 0, _ => erases_unfinished
  | bound + 1, left => by
    refine (erases_take? _).bind fun found => ?_
    cases found with
    | none => exact erases_pure rfl
    | some found =>
      refine hoperand.bind fun right => ?_
      exact erases_chain level hoperand bound (.binary found.1 left right found.2)

theorem erases_ladder (hoperand : Erases erase operand operand') (bound : Nat) :
    ∀ levels, Erases erase (ladder operand bound levels) (ladder operand' bound levels)
  | [] => hoperand
  | level :: tighter => by
    have htighter := erases_ladder hoperand bound tighter
    exact htighter.bind fun left => erases_chain level htighter bound left

theorem erases_prefixed (hoperand : Erases erase operand operand') :
    ∀ bound, Erases erase (prefixed operand bound) (prefixed operand' bound)
  | 0 => erases_unfinished
  | bound + 1 => by
    refine (erases_take? _).bind fun found => ?_
    cases found with
    | none => exact hoperand
    | some found => exact (erases_prefixed hoperand bound).bind fun e => erases_pure rfl

theorem erases_nameTail (hexpr : Erases erase expression expression') (bound : Nat) (name : String)
    (pos : Position) :
    Erases erase (nameTail expression bound name pos) (nameTail expression' bound name .start) := by
  refine (erases_accept _).bind fun paren => ?_
  cases paren with
  | none => exact erases_pure rfl
  | some _ =>
    refine (erases_parenthesized hexpr bound).bind fun args => erases_pure ?_
    rw [erase, eraseAll_eq_map]

theorem erases_primary (hexpr : Erases erase expression expression') (bound : Nat) :
    Erases erase (primary expression bound) (primary expression' bound) := by
  refine (erases_take? _).bind fun found => ?_
  cases found with
  | some found => exact erases_pure rfl
  | none =>
    refine erases_peek.bind fun next => ?_
    -- which way is taken depends on the token, and not on where it stands
    rcases next with _ | t
    · exact erases_reject _
    · cases t with
      | identifier name =>
        refine erases_here.bind fun pos => ?_
        exact erases_skip.bind fun _ => erases_nameTail hexpr bound name pos
      | punct p =>
        cases p with
        | leftParen =>
          refine erases_skip.bind fun _ => ?_
          refine hexpr.bind fun inner => ?_
          exact (erases_punct _ _).bind fun _ => erases_pure rfl
        | _ => exact erases_reject _
      | _ => exact erases_reject _

theorem erases_assignTo (target value : Expr) (pos : Position) :
    Erases erase (assignTo target value pos) (assignTo target.erase value.erase .start) := by
  cases target with
  | var name _ => exact erases_pure rfl
  | _ => exact erases_fail rfl

theorem erases_reader : ∀ bound, Erases erase (reader bound) (reader bound)
  | 0 => erases_unfinished
  | bound + 1 => by
    have hexpr := erases_reader bound
    refine Erases.bind (erases_ladder (erases_prefixed (erases_primary hexpr _) _) _ _) fun target => ?_
    refine (erases_accept _).bind fun found => ?_
    cases found with
    | none => exact erases_pure rfl
    | some pos => exact hexpr.bind fun value => erases_assignTo target value pos

end Expr

/-! ## Statements -/

theorem VarDecl.erases_tail (bound : Nat) (type : Ty) (name : String) (pos : Position) :
    Erases VarDecl.erase (VarDecl.tail bound type name pos) (VarDecl.tail bound type name .start) := by
  refine (erases_accept _).bind fun equals => ?_
  cases equals with
  | none => exact erases_pure rfl
  | some _ => exact (Expr.erases_reader bound).bind fun e => erases_pure rfl

theorem VarDecl.erases_reader (bound : Nat) :
    Erases VarDecl.erase (VarDecl.reader bound) (VarDecl.reader bound) := by
  refine erases_typeName.bind fun type => ?_
  exact (erases_identifier _).bind fun name => VarDecl.erases_tail bound type.1 name.1 type.2

namespace Stmt

variable {arith : Arithmetic} {statement statement' : Reader Stmt}

theorem erases_exprUnless (bound : Nat) (p : Punct) :
    Erases (Option.map Expr.erase) (exprUnless bound p) (exprUnless bound p) := by
  refine erases_peek.bind fun next => ?_
  by_cases hp : next = some (.punct p)
  · simp only [id, if_pos hp]
    exact erases_pure rfl
  · simp only [id, if_neg hp]
    exact (Expr.erases_reader bound).bind fun e => erases_pure rfl

theorem erases_condition (bound : Nat) (keyword : Keyword) :
    Erases Expr.erase (condition bound keyword) (condition bound keyword) := by
  refine (erases_punct _ _).bind fun _ => ?_
  refine (Expr.erases_reader bound).bind fun e => ?_
  exact (erases_punct _ _).bind fun _ => erases_pure rfl

theorem erases_blockTail {item item' : Reader Stmt} (hitem : Erases erase item item') :
    ∀ bound, Erases (List.map erase) (blockTail item bound) (blockTail item' bound)
  | 0 => erases_unfinished
  | bound + 1 => by
    have hmore : Erases (List.map erase)
        (do let first ← item
            let rest ← blockTail item bound
            return first :: rest)
        (do let first ← item'
            let rest ← blockTail item' bound
            return first :: rest) := by
      refine hitem.bind fun first => ?_
      exact (erases_blockTail hitem bound).bind fun others => erases_pure rfl
    refine erases_peek.bind fun next => ?_
    rcases next with _ | t
    · exact erases_reject _
    · cases t with
      | punct p =>
        cases p with
        | rightBrace => exact erases_skip.bind fun _ => erases_pure rfl
        | _ => exact hmore
      | endOfInput => exact erases_reject _
      | _ => exact hmore

theorem erases_blockItem (hstmt : Erases erase statement statement') (bound : Nat) :
    Erases erase (blockItem statement bound) (blockItem statement' bound) := by
  refine erases_atType.bind fun isType => ?_
  cases isType with
  | false => exact hstmt
  | true =>
    refine (VarDecl.erases_reader bound).bind fun d => ?_
    exact (erases_punct _ _).bind fun _ => erases_pure (by rw [erase])

theorem erases_branchTail (hstmt : Erases erase statement statement') (bound : Nat) (pos : Position) :
    Erases erase (branchTail statement bound pos) (branchTail statement' bound .start) := by
  refine (erases_condition bound _).bind fun cond => ?_
  refine hstmt.bind fun onTrue => ?_
  refine (erases_accept _).bind fun elseWord => ?_
  cases elseWord with
  | none => exact erases_pure (by rw [erase])
  | some _ => exact hstmt.bind fun onFalse => erases_pure (by rw [erase])

theorem erases_whileTail (hstmt : Erases erase statement statement') (bound : Nat) (pos : Position) :
    Erases erase (whileTail statement bound pos) (whileTail statement' bound .start) := by
  refine (erases_condition bound _).bind fun cond => ?_
  exact hstmt.bind fun body => erases_pure (by rw [erase])

theorem erases_forInit (bound : Nat) :
    Erases (Option.map ForInit.erase) (forInit bound) (forInit bound) := by
  refine erases_atType.bind fun isType => ?_
  cases isType with
  | true => exact (VarDecl.erases_reader bound).bind fun d => erases_pure rfl
  | false =>
    refine (erases_exprUnless bound _).bind fun e => erases_pure ?_
    cases e <;> rfl

theorem erases_forTail (hstmt : Erases erase statement statement') (bound : Nat) (pos : Position) :
    Erases erase (forTail statement bound pos) (forTail statement' bound .start) := by
  refine (erases_punct _ _).bind fun _ => ?_
  refine (erases_forInit bound).bind fun init => ?_
  refine (erases_punct _ _).bind fun _ => ?_
  refine (erases_exprUnless bound _).bind fun cond => ?_
  refine (erases_punct _ _).bind fun _ => ?_
  refine (erases_exprUnless bound _).bind fun step => ?_
  refine (erases_punct _ _).bind fun _ => ?_
  exact hstmt.bind fun body => erases_pure (by rw [erase])

theorem erases_negatedLabel (n : Int64) : Erases id (negatedLabel arith n) (negatedLabel arith n) := by
  rw [negatedLabel]
  cases arith.negate? n with
  | some negative => exact erases_pure rfl
  | none => exact erases_overflow

theorem erases_caseLabel : Erases id (caseLabel arith) (caseLabel arith) := by
  refine erases_peek.bind fun next => ?_
  rcases next with _ | t
  · exact erases_reject _
  · cases t with
    | integer n | char c => exact erases_skip.bind fun _ => erases_pure rfl
    | punct p =>
      cases p with
      | minus =>
        refine erases_skip.bind fun _ => ?_
        exact (erases_take _ _).bind fun n => erases_negatedLabel n.1
      | _ => exact erases_reject _
    | _ => exact erases_reject _

theorem erases_groupTail (hstmt : Erases erase statement statement') (bound : Nat)
    (label : Option CaseLabel) (pos : Position) :
    Erases CaseGroup.erase (groupTail statement bound label pos)
      (groupTail statement' bound label .start) := by
  refine (erases_punct _ _).bind fun _ => ?_
  refine (erases_manyWhile _ hstmt bound).bind fun body => erases_pure ?_
  rw [CaseGroup.erase, eraseAll_eq_map]

theorem erases_groups (hstmt : Erases erase statement statement') :
    ∀ bound, Erases (List.map CaseGroup.erase) (groups arith statement bound)
      (groups arith statement' bound)
  | 0 => erases_unfinished
  | bound + 1 => by
    refine erases_here.bind fun pos => ?_
    refine erases_peek.bind fun next => ?_
    rcases next with _ | t
    · exact erases_reject _
    · cases t with
      | keyword k =>
        cases k with
        | caseWord =>
          refine erases_skip.bind fun _ => ?_
          refine erases_caseLabel.bind fun label => ?_
          refine (erases_groupTail hstmt _ _ pos).bind fun first => ?_
          exact (erases_groups hstmt bound).bind fun others => erases_pure rfl
        | defaultWord =>
          refine erases_skip.bind fun _ => ?_
          refine (erases_groupTail hstmt _ _ pos).bind fun first => ?_
          exact (erases_groups hstmt bound).bind fun others => erases_pure rfl
        | _ => exact erases_reject _
      | punct p =>
        cases p with
        | rightBrace => exact erases_skip.bind fun _ => erases_pure rfl
        | _ => exact erases_reject _
      | _ => exact erases_reject _

theorem erases_switchTail (hstmt : Erases erase statement statement') (bound : Nat) (pos : Position) :
    Erases erase (switchTail arith statement bound pos) (switchTail arith statement' bound .start) := by
  refine (erases_condition bound _).bind fun scrutinee => ?_
  refine (erases_punct _ _).bind fun _ => ?_
  refine (erases_groups hstmt bound).bind fun cases => erases_pure ?_
  rw [erase, CaseGroup.eraseAll_eq_map]

theorem erases_returnTail (bound : Nat) (pos : Position) :
    Erases erase (returnTail bound pos) (returnTail bound .start) := by
  refine (erases_exprUnless bound _).bind fun value => ?_
  exact (erases_punct _ _).bind fun _ => erases_pure (by rw [erase])

theorem erases_breakTail (pos : Position) : Erases erase (breakTail pos) (breakTail .start) :=
  (erases_punct _ _).bind fun _ => erases_pure (by rw [erase])

theorem erases_evalStatement (bound : Nat) (pos : Position) :
    Erases erase (evalStatement bound pos) (evalStatement bound .start) := by
  refine (Expr.erases_reader bound).bind fun e => ?_
  exact (erases_punct _ _).bind fun _ => erases_pure (by rw [erase])

theorem erases_reader : ∀ bound, Erases erase (reader arith bound) (reader arith bound)
  | 0 => erases_unfinished
  | bound + 1 => by
    have hstmt := erases_reader bound
    refine erases_here.bind fun pos => ?_
    refine erases_peek.bind fun next => ?_
    rcases next with _ | t
    · exact erases_evalStatement _ pos
    -- The first token chooses the kind of statement.
    · cases t with
      | keyword k =>
        cases k with
        | typeWord type => exact erases_fail rfl
        | ifWord => exact erases_skip.bind fun _ => erases_branchTail hstmt _ pos
        | whileWord => exact erases_skip.bind fun _ => erases_whileTail hstmt _ pos
        | forWord => exact erases_skip.bind fun _ => erases_forTail hstmt _ pos
        | switchWord => exact erases_skip.bind fun _ => erases_switchTail hstmt _ pos
        | returnWord => exact erases_skip.bind fun _ => erases_returnTail _ pos
        | breakWord => exact erases_skip.bind fun _ => erases_breakTail pos
        | _ => exact erases_evalStatement _ pos
      | punct p =>
        cases p with
        | leftBrace =>
          refine erases_skip.bind fun _ => ?_
          refine (erases_blockTail (erases_blockItem hstmt _) _).bind fun body => erases_pure ?_
          rw [erase, eraseAll_eq_map]
        | _ => exact erases_evalStatement _ pos
      | _ => exact erases_evalStatement _ pos

end Stmt

/-! ## Programs -/

variable {arith : Arithmetic}

theorem Param.erases_reader : Erases Param.erase Param.reader Param.reader := by
  refine erases_typeName.bind fun type => ?_
  exact (erases_identifier _).bind fun name => erases_pure rfl

theorem FunctionDef.erases_tail (bound : Nat) (returns : Ty) (name : String) (pos : Position) :
    Erases FunctionDef.erase (FunctionDef.tail arith bound returns name pos)
      (FunctionDef.tail arith bound returns name .start) := by
  refine (erases_parenthesized Param.erases_reader bound).bind fun params => ?_
  refine (erases_punct _ _).bind fun bodyPos => ?_
  refine Erases.bind (Stmt.erases_blockTail (Stmt.erases_blockItem (Stmt.erases_reader bound) _) _)
    fun body => erases_pure ?_
  simp only [FunctionDef.erase, Stmt.eraseAll_eq_map]

theorem Item.erases_reader (bound : Nat) :
    Erases Item.erase (Item.reader arith bound) (Item.reader arith bound) := by
  refine erases_typeName.bind fun type => ?_
  refine (erases_identifier _).bind fun name => ?_
  refine (erases_accept _).bind fun paren => ?_
  cases paren with
  | some _ =>
    exact (FunctionDef.erases_tail bound type.1 name.1 type.2).bind fun f => erases_pure rfl
  | none =>
    refine (VarDecl.erases_tail bound type.1 name.1 type.2).bind fun d => ?_
    exact (erases_punct _ _).bind fun _ => erases_pure rfl

theorem Program.erases_reader (bound : Nat) :
    Erases Program.erase (Program.reader arith bound) (Program.reader arith bound) := by
  refine (erases_expect _ _).bind fun pos => ?_
  refine (erases_identifier _).bind fun name => ?_
  refine (erases_punct _ _).bind fun _ => ?_
  exact (erases_manyWhile _ (Item.erases_reader bound) bound).bind fun items => erases_pure rfl

/-- Parsing tokens without positions gives the same tree or the same error, without positions. -/
theorem parse_map_erase (tokens : List Lexeme) :
    parse (tokens.map Lexeme.erase) =
      ((parse tokens).map Program.erase).mapError SyntaxError.erase := by
  unfold parse Reader.read Reader.read?
  rw [List.length_map, Program.erases_reader]
  cases Program.reader .wrapping (tokens.length + 1) tokens with
  | ok p rest => rfl
  | error e => rfl
  | overflow => rfl
  | unfinished => rfl

end Primer
