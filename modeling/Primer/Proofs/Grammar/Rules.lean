import Primer.Proofs.Tree.Shape
import Primer.Tree.Statement

/-!
# The grammar

The grammar of the language as a system of inference rules. `Expr.Reads level tokens e rest` says that
the front of `tokens` spells `e` as an expression of the given level, and that `rest` comes after it;
the other relations are read in the same way. No rule looks at what comes after the piece it is about.

- Expressions have nine levels: assignment (1), the infix operators (2 to 7), prefix operators (8) and
  primary expressions (9). `BinaryOp.Spelt` says which infix operators are of which level. An expression
  of one level is one of every looser level.
- A branch in front of `else` does not end with an `if` that could take the `else` for itself
  (`Stmt.opensIf`), so every `else` belongs to the nearest `if`.
- Declarations are items of blocks, clauses of `for` headers or globals.
- The number of a case label may be negated. The least number has no negative, so what it is then read
  as depends on the arithmetic.

Every node carries the position of the token that its documentation names.
-/

namespace Primer

/-- A punctuator as a lexeme. -/
abbrev Punct.at (p : Punct) (pos : Position) : Lexeme := ⟨.punct p, pos⟩

/-- A reserved word as a lexeme. -/
abbrev Keyword.at (k : Keyword) (pos : Position) : Lexeme := ⟨.keyword k, pos⟩

/-- A name as a lexeme. -/
abbrev Lexeme.name (name : String) (pos : Position) : Lexeme := ⟨.identifier name, pos⟩

/-! ## Constants and operators -/

/-- The token of a constant. -/
inductive Literal.Spelt : Token → Literal → Prop where
  | int {n : Int64} : Literal.Spelt (.integer n) (.int n)
  | char {c : UInt8} : Literal.Spelt (.char c) (.char c)
  | string {s : String} : Literal.Spelt (.string s) (.string s)

/-- The token of a prefix operator. -/
inductive UnaryOp.Spelt : Token → UnaryOp → Prop where
  | negate : UnaryOp.Spelt (.punct .minus) .negate
  | not : UnaryOp.Spelt (.punct .bang) .not

/-- The token of an infix operator of the given level. -/
inductive BinaryOp.Spelt : (level : Nat) → Token → BinaryOp → Prop where
  | or : BinaryOp.Spelt 2 (.punct .orOr) .or
  | and : BinaryOp.Spelt 3 (.punct .andAnd) .and
  | equal : BinaryOp.Spelt 4 (.punct .equalEqual) .equal
  | notEqual : BinaryOp.Spelt 4 (.punct .bangEqual) .notEqual
  | less : BinaryOp.Spelt 5 (.punct .less) .less
  | greater : BinaryOp.Spelt 5 (.punct .greater) .greater
  | lessEqual : BinaryOp.Spelt 5 (.punct .lessEqual) .lessEqual
  | greaterEqual : BinaryOp.Spelt 5 (.punct .greaterEqual) .greaterEqual
  | add : BinaryOp.Spelt 6 (.punct .plus) .add
  | sub : BinaryOp.Spelt 6 (.punct .minus) .sub
  | mul : BinaryOp.Spelt 7 (.punct .star) .mul
  | div : BinaryOp.Spelt 7 (.punct .slash) .div
  | mod : BinaryOp.Spelt 7 (.punct .percent) .mod

namespace BinaryOp.Spelt

variable {level level' : Nat} {t : Token} {op op' : BinaryOp}

theorem bounds (h : BinaryOp.Spelt level t op) : 2 ≤ level ∧ level ≤ 7 := by
  cases h <;> decide

/-- A token is an infix operator of one level only. -/
theorem unique (h : BinaryOp.Spelt level t op) (h' : BinaryOp.Spelt level' t op') :
    level' = level ∧ op' = op := by
  cases h <;> cases h' <;> exact ⟨rfl, rfl⟩

/-- The levels are those by which trees are printed. -/
theorem precedence (h : BinaryOp.Spelt level t op) : op.precedence = level := by
  cases h <;> rfl

end BinaryOp.Spelt

/-! The readers have tables of these tokens. -/

theorem Token.literal?_eq_some_iff {t : Token} {value : Literal} :
    t.literal? = some value ↔ Literal.Spelt t value := by
  constructor
  · intro h
    unfold Token.literal? at h
    split at h <;> cases h <;> constructor
  · rintro ⟨⟩ <;> rfl

theorem Token.unaryOp?_eq_some_iff {t : Token} {op : UnaryOp} :
    t.unaryOp? = some op ↔ UnaryOp.Spelt t op := by
  constructor
  · intro h
    unfold Token.unaryOp? at h
    split at h <;> cases h <;> constructor
  · rintro ⟨⟩ <;> rfl

theorem Expr.operatorAt?_eq_some_iff {level : Nat} {t : Token} {op : BinaryOp} :
    operatorAt? level t = some op ↔ BinaryOp.Spelt level t op := by
  constructor
  · intro h
    obtain ⟨hop, hlevel⟩ := Option.filter_eq_some_iff.mp h
    have hlevel : op ∈ operatorsAt level := by simpa using hlevel
    -- the token settles the operator, and of the levels only one has it
    unfold Token.binaryOp? at hop
    split at hop <;> cases hop <;>
    · unfold operatorsAt at hlevel
      split at hlevel <;> first | constructor | simp at hlevel
  · rintro ⟨⟩ <;> rfl

/-! ## Expressions -/

mutual

/-- Expressions of a level. -/
inductive Expr.Reads : (level : Nat) → List Lexeme → Expr → List Lexeme → Prop where
  | literal {t : Token} {value : Literal} {pos : Position} {rest : List Lexeme}
    (spelt : Literal.Spelt t value) : Expr.Reads 9 (⟨t, pos⟩ :: rest) (.literal value pos) rest
  | var {name : String} {pos : Position} {rest : List Lexeme} :
    Expr.Reads 9 (.name name pos :: rest) (.var name pos) rest
  | call {name : String} {args : List Expr} {pos pos' : Position} {ts rest : List Lexeme}
    (arguments : Expr.ArgsRead ts args rest) :
    Expr.Reads 9 (.name name pos :: Punct.leftParen.at pos' :: ts) (.call name args pos) rest
  | paren {e : Expr} {pos pos' : Position} {ts rest : List Lexeme}
    (inner : Expr.Reads 1 ts e (Punct.rightParen.at pos' :: rest)) :
    Expr.Reads 9 (Punct.leftParen.at pos :: ts) e rest
  | unary {t : Token} {op : UnaryOp} {e : Expr} {pos : Position} {ts rest : List Lexeme}
    (spelt : UnaryOp.Spelt t op) (operand : Expr.Reads 8 ts e rest) :
    Expr.Reads 8 (⟨t, pos⟩ :: ts) (.unary op e pos) rest
  /-- Infix operators of one level associate to the left. -/
  | binary {level : Nat} {t : Token} {op : BinaryOp} {left right : Expr} {pos : Position}
    {ts ts' rest : List Lexeme} (leftReads : Expr.Reads level ts left (⟨t, pos⟩ :: ts'))
    (spelt : BinaryOp.Spelt level t op)
    (rightReads : Expr.Reads (level + 1) ts' right rest) :
    Expr.Reads level ts (.binary op left right pos) rest
  /-- The target is a variable, possibly in parentheses. -/
  | assign {name : String} {value : Expr} {pos pos' : Position} {ts ts' rest : List Lexeme}
    (target : Expr.Reads 2 ts (.var name pos') (Punct.equals.at pos :: ts'))
    (valueReads : Expr.Reads 1 ts' value rest) :
    Expr.Reads 1 ts (.assign name value pos) rest
  | tighter {level : Nat} {e : Expr} {ts rest : List Lexeme} (reads : Expr.Reads (level + 1) ts e rest) :
    Expr.Reads level ts e rest

/-- Arguments up to the closing parenthesis. -/
inductive Expr.ArgsRead : List Lexeme → List Expr → List Lexeme → Prop where
  | none {pos : Position} {rest : List Lexeme} :
    Expr.ArgsRead (Punct.rightParen.at pos :: rest) [] rest
  | some {es : List Expr} {ts rest : List Lexeme} (reads : Expr.ListReads ts es rest) :
    Expr.ArgsRead ts es rest

/-- Expressions separated by commas, up to the closing parenthesis. -/
inductive Expr.ListReads : List Lexeme → List Expr → List Lexeme → Prop where
  | last {e : Expr} {pos : Position} {ts rest : List Lexeme}
    (reads : Expr.Reads 1 ts e (Punct.rightParen.at pos :: rest)) : Expr.ListReads ts [e] rest
  | more {e : Expr} {es : List Expr} {pos : Position} {ts ts' rest : List Lexeme}
    (reads : Expr.Reads 1 ts e (Punct.comma.at pos :: ts')) (others : Expr.ListReads ts' es rest) :
    Expr.ListReads ts (e :: es) rest

end

/-- An expression is spelt by at least one token. -/
theorem Expr.Reads.ne_nil {level : Nat} {e : Expr} {ts rest : List Lexeme} :
    Expr.Reads level ts e rest → ts ≠ []
  | .literal _ | .var | .call _ | .paren _ | .unary _ _ => List.cons_ne_nil _ _
  | .binary left _ _ => left.ne_nil
  | .assign target _ => target.ne_nil
  | .tighter reads => reads.ne_nil

/-- An expression that may be left out. -/
inductive Expr.OptionReads : List Lexeme → Option Expr → List Lexeme → Prop where
  | none {rest : List Lexeme} : Expr.OptionReads rest none rest
  | some {e : Expr} {ts rest : List Lexeme} (reads : Expr.Reads 1 ts e rest) :
    Expr.OptionReads ts (some e) rest

/-! ## Declarations and labels -/

/-- An initial value after the name of a variable, if there is one. -/
inductive VarDecl.InitReads : List Lexeme → Option Expr → List Lexeme → Prop where
  | none {rest : List Lexeme} : VarDecl.InitReads rest none rest
  | some {e : Expr} {pos : Position} {ts rest : List Lexeme} (reads : Expr.Reads 1 ts e rest) :
    VarDecl.InitReads (Punct.equals.at pos :: ts) (some e) rest

/-- A declaration without its semicolon. -/
inductive VarDecl.Reads : List Lexeme → VarDecl → List Lexeme → Prop where
  | mk {type : Ty} {name : String} {init : Option Expr} {pos pos' : Position} {ts rest : List Lexeme}
    (initReads : VarDecl.InitReads ts init rest) :
    VarDecl.Reads ((Keyword.typeWord type).at pos :: .name name pos' :: ts)
      ⟨type, name, init, pos⟩ rest

/-- The first clause of a `for` header. -/
inductive ForInit.Reads : List Lexeme → Option ForInit → List Lexeme → Prop where
  | none {rest : List Lexeme} : ForInit.Reads rest none rest
  | eval {e : Expr} {ts rest : List Lexeme} (reads : Expr.Reads 1 ts e rest) :
    ForInit.Reads ts (some (.eval e)) rest
  | declare {d : VarDecl} {ts rest : List Lexeme} (reads : VarDecl.Reads ts d rest) :
    ForInit.Reads ts (some (.declare d)) rest

/-- The constant of a case label. -/
inductive CaseLabel.Reads (arith : Arithmetic) : List Lexeme → CaseLabel → List Lexeme → Prop where
  | int {n : Int64} {pos : Position} {rest : List Lexeme} :
    CaseLabel.Reads arith (⟨.integer n, pos⟩ :: rest) (.int n) rest
  | char {c : UInt8} {pos : Position} {rest : List Lexeme} :
    CaseLabel.Reads arith (⟨.char c, pos⟩ :: rest) (.char c) rest
  | negative {n negative : Int64} {pos pos' : Position} {rest : List Lexeme}
    (exact : negative.toInt = -n.toInt) :
    CaseLabel.Reads arith (Punct.minus.at pos :: ⟨.integer n, pos'⟩ :: rest) (.int negative) rest
  /-- The least number stands for its negative where results wrap around. -/
  | least {pos pos' : Position} {rest : List Lexeme} (wraps : arith = .wrapping) :
    CaseLabel.Reads arith (Punct.minus.at pos :: ⟨.integer Int64.minValue, pos'⟩ :: rest)
      (.int Int64.minValue) rest

/-- A whole label of a case group, with its colon: the constant, and the position of its word. -/
inductive CaseGroup.LabelReads (arith : Arithmetic) :
    List Lexeme → Option CaseLabel → Position → List Lexeme → Prop where
  | case {label : CaseLabel} {pos pos' : Position} {ts rest : List Lexeme}
    (reads : CaseLabel.Reads arith ts label (Punct.colon.at pos' :: rest)) :
    CaseGroup.LabelReads arith (Keyword.caseWord.at pos :: ts) (some label) pos rest
  | default {pos pos' : Position} {rest : List Lexeme} :
    CaseGroup.LabelReads arith (Keyword.defaultWord.at pos :: Punct.colon.at pos' :: rest) none pos rest

/-! ## Statements -/

/-- The statement ends with an `if` that has no `else`. -/
def Stmt.opensIf : Stmt → Bool
  | .branch _ _ none _ => true
  | .branch _ _ (some onFalse) _ => onFalse.opensIf
  | .whileLoop _ body _ => body.opensIf
  | .forLoop _ _ _ body _ => body.opensIf
  | .declare _ | .eval _ _ | .block _ _ | .switch _ _ _ | .ret _ _ | .brk _ => false

mutual

/-- Statements. -/
inductive Stmt.Reads (arith : Arithmetic) : List Lexeme → Stmt → List Lexeme → Prop where
  | eval {e : Expr} {l : Lexeme} {pos' : Position} {ts rest : List Lexeme}
    (reads : Expr.Reads 1 (l :: ts) e (Punct.semicolon.at pos' :: rest)) :
    Stmt.Reads arith (l :: ts) (.eval e l.pos) rest
  | block {body : List Stmt} {pos : Position} {ts rest : List Lexeme}
    (items : Stmt.ItemsRead arith ts body rest) :
    Stmt.Reads arith (Punct.leftBrace.at pos :: ts) (.block body pos) rest
  | branch {e : Expr} {s : Stmt} {pos pos₁ pos₂ : Position} {ts ts' rest : List Lexeme}
    (cond : Expr.Reads 1 ts e (Punct.rightParen.at pos₂ :: ts')) (onTrue : Stmt.Reads arith ts' s rest) :
    Stmt.Reads arith (Keyword.ifWord.at pos :: Punct.leftParen.at pos₁ :: ts) (.branch e s none pos) rest
  | branchElse {e : Expr} {s s' : Stmt} {pos pos₁ pos₂ pos₃ : Position}
    {ts ts' ts'' rest : List Lexeme} (cond : Expr.Reads 1 ts e (Punct.rightParen.at pos₂ :: ts'))
    (onTrue : Stmt.Reads arith ts' s (Keyword.elseWord.at pos₃ :: ts'')) (closed : s.opensIf = false)
    (onFalse : Stmt.Reads arith ts'' s' rest) :
    Stmt.Reads arith (Keyword.ifWord.at pos :: Punct.leftParen.at pos₁ :: ts) (.branch e s (some s') pos)
      rest
  | whileLoop {e : Expr} {s : Stmt} {pos pos₁ pos₂ : Position} {ts ts' rest : List Lexeme}
    (cond : Expr.Reads 1 ts e (Punct.rightParen.at pos₂ :: ts')) (body : Stmt.Reads arith ts' s rest) :
    Stmt.Reads arith (Keyword.whileWord.at pos :: Punct.leftParen.at pos₁ :: ts) (.whileLoop e s pos) rest
  | forLoop {init : Option ForInit} {cond step : Option Expr} {s : Stmt}
    {pos pos₁ pos₂ pos₃ pos₄ : Position} {ts₁ ts₂ ts₃ ts₄ rest : List Lexeme}
    (initReads : ForInit.Reads ts₁ init (Punct.semicolon.at pos₂ :: ts₂))
    (condReads : Expr.OptionReads ts₂ cond (Punct.semicolon.at pos₃ :: ts₃))
    (stepReads : Expr.OptionReads ts₃ step (Punct.rightParen.at pos₄ :: ts₄))
    (body : Stmt.Reads arith ts₄ s rest) :
    Stmt.Reads arith (Keyword.forWord.at pos :: Punct.leftParen.at pos₁ :: ts₁)
      (.forLoop init cond step s pos) rest
  | switch {e : Expr} {groups : List CaseGroup} {pos pos₁ pos₂ pos₃ : Position}
    {ts ts' rest : List Lexeme}
    (scrutinee : Expr.Reads 1 ts e (Punct.rightParen.at pos₂ :: Punct.leftBrace.at pos₃ :: ts'))
    (cases : CaseGroup.ListReads arith ts' groups rest) :
    Stmt.Reads arith (Keyword.switchWord.at pos :: Punct.leftParen.at pos₁ :: ts) (.switch e groups pos)
      rest
  | ret {e? : Option Expr} {pos pos' : Position} {ts rest : List Lexeme}
    (value : Expr.OptionReads ts e? (Punct.semicolon.at pos' :: rest)) :
    Stmt.Reads arith (Keyword.returnWord.at pos :: ts) (.ret e? pos) rest
  | brk {pos pos' : Position} {rest : List Lexeme} :
    Stmt.Reads arith (Keyword.breakWord.at pos :: Punct.semicolon.at pos' :: rest) (.brk pos) rest

/-- The items of a block up to its closing brace. -/
inductive Stmt.ItemsRead (arith : Arithmetic) : List Lexeme → List Stmt → List Lexeme → Prop where
  | nil {pos : Position} {rest : List Lexeme} :
    Stmt.ItemsRead arith (Punct.rightBrace.at pos :: rest) [] rest
  | declare {d : VarDecl} {items : List Stmt} {pos : Position} {ts ts' rest : List Lexeme}
    (reads : VarDecl.Reads ts d (Punct.semicolon.at pos :: ts'))
    (others : Stmt.ItemsRead arith ts' items rest) : Stmt.ItemsRead arith ts (.declare d :: items) rest
  | stmt {s : Stmt} {items : List Stmt} {ts ts' rest : List Lexeme} (reads : Stmt.Reads arith ts s ts')
    (others : Stmt.ItemsRead arith ts' items rest) : Stmt.ItemsRead arith ts (s :: items) rest

/-- The statements of a case group. -/
inductive Stmt.BodyReads (arith : Arithmetic) : List Lexeme → List Stmt → List Lexeme → Prop where
  | nil {rest : List Lexeme} : Stmt.BodyReads arith rest [] rest
  | cons {s : Stmt} {body : List Stmt} {ts ts' rest : List Lexeme} (reads : Stmt.Reads arith ts s ts')
    (others : Stmt.BodyReads arith ts' body rest) : Stmt.BodyReads arith ts (s :: body) rest

/-- The case groups of a switch up to its closing brace. -/
inductive CaseGroup.ListReads (arith : Arithmetic) : List Lexeme → List CaseGroup → List Lexeme → Prop where
  | nil {pos : Position} {rest : List Lexeme} :
    CaseGroup.ListReads arith (Punct.rightBrace.at pos :: rest) [] rest
  | cons {label : Option CaseLabel} {body : List Stmt} {groups : List CaseGroup} {pos : Position}
    {ts ts₁ ts₂ rest : List Lexeme} (labelReads : CaseGroup.LabelReads arith ts label pos ts₁)
    (bodyReads : Stmt.BodyReads arith ts₁ body ts₂) (others : CaseGroup.ListReads arith ts₂ groups rest) :
    CaseGroup.ListReads arith ts (.mk label body pos :: groups) rest

end

/-! ## Programs -/

/-- A parameter. -/
inductive Param.Reads : List Lexeme → Param → List Lexeme → Prop where
  | mk {type : Ty} {name : String} {pos pos' : Position} {rest : List Lexeme} :
    Param.Reads ((Keyword.typeWord type).at pos :: .name name pos' :: rest) ⟨name, type, pos⟩ rest

/-- Parameters separated by commas, up to the closing parenthesis. -/
inductive Param.ListReads : List Lexeme → List Param → List Lexeme → Prop where
  | last {p : Param} {pos : Position} {ts rest : List Lexeme}
    (reads : Param.Reads ts p (Punct.rightParen.at pos :: rest)) : Param.ListReads ts [p] rest
  | more {p : Param} {ps : List Param} {pos : Position} {ts ts' rest : List Lexeme}
    (reads : Param.Reads ts p (Punct.comma.at pos :: ts')) (others : Param.ListReads ts' ps rest) :
    Param.ListReads ts (p :: ps) rest

/-- A parameter list up to the closing parenthesis. -/
inductive Param.ParamsRead : List Lexeme → List Param → List Lexeme → Prop where
  | none {pos : Position} {rest : List Lexeme} :
    Param.ParamsRead (Punct.rightParen.at pos :: rest) [] rest
  | some {ps : List Param} {ts rest : List Lexeme} (reads : Param.ListReads ts ps rest) :
    Param.ParamsRead ts ps rest

/-- A top-level item. -/
inductive Item.Reads (arith : Arithmetic) : List Lexeme → Item → List Lexeme → Prop where
  | function {returns : Ty} {name : String} {params : List Param} {body : List Stmt}
    {pos pos₁ pos₂ bodyPos : Position} {ts ts' rest : List Lexeme}
    (paramsRead : Param.ParamsRead ts params (Punct.leftBrace.at bodyPos :: ts'))
    (bodyReads : Stmt.ItemsRead arith ts' body rest) :
    Item.Reads arith
      ((Keyword.typeWord returns).at pos :: .name name pos₁ :: Punct.leftParen.at pos₂ :: ts)
      (.function { name, params, returns, body, bodyPos, pos }) rest
  | global {d : VarDecl} {pos : Position} {ts rest : List Lexeme}
    (reads : VarDecl.Reads ts d (Punct.semicolon.at pos :: rest)) :
    Item.Reads arith ts (.global d) rest

/-- Top-level items. -/
inductive Item.ListReads (arith : Arithmetic) : List Lexeme → List Item → List Lexeme → Prop where
  | nil {rest : List Lexeme} : Item.ListReads arith rest [] rest
  | cons {i : Item} {items : List Item} {ts ts' rest : List Lexeme} (reads : Item.Reads arith ts i ts')
    (others : Item.ListReads arith ts' items rest) : Item.ListReads arith ts (i :: items) rest

/-- A program up to what comes after its last item. -/
inductive Program.Reads (arith : Arithmetic) : List Lexeme → Program → List Lexeme → Prop where
  | mk {name : String} {items : List Item} {pos pos₁ pos₂ : Position} {ts rest : List Lexeme}
    (itemsRead : Item.ListReads arith ts items rest) :
    Program.Reads arith
      (Keyword.programWord.at pos :: .name name pos₁ :: Punct.semicolon.at pos₂ :: ts)
      ⟨name, items, pos⟩ rest

/-! ## Where declarations stand -/

variable {arith : Arithmetic}

mutual

/-- Statements of the grammar hold declarations in blocks only. -/
theorem Stmt.Reads.closed {ts rest : List Lexeme} {s : Stmt} : Stmt.Reads arith ts s rest → s.Closed
  | .block items => by
    simp only [Stmt.Closed]
    exact items.listItems
  | .branch _ onTrue => by
    simp only [Stmt.Closed]
    exact onTrue.closed
  | .branchElse _ onTrue _ onFalse => by
    simp only [Stmt.Closed]
    exact ⟨onTrue.closed, onFalse.closed⟩
  | .whileLoop _ body => by
    simp only [Stmt.Closed]
    exact body.closed
  | .forLoop _ _ _ body => by
    simp only [Stmt.Closed]
    exact body.closed
  | .switch _ cases => by
    simp only [Stmt.Closed]
    exact cases.listClosed
  | .eval _ | .ret _ | .brk => by simp [Stmt.Closed]

theorem Stmt.ItemsRead.listItems {ts rest : List Lexeme} {body : List Stmt} :
    Stmt.ItemsRead arith ts body rest → Stmt.ListItems body
  | .nil => by simp [Stmt.ListItems]
  | .declare _ others => by
    simp only [Stmt.ListItems]
    exact ⟨.inl rfl, others.listItems⟩
  | .stmt reads others => by
    simp only [Stmt.ListItems]
    exact ⟨.inr reads.closed, others.listItems⟩

theorem Stmt.BodyReads.listClosed {ts rest : List Lexeme} {body : List Stmt} :
    Stmt.BodyReads arith ts body rest → Stmt.ListClosed body
  | .nil => by simp [Stmt.ListClosed]
  | .cons reads others => by
    simp only [Stmt.ListClosed]
    exact ⟨reads.closed, others.listClosed⟩

theorem CaseGroup.ListReads.listClosed {ts rest : List Lexeme} {groups : List CaseGroup} :
    CaseGroup.ListReads arith ts groups rest → CaseGroup.ListClosed groups
  | .nil => by simp [CaseGroup.ListClosed]
  | .cons _ body others => by
    simp only [CaseGroup.ListClosed]
    exact ⟨body.listClosed, others.listClosed⟩

end

theorem Item.ListReads.closed {f : FunctionDef} {ts rest : List Lexeme} {items : List Item}
    (h : Item.ListReads arith ts items rest) (hf : .function f ∈ items) : Stmt.ListItems f.body := by
  induction h with
  | nil => cases hf
  | cons reads _ ih =>
    rcases List.mem_cons.mp hf with rfl | hf
    · cases reads with
      | function _ bodyReads => exact bodyReads.listItems
    · exact ih hf

/-- Programs of the grammar hold declarations in blocks, `for` headers and at the top level only. -/
theorem Program.Reads.closed {ts rest : List Lexeme} {p : Program} (h : Program.Reads arith ts p rest) :
    p.Closed := by
  cases h with
  | mk itemsRead =>
    intro f hf
    exact itemsRead.closed (Program.mem_functions.mp hf)

end Primer
