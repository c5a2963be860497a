import Primer.Proofs.Typing.Program

/-!
# Naming variables after their symbols

The checker resolves every use of a variable to a symbol, and every declaration adds a symbol of its
own. Renaming a program gives each variable and each parameter the name of its symbol: `fresh` maps
the number of a symbol to a name. It follows the walk of the checker, so that each name is looked up
in the state in which the checker looks it up.

- `Checker.nameOf` is the new name of a variable in some state.
- `Program.renamed` is a program with all its variables renamed. Functions keep their names, and
  everything keeps its position.
- `Program.declared` are the names of all variables and parameters of a program.
-/

namespace Primer

section Renamed

variable (fresh : Nat → String)

/-- The name of the symbol that the checker finds for a variable. -/
def Checker.nameOf (c : Checker) (name : String) : String :=
  ((Checker.symbolOf? c.scopes name).map fresh).getD name

/-! ## Expressions and declarations -/

mutual

/-- An expression with its variables renamed. It declares nothing, so that all its names are looked
up in the same scopes. -/
def Expr.renamed (c : Checker) : Expr → Expr
  | .literal value pos => .literal value pos
  | .var name pos => .var (c.nameOf fresh name) pos
  | .assign name value pos => .assign (c.nameOf fresh name) (Expr.renamed c value) pos
  | .unary op operand pos => .unary op (Expr.renamed c operand) pos
  | .binary op left right pos => .binary op (Expr.renamed c left) (Expr.renamed c right) pos
  | .call name args pos => .call name (Expr.renamedAll c args) pos

/-- Expressions with their variables renamed. -/
def Expr.renamedAll (c : Checker) : List Expr → List Expr
  | [] => []
  | e :: es => Expr.renamed c e :: Expr.renamedAll c es

end

theorem Expr.pos_renamed (c : Checker) (e : Expr) : (e.renamed fresh c).pos = e.pos := by
  cases e <;> rfl

/-- A declaration with its variables renamed. Its own name is that of the symbol it adds, which is in
scope behind it. -/
def VarDecl.renamed (c : Checker) (d : VarDecl) : VarDecl :=
  { d with
    name := ((Check.varDecl d).after c).nameOf fresh d.name
    init := d.init.map (Expr.renamed fresh c) }

/-- A first clause with its variables renamed. -/
def ForInit.renamed (c : Checker) : ForInit → ForInit
  | .declare d => .declare (d.renamed fresh c)
  | .eval e => .eval (e.renamed fresh c)

/-! ## Statements -/

mutual

/-- A statement with its variables renamed. -/
def Stmt.renamed (c : Checker) (reachable : Bool) : Stmt → Stmt
  | .declare d => .declare (d.renamed fresh c)
  | .eval e pos => .eval (e.renamed fresh c) pos
  | .block body pos => .block (Stmt.renamedAll c.pushScope reachable body) pos
  | .branch cond onTrue none pos =>
    .branch (cond.renamed fresh c)
      (Stmt.renamed ((Check.condition cond).after c) reachable onTrue) none pos
  | .branch cond onTrue (some onFalse) pos =>
    let c₁ := (Check.condition cond).after c
    .branch (cond.renamed fresh c) (Stmt.renamed c₁ reachable onTrue)
      (some (Stmt.renamed ((Check.stmt reachable onTrue).after c₁) reachable onFalse)) pos
  | .whileLoop cond body pos =>
    .whileLoop (cond.renamed fresh c)
      (Stmt.renamed ((Check.condition cond).after c).inLoop reachable body) pos
  | .forLoop init cond step body pos =>
    let c₁ := (Check.forInit init).after c.pushScope
    let c₂ := (Check.guard cond).after c₁
    .forLoop (init.map (ForInit.renamed fresh c.pushScope)) (cond.map (Expr.renamed fresh c₁))
      (step.map (Expr.renamed fresh c₂))
      (Stmt.renamed ((Check.effect step).after c₂).inLoop reachable body) pos
  | .switch e groups pos =>
    let c₁ := Check.after (do let type ← Check.scrutinee e; Check.labels type [] false groups) c
    .switch (e.renamed fresh c) (CaseGroup.renamedAll c₁.inLoop reachable groups) pos
  | .ret value pos => .ret (value.map (Expr.renamed fresh c)) pos
  | .brk pos => .brk pos

/-- Statements with their variables renamed. -/
def Stmt.renamedAll (c : Checker) (reachable : Bool) : List Stmt → List Stmt
  | [] => []
  | s :: rest =>
    Stmt.renamed c reachable s ::
      Stmt.renamedAll ((Check.stmt reachable s).after c)
        (reachable && ((Check.stmt reachable s).run c).1 == .continues) rest

/-- Case groups with their variables renamed. -/
def CaseGroup.renamedAll (c : Checker) (reachable : Bool) : List CaseGroup → List CaseGroup
  | [] => []
  | .mk label body pos :: rest =>
    .mk label (Stmt.renamedAll c reachable body) pos ::
      CaseGroup.renamedAll ((Check.stmts reachable body).after c) reachable rest

end

/-! ## Programs -/

/-- Parameters with their names replaced by those of their symbols. -/
def Param.renamedAll (c : Checker) : List Param → List Param
  | [] => []
  | p :: params =>
    let c₁ := (Check.param p).after c
    { p with name := c₁.nameOf fresh p.name } :: Param.renamedAll c₁ params

/-- A function with its variables renamed. -/
def FunctionDef.renamed (c : Checker) (f : FunctionDef) : FunctionDef :=
  { f with
    params := Param.renamedAll fresh (c.enterRoutine f.name).pushScope f.params
    body := Stmt.renamedAll fresh (c.enterFunction f) true f.body }

/-- A top-level item with its variables renamed. -/
def Item.renamed (c : Checker) : Item → Item
  | .global d => .global (d.renamed fresh c)
  | .function f => .function (f.renamed fresh c)

/-- Top-level items with their variables renamed. -/
def Item.renamedAll (c : Checker) : List Item → List Item
  | [] => []
  | i :: rest => i.renamed fresh c :: Item.renamedAll ((Check.item i).after c) rest

/-- A program with its variables renamed. -/
def Program.renamed (p : Program) : Program :=
  { p with items := Item.renamedAll fresh (Checker.registered p) p.items }

end Renamed

/-! ## The names of a program -/

/-- The name that a first clause declares. -/
def ForInit.declared : Option ForInit → List String
  | some (.declare d) => [d.name]
  | some (.eval _) => []
  | none => []

mutual

/-- The names of the variables that a statement declares. -/
def Stmt.declared : Stmt → List String
  | .declare d => [d.name]
  | .block body _ => Stmt.listDeclared body
  | .branch _ onTrue none _ => onTrue.declared
  | .branch _ onTrue (some onFalse) _ => onTrue.declared ++ onFalse.declared
  | .whileLoop _ body _ => body.declared
  | .forLoop init _ _ body _ => ForInit.declared init ++ body.declared
  | .switch _ groups _ => CaseGroup.listDeclared groups
  | .eval _ _ | .ret _ _ | .brk _ => []

/-- The names of the variables that statements declare. -/
def Stmt.listDeclared : List Stmt → List String
  | [] => []
  | s :: rest => s.declared ++ Stmt.listDeclared rest

/-- The names of the variables that case groups declare. -/
def CaseGroup.listDeclared : List CaseGroup → List String
  | [] => []
  | .mk _ body _ :: rest => Stmt.listDeclared body ++ CaseGroup.listDeclared rest

end

/-- The names of the parameters of a function and of the variables in its body. -/
def FunctionDef.declared (f : FunctionDef) : List String :=
  f.params.map Param.name ++ Stmt.listDeclared f.body

/-- The names that an item declares. -/
def Item.declared : Item → List String
  | .global d => [d.name]
  | .function f => f.declared

/-- The names of all variables and parameters of a program, in source order. -/
def Program.declared (p : Program) : List String :=
  p.items.flatMap Item.declared

end Primer
