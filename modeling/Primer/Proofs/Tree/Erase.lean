import Primer.Tree.Basic
import Primer.Tree.Error

/-!
# Trees without positions

Erasing puts the start of the text in place of every position. Two trees are the same up to layout if
they are equal once their positions are erased: they have the same names, types, operators, literal
values and nesting.
-/

namespace Primer

/-- A token without its position. -/
def Lexeme.erase (l : Lexeme) : Lexeme :=
  ⟨l.token, .start⟩

/-- Tokens at the start of the text. -/
def lexemesOf (ts : List Token) : List Lexeme :=
  ts.map fun t => ⟨t, .start⟩

theorem map_erase_eq (ls : List Lexeme) : ls.map Lexeme.erase = lexemesOf (ls.map Lexeme.token) := by
  simp [lexemesOf, Lexeme.erase]

@[simp] theorem lexemesOf_nil : lexemesOf [] = [] := rfl

@[simp] theorem lexemesOf_cons (t : Token) (ts : List Token) :
    lexemesOf (t :: ts) = ⟨t, .start⟩ :: lexemesOf ts := rfl

@[simp] theorem lexemesOf_append (ts ts' : List Token) :
    lexemesOf (ts ++ ts') = lexemesOf ts ++ lexemesOf ts' :=
  List.map_append

/-- A syntax error without its position. -/
def SyntaxError.erase : SyntaxError → SyntaxError
  | .unexpectedToken expected found _ => .unexpectedToken expected found .start
  | .unexpectedEnd expected _ => .unexpectedEnd expected .start
  | .invalidTarget _ => .invalidTarget .start
  | .declarationNotAllowed _ => .declarationNotAllowed .start

mutual

/-- An expression without positions. -/
def Expr.erase : Expr → Expr
  | .literal value _ => .literal value .start
  | .var name _ => .var name .start
  | .assign name value _ => .assign name value.erase .start
  | .unary op operand _ => .unary op operand.erase .start
  | .binary op left right _ => .binary op left.erase right.erase .start
  | .call name args _ => .call name (Expr.eraseAll args) .start

/-- Expressions without positions. -/
def Expr.eraseAll : List Expr → List Expr
  | [] => []
  | e :: es => e.erase :: Expr.eraseAll es

end

theorem Expr.pos_erase (e : Expr) : e.erase.pos = .start := by
  cases e <;> rfl

theorem Expr.eraseAll_eq_map (es : List Expr) : Expr.eraseAll es = es.map Expr.erase := by
  induction es with
  | nil => rfl
  | cons e es ih => rw [Expr.eraseAll, ih, List.map_cons]

/-- A declaration without positions. -/
def VarDecl.erase (d : VarDecl) : VarDecl :=
  { d with init := d.init.map Expr.erase, pos := .start }

/-- A first clause without positions. -/
def ForInit.erase : ForInit → ForInit
  | .declare decl => .declare decl.erase
  | .eval e => .eval e.erase

mutual

/-- A statement without positions. -/
def Stmt.erase : Stmt → Stmt
  | .declare decl => .declare decl.erase
  | .eval e _ => .eval e.erase .start
  | .block body _ => .block (Stmt.eraseAll body) .start
  | .branch cond onTrue none _ => .branch cond.erase onTrue.erase none .start
  | .branch cond onTrue (some onFalse) _ => .branch cond.erase onTrue.erase (some onFalse.erase) .start
  | .whileLoop cond body _ => .whileLoop cond.erase body.erase .start
  | .forLoop init cond step body _ =>
    .forLoop (init.map ForInit.erase) (cond.map Expr.erase) (step.map Expr.erase) body.erase .start
  | .switch scrutinee groups _ => .switch scrutinee.erase (CaseGroup.eraseAll groups) .start
  | .ret value _ => .ret (value.map Expr.erase) .start
  | .brk _ => .brk .start

/-- Statements without positions. -/
def Stmt.eraseAll : List Stmt → List Stmt
  | [] => []
  | s :: rest => s.erase :: Stmt.eraseAll rest

/-- Case groups without positions. -/
def CaseGroup.eraseAll : List CaseGroup → List CaseGroup
  | [] => []
  | .mk label body _ :: rest => .mk label (Stmt.eraseAll body) .start :: CaseGroup.eraseAll rest

end

theorem Stmt.eraseAll_eq_map (body : List Stmt) : Stmt.eraseAll body = body.map Stmt.erase := by
  induction body with
  | nil => simp [Stmt.eraseAll]
  | cons s rest ih => rw [Stmt.eraseAll, ih, List.map_cons]

/-- A case group without positions. -/
def CaseGroup.erase : CaseGroup → CaseGroup
  | .mk label body _ => .mk label (Stmt.eraseAll body) .start

theorem CaseGroup.eraseAll_eq_map (groups : List CaseGroup) :
    CaseGroup.eraseAll groups = groups.map CaseGroup.erase := by
  induction groups with
  | nil => simp [CaseGroup.eraseAll]
  | cons group rest ih =>
    cases group with
    | mk label body pos => rw [CaseGroup.eraseAll, ih, List.map_cons, CaseGroup.erase]

/-- A parameter without its position. -/
def Param.erase (p : Param) : Param :=
  { p with pos := .start }

/-- A function without positions. -/
def FunctionDef.erase (f : FunctionDef) : FunctionDef :=
  { f with
    params := f.params.map Param.erase
    body := Stmt.eraseAll f.body
    bodyPos := .start
    pos := .start }

/-- A top-level item without positions. -/
def Item.erase : Item → Item
  | .function f => .function f.erase
  | .global decl => .global decl.erase

/-- A program without positions. -/
def Program.erase (p : Program) : Program :=
  { p with items := p.items.map Item.erase, pos := .start }

namespace Program

theorem functions_erase (p : Program) : p.erase.functions = p.functions.map FunctionDef.erase := by
  unfold functions erase
  rw [List.filterMap_map, List.map_filterMap]
  congr 1
  funext i
  cases i <;> rfl

theorem globals_erase (p : Program) : p.erase.globals = p.globals.map VarDecl.erase := by
  unfold globals erase
  rw [List.filterMap_map, List.map_filterMap]
  congr 1
  funext i
  cases i <;> rfl

theorem function?_erase (p : Program) (name : String) :
    p.erase.function? name = (p.function? name).map FunctionDef.erase := by
  unfold function?
  rw [functions_erase, List.find?_map]
  rfl

end Program

end Primer
