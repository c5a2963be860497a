import Primer.Tree.Basic

/-!
# Where declarations and loops stand

In a tree that is read from tokens a declaration is an item of a block or of a function body; it is
never by itself the branch of an `if`, the body of a loop or a statement of a case group.

- `Stmt.Closed`: the statement is no declaration and holds declarations in blocks only.
- `Stmt.ListItems`: the same for the items of a block, which may be declarations.
- `Program.Closed`: all function bodies are such lists.
- `Stmt.hasLoop`: the statement is a loop or holds one; `Program.LoopFree`: no function body holds one.
-/

namespace Primer

/-- The statement is a declaration. -/
def Stmt.isDeclaration : Stmt → Bool
  | .declare _ => true
  | _ => false

/-- The declaration that the statement is. -/
def Stmt.declaration? : Stmt → Option VarDecl
  | .declare d => some d
  | _ => none

theorem Stmt.declaration?_eq_some_iff {s : Stmt} {d : VarDecl} :
    s.declaration? = some d ↔ s = .declare d := by
  cases s <;> simp [declaration?]

mutual

/-- A statement that declares nothing in the scope around it. -/
def Stmt.Closed : Stmt → Prop
  | .declare _ => False
  | .block body _ => Stmt.ListItems body
  | .branch _ onTrue none _ => onTrue.Closed
  | .branch _ onTrue (some onFalse) _ => onTrue.Closed ∧ onFalse.Closed
  | .whileLoop _ body _ => body.Closed
  | .forLoop _ _ _ body _ => body.Closed
  | .switch _ groups _ => CaseGroup.ListClosed groups
  | .eval _ _ | .ret _ _ | .brk _ => True

/-- The items of a block. -/
def Stmt.ListItems : List Stmt → Prop
  | [] => True
  | s :: rest => (s.isDeclaration = true ∨ s.Closed) ∧ Stmt.ListItems rest

/-- Statements none of which is a declaration. -/
def Stmt.ListClosed : List Stmt → Prop
  | [] => True
  | s :: rest => s.Closed ∧ Stmt.ListClosed rest

/-- Case groups that hold no declarations. -/
def CaseGroup.ListClosed : List CaseGroup → Prop
  | [] => True
  | .mk _ body _ :: rest => Stmt.ListClosed body ∧ CaseGroup.ListClosed rest

end

theorem Stmt.ListClosed.items : ∀ {body : List Stmt}, Stmt.ListClosed body → Stmt.ListItems body
  | [], _ => by simp [Stmt.ListItems]
  | _ :: _, h => by
    simp only [Stmt.ListClosed] at h
    simp only [Stmt.ListItems]
    exact ⟨.inr h.1, h.2.items⟩

/-- A program whose functions hold declarations in blocks only. -/
def Program.Closed (p : Program) : Prop :=
  ∀ f ∈ p.functions, Stmt.ListItems f.body

mutual

/-- The statement is a loop or holds one. -/
def Stmt.hasLoop : Stmt → Bool
  | .whileLoop _ _ _ | .forLoop _ _ _ _ _ => true
  | .block body _ => Stmt.listHasLoop body
  | .branch _ onTrue none _ => onTrue.hasLoop
  | .branch _ onTrue (some onFalse) _ => onTrue.hasLoop || onFalse.hasLoop
  | .switch _ groups _ => CaseGroup.listHasLoop groups
  | .declare _ | .eval _ _ | .ret _ _ | .brk _ => false

/-- One of the statements is a loop or holds one. -/
def Stmt.listHasLoop : List Stmt → Bool
  | [] => false
  | s :: rest => s.hasLoop || Stmt.listHasLoop rest

/-- One of the case groups holds a loop. -/
def CaseGroup.listHasLoop : List CaseGroup → Bool
  | [] => false
  | .mk _ body _ :: rest => Stmt.listHasLoop body || CaseGroup.listHasLoop rest

end

/-- No function of the program holds a loop. -/
def Program.LoopFree (p : Program) : Prop :=
  ∀ f ∈ p.functions, Stmt.listHasLoop f.body = false

instance (p : Program) : Decidable p.LoopFree :=
  inferInstanceAs (Decidable (∀ f ∈ p.functions, Stmt.listHasLoop f.body = false))

theorem Program.mem_functions {p : Program} {f : FunctionDef} :
    f ∈ p.functions ↔ .function f ∈ p.items := by
  simp only [Program.functions, List.mem_filterMap]
  constructor
  · rintro ⟨i, hi, h⟩
    cases i with
    | function g =>
      cases h
      exact hi
    | global d => cases h
  · exact fun h => ⟨_, h, rfl⟩

/-- The globals among some items, in source order. -/
def Item.globals (items : List Item) : List VarDecl :=
  items.filterMap fun
    | .global decl => some decl
    | .function _ => none

/-- The functions among some items, in source order. -/
def Item.functions (items : List Item) : List FunctionDef :=
  items.filterMap fun
    | .function f => some f
    | .global _ => none

end Primer
