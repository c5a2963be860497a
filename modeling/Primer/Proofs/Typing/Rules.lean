import Mathlib.Data.List.Forall2
import Primer.Tree.Builtin
import Primer.Typing.Statement

/-!
# The static rules

The static rules of the language as a system of inference rules. Each rule passes an environment
along: the names in scope with their types, the innermost scope first and the global one last.

- `HasType` gives the type of an expression, `HasTypes` the types of expressions used as values.
- `Stmt.Ok` and `Stmt.ListOk` relate the names in scope before and after a statement. The body of a
  loop or branch declares nothing in the scope around it, so the two are the same there.
- `FunctionDef.Ok`, `Item.ListOk` and `Program.Ok` are the rules for whole programs.

How control leaves a statement (`Stmt.exit`) and whether it holds a `return` with a value that
control can reach (`Stmt.returnsValue`) depend on the shape of the statement only.
-/

namespace Primer

/-! ## Names in scope -/

/-- The types of a function. -/
structure FunctionType where
  params : List Ty
  returns : Ty
  deriving DecidableEq, Repr

/-- The types of a function with its body. -/
def FunctionDef.type (f : FunctionDef) : FunctionType :=
  ⟨f.params.map Param.type, f.returns⟩

/-- The functions that may be called. -/
abbrev Signatures := String → Option FunctionType

/-- The functions of a program that may be called. -/
def Program.signatures (p : Program) : Signatures :=
  fun name => (p.function? name).map FunctionDef.type

/-- The variables of one scope and their types, the latest first. -/
abbrev TypeScope := List (String × Ty)

/-- The variables in scope, the innermost scope first. -/
abbrev TypeScopes := List TypeScope

namespace TypeScopes

/-- The type of the innermost variable of the given name. -/
def type? (Γ : TypeScopes) (name : String) : Option Ty :=
  Γ.findSome? fun scope => scope.lookup name

theorem type?_cons (scope : TypeScope) (outer : TypeScopes) (name : String) :
    type? (scope :: outer) name = (scope.lookup name).or (outer.type? name) := by
  rw [type?, List.findSome?_cons]
  cases scope.lookup name <;> rfl

/-- The innermost scope declares no variable of the given name. -/
def FreeHere (Γ : TypeScopes) (name : String) : Prop :=
  ∀ scope ∈ Γ.head?, scope.lookup name = none

/-- Declares a variable in the innermost scope. -/
def declare (Γ : TypeScopes) (name : String) (type : Ty) : TypeScopes :=
  match Γ with
  | [] => []
  | scope :: outer => ((name, type) :: scope) :: outer

theorem declare_ne {Γ : TypeScopes} (h : Γ ≠ []) (name : String) (type : Ty) :
    Γ.declare name type ≠ Γ := by
  intro he
  cases Γ with
  | nil => exact h rfl
  | cons scope outer =>
    have hlen := congrArg List.length (List.cons.inj he).1
    simp at hlen

/-- `Γ'` adds variables to the innermost scope of `Γ`. -/
inductive Extends : (Γ Γ' : TypeScopes) → Prop where
  | refl (Γ : TypeScopes) : Extends Γ Γ
  | declare {Γ Γ' : TypeScopes} (name : String) (type : Ty) (h : Extends Γ Γ') :
    Extends Γ (Γ'.declare name type)

theorem Extends.trans {Γ Γ' Γ'' : TypeScopes} (h : Extends Γ Γ') (h' : Extends Γ' Γ'') :
    Extends Γ Γ'' := by
  induction h' with
  | refl => exact h
  | declare name type _ ih => exact .declare name type ih

theorem Extends.tail {Γ Γ' : TypeScopes} (h : Extends Γ Γ') : Γ'.tail = Γ.tail := by
  induction h with
  | refl => rfl
  | @declare Γ' name type _ ih =>
    rw [← ih]
    cases Γ' <;> rfl

theorem Extends.length_eq {Γ Γ' : TypeScopes} (h : Extends Γ Γ') : Γ'.length = Γ.length := by
  induction h with
  | refl => rfl
  | @declare Γ' name type _ ih =>
    rw [← ih]
    cases Γ' <;> rfl

theorem Extends.eq_cons {scope : TypeScope} {Γ Γ' : TypeScopes} (h : Extends (scope :: Γ) Γ') :
    ∃ scope', Γ' = scope' :: Γ := by
  have htail := h.tail
  cases Γ' with
  | nil => exact nomatch h.length_eq
  | cons scope' outer => exact ⟨scope', congrArg (scope' :: ·) htail⟩

/-- The innermost scope only grows. -/
theorem Extends.head_length_le {Γ Γ' : TypeScopes} (h : Extends Γ Γ') :
    (Γ.headD []).length ≤ (Γ'.headD []).length := by
  induction h with
  | refl => exact Nat.le_refl _
  | @declare Γ' name type _ ih =>
    refine Nat.le_trans ih ?_
    cases Γ' with
    | nil => exact Nat.le_refl _
    | cons scope outer => exact Nat.le_succ _

/-- Scopes that come back to themselves never grew in between. -/
theorem Extends.antisymm {Γ Γ' : TypeScopes} (h : Extends Γ Γ') (h' : Extends Γ' Γ) : Γ' = Γ := by
  cases h with
  | refl => rfl
  | @declare Γ₁ name type h =>
    cases Γ₁ with
    | nil => exact (List.eq_nil_of_length_eq_zero h.length_eq.symm).symm
    | cons scope outer =>
      have hle := h.head_length_le
      have hle' := h'.head_length_le
      simp only [TypeScopes.declare, List.headD_cons, List.length_cons] at hle hle'
      omega

end TypeScopes

/-! ## Expressions -/

mutual

/-- An expression has a type. -/
inductive HasType (sigs : Signatures) (Γ : TypeScopes) : Expr → Ty → Prop where
  | literal (value : Literal) (pos : Position) : HasType sigs Γ (.literal value pos) value.type
  | var {name : String} {pos : Position} {t : Ty} (bound : Γ.type? name = some t) :
    HasType sigs Γ (.var name pos) t
  /-- The value has to fit into the variable, and the assignment has the type of the variable. -/
  | assign {name : String} {value : Expr} {pos : Position} {t u : Ty}
    (typed : HasType sigs Γ value u) (notVoid : u ≠ .void) (bound : Γ.type? name = some t)
    (fits : t.accepts u = true) : HasType sigs Γ (.assign name value pos) t
  | unary {op : UnaryOp} {operand : Expr} {pos : Position} {t : Ty}
    (typed : HasType sigs Γ operand t) (integral : t.isIntegral = true) :
    HasType sigs Γ (.unary op operand pos) .int
  | binary {op : BinaryOp} {left right : Expr} {pos : Position} {t u : Ty}
    (leftTyped : HasType sigs Γ left t) (rightTyped : HasType sigs Γ right u)
    (leftIntegral : t.isIntegral = true) (rightIntegral : u.isIntegral = true) :
    HasType sigs Γ (.binary op left right pos) .int
  | print {format : Expr} {args : List Expr} {pos : Position} {ts : List Ty}
    (formatTyped : HasType sigs Γ format .string) (argsTyped : HasTypes sigs Γ args ts) :
    HasType sigs Γ (.call printName (format :: args) pos) .void
  | call {name : String} {args : List Expr} {pos : Position} {f : FunctionType} {ts : List Ty}
    (notPrint : name ≠ printName) (declared : sigs name = some f)
    (argsTyped : HasTypes sigs Γ args ts)
    (fit : List.Forall₂ (fun param t => param.accepts t = true) f.params ts) :
    HasType sigs Γ (.call name args pos) f.returns

/-- Expressions used as values have types, none of which is `void`. -/
inductive HasTypes (sigs : Signatures) (Γ : TypeScopes) : List Expr → List Ty → Prop where
  | nil : HasTypes sigs Γ [] []
  | cons {e : Expr} {es : List Expr} {t : Ty} {ts : List Ty} (typed : HasType sigs Γ e t)
    (notVoid : t ≠ .void) (rest : HasTypes sigs Γ es ts) : HasTypes sigs Γ (e :: es) (t :: ts)

end

theorem HasTypes.length_eq {sigs : Signatures} {Γ : TypeScopes} :
    ∀ {es : List Expr} {ts : List Ty}, HasTypes sigs Γ es ts → es.length = ts.length
  | _, _, .nil => rfl
  | _, _, .cons _ _ rest => congrArg Nat.succ rest.length_eq

/-- An expression whose value can decide a branch, a loop or a switch. -/
def IsIntegral (sigs : Signatures) (Γ : TypeScopes) (e : Expr) : Prop :=
  ∃ t, HasType sigs Γ e t ∧ t.isIntegral = true

/-- An expression whose value can be stored where `expected` is declared. -/
def Fits (sigs : Signatures) (Γ : TypeScopes) (expected : Ty) (e : Expr) : Prop :=
  ∃ t, HasType sigs Γ e t ∧ t ≠ .void ∧ expected.accepts t = true

/-- An expression that is evaluated for its effect only. -/
def HasSomeType (sigs : Signatures) (Γ : TypeScopes) (e : Expr) : Prop :=
  ∃ t, HasType sigs Γ e t

/-! ## Statements -/

/-- A declaration that may stand where `Γ` is in scope. -/
structure VarDecl.Ok (sigs : Signatures) (Γ : TypeScopes) (d : VarDecl) : Prop where
  notVoid : d.type ≠ .void
  free : Γ.FreeHere d.name
  init : ∀ e ∈ d.init, Fits sigs Γ d.type e

/-- The first clause of a `for` header, and the names in scope after it. -/
inductive ForInit.Ok (sigs : Signatures) (Γ : TypeScopes) : Option ForInit → TypeScopes → Prop where
  | none : ForInit.Ok sigs Γ none Γ
  | eval {e : Expr} (typed : HasSomeType sigs Γ e) : ForInit.Ok sigs Γ (some (.eval e)) Γ
  | declare {d : VarDecl} (ok : d.Ok sigs Γ) :
    ForInit.Ok sigs Γ (some (.declare d)) (Γ.declare d.name d.type)

/-- The labels of a switch on a value of type `t`. -/
structure CaseGroup.LabelsOk (t : Ty) (groups : List CaseGroup) : Prop where
  typed : ∀ label ∈ groups.filterMap CaseGroup.label, label.type = t
  distinct : (groups.filterMap CaseGroup.label).Nodup
  oneDefault : (groups.filter fun g => g.label.isNone).length ≤ 1

mutual

/-- A statement in a function that returns `returns`, and the names in scope before and after it.
`inLoop` says whether a loop or switch of the function is around it. -/
inductive Stmt.Ok (sigs : Signatures) (returns : Ty) :
    (inLoop : Bool) → TypeScopes → Stmt → TypeScopes → Prop where
  | declare {inLoop : Bool} {Γ : TypeScopes} {d : VarDecl} (ok : d.Ok sigs Γ) :
    Stmt.Ok sigs returns inLoop Γ (.declare d) (Γ.declare d.name d.type)
  | eval {inLoop : Bool} {Γ : TypeScopes} {e : Expr} {pos : Position}
    (typed : HasSomeType sigs Γ e) : Stmt.Ok sigs returns inLoop Γ (.eval e pos) Γ
  | block {inLoop : Bool} {Γ Γ' : TypeScopes} {body : List Stmt} {pos : Position}
    (bodyOk : Stmt.ListOk sigs returns inLoop ([] :: Γ) body Γ') :
    Stmt.Ok sigs returns inLoop Γ (.block body pos) Γ
  | branch {inLoop : Bool} {Γ : TypeScopes} {cond : Expr} {onTrue : Stmt} {pos : Position}
    (condOk : IsIntegral sigs Γ cond) (onTrueOk : Stmt.Ok sigs returns inLoop Γ onTrue Γ) :
    Stmt.Ok sigs returns inLoop Γ (.branch cond onTrue none pos) Γ
  | branchElse {inLoop : Bool} {Γ : TypeScopes} {cond : Expr} {onTrue onFalse : Stmt}
    {pos : Position} (condOk : IsIntegral sigs Γ cond)
    (onTrueOk : Stmt.Ok sigs returns inLoop Γ onTrue Γ)
    (onFalseOk : Stmt.Ok sigs returns inLoop Γ onFalse Γ) :
    Stmt.Ok sigs returns inLoop Γ (.branch cond onTrue (some onFalse) pos) Γ
  | whileLoop {inLoop : Bool} {Γ : TypeScopes} {cond : Expr} {body : Stmt} {pos : Position}
    (condOk : IsIntegral sigs Γ cond) (bodyOk : Stmt.Ok sigs returns true Γ body Γ) :
    Stmt.Ok sigs returns inLoop Γ (.whileLoop cond body pos) Γ
  | forLoop {inLoop : Bool} {Γ Γ' : TypeScopes} {init : Option ForInit} {cond step : Option Expr}
    {body : Stmt} {pos : Position} (initOk : ForInit.Ok sigs ([] :: Γ) init Γ')
    (condOk : ∀ e ∈ cond, IsIntegral sigs Γ' e) (stepOk : ∀ e ∈ step, HasSomeType sigs Γ' e)
    (bodyOk : Stmt.Ok sigs returns true Γ' body Γ') :
    Stmt.Ok sigs returns inLoop Γ (.forLoop init cond step body pos) Γ
  | switch {inLoop : Bool} {Γ : TypeScopes} {e : Expr} {groups : List CaseGroup} {pos : Position}
    {t : Ty} (typed : HasType sigs Γ e t) (integral : t.isIntegral = true)
    (labelsOk : CaseGroup.LabelsOk t groups) (groupsOk : CaseGroup.ListOk sigs returns Γ groups) :
    Stmt.Ok sigs returns inLoop Γ (.switch e groups pos) Γ
  | ret {inLoop : Bool} {Γ : TypeScopes} {e : Expr} {pos : Position} (notVoid : returns ≠ .void)
    (fits : Fits sigs Γ returns e) : Stmt.Ok sigs returns inLoop Γ (.ret (some e) pos) Γ
  | retVoid {inLoop : Bool} {Γ : TypeScopes} {pos : Position} (isVoid : returns = .void) :
    Stmt.Ok sigs returns inLoop Γ (.ret none pos) Γ
  | brk {Γ : TypeScopes} {pos : Position} : Stmt.Ok sigs returns true Γ (.brk pos) Γ

/-- Statements in a row. -/
inductive Stmt.ListOk (sigs : Signatures) (returns : Ty) :
    (inLoop : Bool) → TypeScopes → List Stmt → TypeScopes → Prop where
  | nil {inLoop : Bool} {Γ : TypeScopes} : Stmt.ListOk sigs returns inLoop Γ [] Γ
  | cons {inLoop : Bool} {Γ Γ₁ Γ₂ : TypeScopes} {s : Stmt} {rest : List Stmt}
    (head : Stmt.Ok sigs returns inLoop Γ s Γ₁)
    (tail : Stmt.ListOk sigs returns inLoop Γ₁ rest Γ₂) :
    Stmt.ListOk sigs returns inLoop Γ (s :: rest) Γ₂

/-- The case groups of a switch. -/
inductive CaseGroup.ListOk (sigs : Signatures) (returns : Ty) :
    TypeScopes → List CaseGroup → Prop where
  | nil {Γ : TypeScopes} : CaseGroup.ListOk sigs returns Γ []
  | cons {Γ : TypeScopes} {label : Option CaseLabel} {body : List Stmt} {pos : Position}
    {rest : List CaseGroup} (bodyOk : Stmt.ListOk sigs returns true Γ body Γ)
    (tail : CaseGroup.ListOk sigs returns Γ rest) :
    CaseGroup.ListOk sigs returns Γ (.mk label body pos :: rest)

end

theorem ForInit.Ok.extends {sigs : Signatures} {Γ Γ' : TypeScopes} {init : Option ForInit}
    (h : ForInit.Ok sigs Γ init Γ') : TypeScopes.Extends Γ Γ' := by
  cases h with
  | declare ok => exact .declare _ _ (.refl _)
  | _ => exact .refl _

/-- A statement only adds variables to the innermost scope. -/
theorem Stmt.Ok.extends {sigs : Signatures} {returns : Ty} {inLoop : Bool} {Γ Γ' : TypeScopes}
    {s : Stmt} (h : Stmt.Ok sigs returns inLoop Γ s Γ') : TypeScopes.Extends Γ Γ' := by
  cases h with
  | declare ok => exact .declare _ _ (.refl _)
  | _ => exact .refl _

theorem Stmt.ListOk.extends {sigs : Signatures} {returns : Ty} {inLoop : Bool} :
    ∀ {Γ Γ' : TypeScopes} {body : List Stmt}, Stmt.ListOk sigs returns inLoop Γ body Γ' →
      TypeScopes.Extends Γ Γ'
  | _, _, _, .nil => .refl _
  | _, _, _, .cons head tail => head.extends.trans tail.extends

/-! ## Reachable returns -/

mutual

/-- How control leaves a statement. -/
def Stmt.exit : Stmt → Exit
  | .block body _ => Stmt.listExit body
  | .branch _ onTrue (some onFalse) _ => onTrue.exit.join onFalse.exit
  | .ret _ _ => .returns
  | .brk _ => .breaks
  | .declare _ | .eval _ _ | .branch _ _ none _ | .whileLoop _ _ _ | .forLoop _ _ _ _ _
  | .switch _ _ _ => .continues

/-- How control leaves a statement list. -/
def Stmt.listExit : List Stmt → Exit
  | [] => .continues
  | s :: rest => s.exit.andThen (Stmt.listExit rest)

end

mutual

/-- A statement holds a `return` with a value that no earlier exit cuts off. -/
def Stmt.returnsValue : Stmt → Bool
  | .block body _ => Stmt.listReturnsValue body
  | .branch _ onTrue none _ => onTrue.returnsValue
  | .branch _ onTrue (some onFalse) _ => onTrue.returnsValue || onFalse.returnsValue
  | .whileLoop _ body _ => body.returnsValue
  | .forLoop _ _ _ body _ => body.returnsValue
  | .switch _ groups _ => CaseGroup.listReturnsValue groups
  | .ret (some _) _ => true
  | .ret none _ | .declare _ | .eval _ _ | .brk _ => false

/-- A statement list holds a `return` with a value that no earlier exit cuts off. -/
def Stmt.listReturnsValue : List Stmt → Bool
  | [] => false
  | s :: rest => s.returnsValue || (s.exit == .continues && Stmt.listReturnsValue rest)

/-- One of the case groups holds such a `return`. Every label can be jumped to. -/
def CaseGroup.listReturnsValue : List CaseGroup → Bool
  | [] => false
  | .mk _ body _ :: rest => Stmt.listReturnsValue body || CaseGroup.listReturnsValue rest

end

/-! ## Programs -/

/-- The parameters of a function as the variables of a scope. -/
def FunctionDef.paramScope (f : FunctionDef) : TypeScope :=
  (f.params.map fun p => (p.name, p.type)).reverse

/-- A function that may stand after the globals `globals`. -/
structure FunctionDef.Ok (sigs : Signatures) (globals : TypeScope) (f : FunctionDef) : Prop where
  notVoid : ∀ p ∈ f.params, p.type ≠ .void
  distinct : (f.params.map Param.name).Nodup
  body : ∃ Γ, Stmt.ListOk sigs f.returns false [f.paramScope, globals] f.body Γ
  returns : f.returns ≠ .void → f.name ≠ mainName → Stmt.listReturnsValue f.body = true

/-- Top-level items, and the globals declared before and after them. -/
inductive Item.ListOk (sigs : Signatures) : TypeScope → List Item → TypeScope → Prop where
  | nil {globals : TypeScope} : Item.ListOk sigs globals [] globals
  | global {globals after : TypeScope} {d : VarDecl} {rest : List Item} (ok : d.Ok sigs [globals])
    (tail : Item.ListOk sigs ((d.name, d.type) :: globals) rest after) :
    Item.ListOk sigs globals (.global d :: rest) after
  | function {globals after : TypeScope} {f : FunctionDef} {rest : List Item}
    (ok : f.Ok sigs globals) (tail : Item.ListOk sigs globals rest after) :
    Item.ListOk sigs globals (.function f :: rest) after

/-- A program that keeps the static rules. -/
structure Program.Ok (p : Program) : Prop where
  distinct : (p.functions.map FunctionDef.name).Nodup
  notBuiltin : ∀ f ∈ p.functions, isBuiltin f.name = false
  items : ∃ globals, Item.ListOk p.signatures [] p.items globals

end Primer
