import Mathlib.Logic.Relation
import Primer.Proofs.Machine.Call
import Primer.Proofs.Typing.Program

/-!
# The points of a run

A run evaluates expressions inside expressions and executes statements inside statements, and calls
take it from the middle of an expression into the body of a function. A point is one moment of that
kind: what is about to be evaluated or executed, the machine it starts on, and the state in which the
checker looked at the same piece of the program.

- `Point.Enters` is one step inwards or onwards: from a piece to a part of it that is evaluated, on
  the machine that the parts before it left behind.
- `Program.Starts` are the points at which a run begins: the declaration of a global, after the ones
  before it are initialised, and the body of `main`, after all of them.
- `Program.Reaches` are all points that a run comes to.

The checker goes over the same parts in source order, once, so entering a part moves its state over
the parts before it. Fuel plays no role: a part that was evaluated before is evaluated with some fuel.
-/

namespace Primer

/-- A piece of a program that a run evaluates or executes. -/
inductive Task where
  | expr (e : Expr)
  | exprs (es : List Expr)
  | declare (d : VarDecl)
  | stmt (s : Stmt)
  | stmts (body : List Stmt)
  /-- The rounds of a loop from here on. -/
  | loop (cond step : Option Expr) (body : Stmt)
  /-- Case groups, executed after the first `start` ones. -/
  | groups (start : Nat) (groups : List CaseGroup)

/-- What a run does with a piece, apart from the value it comes to. -/
def Task.run (call : Call) (fuel : Nat) : Task → Run Unit
  | .expr e => Functor.discard (Run.eval call e)
  | .exprs es => Functor.discard (Run.evalAll call es)
  | .declare d => Run.declare call d
  | .stmt s => Functor.discard (Run.exec call fuel s)
  | .stmts body => Functor.discard (Run.execAll call fuel body)
  | .loop cond step body => Functor.discard
      (Run.loop (Run.guard call cond) (Run.exec call fuel body) (Run.effect call step) fuel)
  | .groups start gs => Functor.discard (Run.execFrom call fuel start gs)

/-- A moment of a run. -/
structure Point where
  /-- The state in which the piece is checked. -/
  checker : Checker
  /-- Whether the checker takes the piece for reachable. -/
  reachable : Bool
  task : Task
  machine : Machine

/-- With enough fuel the computation gives a value. -/
def Context.Gives {α : Type} (ctx : Context) (x : Call → Nat → Run α) (m : Machine) (a : α)
    (m' : Machine) : Prop :=
  ∃ fuel, x (ctx.calls fuel) fuel m = .value a m'

/-- The second operand is evaluated after a first one with the value `a`. -/
def BinaryOp.Continues (op : BinaryOp) (a : Value) : Prop :=
  (op = .and → ∃ n, a.integer? = some n ∧ n ≠ 0) ∧ (op = .or → a.integer? = some 0)

/-- A machine with a scope opened. -/
def Machine.pushScope (m : Machine) : Machine :=
  { m with env := m.env.pushScope }

open Check in
/-- From a piece of a program to a part of it that is evaluated or executed next. -/
inductive Point.Enters (p : Program) (ctx : Context) : Point → Point → Prop where
  | assigned {c : Checker} {r : Bool} {name : String} {value : Expr} {pos : Position} {m : Machine} :
    Enters p ctx ⟨c, r, .expr (.assign name value pos), m⟩ ⟨c, r, .expr value, m⟩
  | operand {c : Checker} {r : Bool} {op : UnaryOp} {e : Expr} {pos : Position} {m : Machine} :
    Enters p ctx ⟨c, r, .expr (.unary op e pos), m⟩ ⟨c, r, .expr e, m⟩
  | left {c : Checker} {r : Bool} {op : BinaryOp} {e e' : Expr} {pos : Position} {m : Machine} :
    Enters p ctx ⟨c, r, .expr (.binary op e e' pos), m⟩ ⟨c, r, .expr e, m⟩
  | right {c : Checker} {r : Bool} {op : BinaryOp} {e e' : Expr} {pos : Position} {m m' : Machine}
    {a : Value} (first : ctx.Gives (fun call _ => Run.eval call e) m a m') (cont : op.Continues a) :
    Enters p ctx ⟨c, r, .expr (.binary op e e' pos), m⟩ ⟨after (value e) c, r, .expr e', m'⟩
  | args {c : Checker} {r : Bool} {name : String} {es : List Expr} {pos : Position} {m : Machine} :
    Enters p ctx ⟨c, r, .expr (.call name es pos), m⟩ ⟨c, r, .exprs es, m⟩
  /-- The body of a function is checked where the function stands in the program. -/
  | call {c : Checker} {r : Bool} {name : String} {es : List Expr} {pos : Position}
    {m m₁ m₂ : Machine} {vs : List Value} {f : FunctionDef} {before rest : List Item}
    (evaluated : ctx.Gives (fun call _ => Run.evalAll call es) m vs m₁)
    (notPrint : name ≠ printName) (meant : ctx.function? name = some f)
    (entered : ctx.enter f vs pos m₁ = .value () m₂)
    (item : p.items = before ++ .function f :: rest) :
    Enters p ctx ⟨c, r, .expr (.call name es pos), m⟩
      ⟨(Checker.atItem p before).enterFunction f, true, .stmts f.body, m₂⟩
  | first {c : Checker} {r : Bool} {e : Expr} {es : List Expr} {m : Machine} :
    Enters p ctx ⟨c, r, .exprs (e :: es), m⟩ ⟨c, r, .expr e, m⟩
  | others {c : Checker} {r : Bool} {e : Expr} {es : List Expr} {m m' : Machine} {v : Value}
    (evaluated : ctx.Gives (fun call _ => Run.eval call e) m v m') :
    Enters p ctx ⟨c, r, .exprs (e :: es), m⟩ ⟨after (value e) c, r, .exprs es, m'⟩
  | initial {c : Checker} {r : Bool} {d : VarDecl} {e : Expr} {m : Machine} (init : d.init = some e) :
    Enters p ctx ⟨c, r, .declare d, m⟩ ⟨c, r, .expr e, m⟩
  | declare {c : Checker} {r : Bool} {d : VarDecl} {m : Machine} :
    Enters p ctx ⟨c, r, .stmt (.declare d), m⟩ ⟨c, r, .declare d, m⟩
  | eval {c : Checker} {r : Bool} {e : Expr} {pos : Position} {m : Machine} :
    Enters p ctx ⟨c, r, .stmt (.eval e pos), m⟩ ⟨c, r, .expr e, m⟩
  | block {c : Checker} {r : Bool} {body : List Stmt} {pos : Position} {m : Machine} :
    Enters p ctx ⟨c, r, .stmt (.block body pos), m⟩ ⟨c.pushScope, r, .stmts body, m.pushScope⟩
  | condition {c : Checker} {r : Bool} {e : Expr} {s : Stmt} {s? : Option Stmt} {pos : Position}
    {m : Machine} :
    Enters p ctx ⟨c, r, .stmt (.branch e s s? pos), m⟩ ⟨c, r, .expr e, m⟩
  | onTrue {c : Checker} {r : Bool} {e : Expr} {s : Stmt} {s? : Option Stmt} {pos : Position}
    {m m' : Machine} (holds : ctx.Gives (fun call _ => Run.condition call e) m true m') :
    Enters p ctx ⟨c, r, .stmt (.branch e s s? pos), m⟩
      ⟨after (Check.condition e) c, r, .stmt s, m'⟩
  | onFalse {c : Checker} {r : Bool} {e : Expr} {s s' : Stmt} {pos : Position} {m m' : Machine}
    (fails : ctx.Gives (fun call _ => Run.condition call e) m false m') :
    Enters p ctx ⟨c, r, .stmt (.branch e s (some s') pos), m⟩
      ⟨after (Check.stmt r s) (after (Check.condition e) c), r, .stmt s', m'⟩
  | whileLoop {c : Checker} {r : Bool} {e : Expr} {s : Stmt} {pos : Position} {m : Machine} :
    Enters p ctx ⟨c, r, .stmt (.whileLoop e s pos), m⟩ ⟨c, r, .loop (some e) none s, m⟩
  | forDeclare {c : Checker} {r : Bool} {d : VarDecl} {cond step : Option Expr} {s : Stmt}
    {pos : Position} {m : Machine} :
    Enters p ctx ⟨c, r, .stmt (.forLoop (some (.declare d)) cond step s pos), m⟩
      ⟨c.pushScope, r, .declare d, m.pushScope⟩
  | forEval {c : Checker} {r : Bool} {e : Expr} {cond step : Option Expr} {s : Stmt}
    {pos : Position} {m : Machine} :
    Enters p ctx ⟨c, r, .stmt (.forLoop (some (.eval e)) cond step s pos), m⟩
      ⟨c.pushScope, r, .expr e, m.pushScope⟩
  | forLoop {c : Checker} {r : Bool} {init : Option ForInit} {cond step : Option Expr} {s : Stmt}
    {pos : Position} {m m' : Machine}
    (initialised : ctx.Gives (fun call _ => Run.forInit call init) m.pushScope () m') :
    Enters p ctx ⟨c, r, .stmt (.forLoop init cond step s pos), m⟩
      ⟨after (forInit init) c.pushScope, r, .loop cond step s, m'⟩
  | guard {c : Checker} {r : Bool} {e : Expr} {step : Option Expr} {s : Stmt} {m : Machine} :
    Enters p ctx ⟨c, r, .loop (some e) step s, m⟩ ⟨c, r, .expr e, m⟩
  | round {c : Checker} {r : Bool} {cond step : Option Expr} {s : Stmt} {m m' : Machine}
    (holds : ctx.Gives (fun call _ => Run.guard call cond) m true m') :
    Enters p ctx ⟨c, r, .loop cond step s, m⟩
      ⟨(after (effect step) (after (Check.guard cond) c)).inLoop, r, .stmt s, m'⟩
  | step {c : Checker} {r : Bool} {cond : Option Expr} {e : Expr} {s : Stmt} {m m₁ m₂ : Machine}
    (holds : ctx.Gives (fun call _ => Run.guard call cond) m true m₁)
    (executed : ctx.Gives (fun call fuel => Run.exec call fuel s) m₁ .normal m₂) :
    Enters p ctx ⟨c, r, .loop cond (some e) s, m⟩ ⟨after (Check.guard cond) c, r, .expr e, m₂⟩
  | again {c : Checker} {r : Bool} {cond step : Option Expr} {s : Stmt} {m m₁ m₂ m₃ : Machine}
    (holds : ctx.Gives (fun call _ => Run.guard call cond) m true m₁)
    (executed : ctx.Gives (fun call fuel => Run.exec call fuel s) m₁ .normal m₂)
    (stepped : ctx.Gives (fun call _ => Run.effect call step) m₂ () m₃) :
    Enters p ctx ⟨c, r, .loop cond step s, m⟩ ⟨c, r, .loop cond step s, m₃⟩
  | scrutinee {c : Checker} {r : Bool} {e : Expr} {gs : List CaseGroup} {pos : Position}
    {m : Machine} :
    Enters p ctx ⟨c, r, .stmt (.switch e gs pos), m⟩ ⟨c, r, .expr e, m⟩
  | switch {c : Checker} {r : Bool} {e : Expr} {gs : List CaseGroup} {pos : Position}
    {m m' : Machine} {v : Value} {key : Int64} {start : Nat}
    (evaluated : ctx.Gives (fun call _ => Run.eval call e) m v m') (integer : v.integer? = some key)
    (found : Run.startOf? key gs = some start) :
    Enters p ctx ⟨c, r, .stmt (.switch e gs pos), m⟩
      ⟨(after (do let t ← Check.scrutinee e; labels t [] false gs) c).inLoop, r,
        .groups start gs, m'⟩
  | skip {c : Checker} {r : Bool} {start : Nat} {label : Option CaseLabel} {body : List Stmt}
    {pos : Position} {gs : List CaseGroup} {m : Machine} :
    Enters p ctx ⟨c, r, .groups (start + 1) (.mk label body pos :: gs), m⟩
      ⟨after (stmts r body) c, r, .groups start gs, m⟩
  | group {c : Checker} {r : Bool} {label : Option CaseLabel} {body : List Stmt} {pos : Position}
    {gs : List CaseGroup} {m : Machine} :
    Enters p ctx ⟨c, r, .groups 0 (.mk label body pos :: gs), m⟩ ⟨c, r, .stmts body, m⟩
  | fallThrough {c : Checker} {r : Bool} {label : Option CaseLabel} {body : List Stmt}
    {pos : Position} {gs : List CaseGroup} {m m' : Machine}
    (executed : ctx.Gives (fun call fuel => Run.execAll call fuel body) m .normal m') :
    Enters p ctx ⟨c, r, .groups 0 (.mk label body pos :: gs), m⟩
      ⟨after (stmts r body) c, r, .groups 0 gs, m'⟩
  | returned {c : Checker} {r : Bool} {e : Expr} {pos : Position} {m : Machine} :
    Enters p ctx ⟨c, r, .stmt (.ret (some e) pos), m⟩ ⟨c, r, .expr e, m⟩
  | head {c : Checker} {r : Bool} {s : Stmt} {rest : List Stmt} {m : Machine} :
    Enters p ctx ⟨c, r, .stmts (s :: rest), m⟩ ⟨c, r, .stmt s, m⟩
  | tail {c : Checker} {r : Bool} {s : Stmt} {rest : List Stmt} {m m' : Machine}
    (executed : ctx.Gives (fun call fuel => Run.exec call fuel s) m .normal m') :
    Enters p ctx ⟨c, r, .stmts (s :: rest), m⟩
      ⟨after (Check.stmt r s) c, r && ((Check.stmt r s).run c).1 == .continues, .stmts rest, m'⟩

/-- The points at which a run begins to work on a piece of the program by itself. The globals among
the items `done` are initialised by then. -/
inductive Program.Starts (p : Program) (ctx : Context) : (done : List Item) → Point → Prop where
  | global {before rest : List Item} {d : VarDecl} {m : Machine}
    (item : p.items = before ++ .global d :: rest)
    (initialised : ctx.Gives (fun call _ => Run.declareAll call (Item.globals before)) .fresh () m) :
    Starts p ctx before ⟨Checker.atItem p before, true, .declare d, m⟩
  | main {before rest : List Item} {f : FunctionDef} {m m' : Machine}
    (initialised : ctx.Gives (fun call _ => Run.declareAll call p.globals) .fresh () m)
    (meant : p.function? mainName = some f) (noParams : f.params.isEmpty = true)
    (item : p.items = before ++ .function f :: rest)
    (entered : ctx.enter f [] f.pos m = .value () m') :
    Starts p ctx p.items
      ⟨(Checker.atItem p before).enterFunction f, true, .stmts f.body, m'⟩

/-- The points that a run comes to while the globals among the items `done`, and no others, are
initialised. -/
def Program.Reaches (p : Program) (ctx : Context) (done : List Item) (x : Point) : Prop :=
  ∃ start, p.Starts ctx done start ∧ Relation.ReflTransGen (Point.Enters p ctx) start x

end Primer
