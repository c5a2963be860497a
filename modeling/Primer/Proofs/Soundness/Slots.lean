import Primer.Proofs.Machine.Values
import Primer.Proofs.Soundness.Checked

/-!
# Variables hold values of their types

A host may use a context without any check: it declares variables, evaluates expressions, executes
statements and calls functions, one step after the other, and goes on after a step that failed. Whatever
it does, every variable holds a value of its declared type at every moment. And if all characters that it
passes in and all character constants are ASCII characters, no other character is ever stored, returned
or printed.

- `Move` is one step of a host; `Context.After` says on which machine some steps end.
- `Context.Passes`: the points that the last of some steps comes to. `Context.States` are all machines on
  the way and `Context.Deals` the values that are come across.
- `Point.Enters.within` is about one step inwards, `Context.Passes.within` about all of them.
- `slots_typed_and_ascii` is the statement about all sequences of steps.
-/

namespace Primer

/-! ## Steps of a host -/

/-- A step that a host takes with a context. -/
inductive Move where
  | declare (d : VarDecl)
  | eval (e : Expr)
  | exec (s : Stmt)
  | call (f : FunctionDef) (args : List Value) (pos : Position)

namespace Move

/-- The constants in the piece of a program that a step brings along. -/
def literals : Move → List Literal
  | .declare d => d.literals
  | .eval e => e.literals
  | .exec s => s.literals
  | .call f _ _ => f.literals

/-- The values that are passed in. -/
def args : Move → List Value
  | .call _ args _ => args
  | .declare _ | .eval _ | .exec _ => []

/-- What a step does, with the value that it hands back, if there is one. -/
def run (ctx : Context) (fuel : Nat) : Move → Run (Option Value)
  | .declare d => do
    Run.declare (ctx.calls fuel) d
    return none
  | .eval e => do
    let v ← Run.eval (ctx.calls fuel) e
    return some v
  | .exec s => do
    match ← Run.exec (ctx.calls fuel) fuel s with
    | .ret v => return some v
    | .normal | .brk => return none
  | .call f args pos => do
    let v ← ctx.call fuel f args pos
    return some v

/-- The piece that a step begins with, and the machine on which it does so. -/
inductive Starts (ctx : Context) (m : Machine) : Move → Task → Machine → Prop where
  | declare {d : VarDecl} : Starts ctx m (.declare d) (.declare d) m
  | eval {e : Expr} : Starts ctx m (.eval e) (.expr e) m
  | exec {s : Stmt} : Starts ctx m (.exec s) (.stmt s) m
  | call {f : FunctionDef} {args : List Value} {pos : Position} {m' : Machine}
    (entered : ctx.enter f args pos m = .value () m') : Starts ctx m (.call f args pos) (.stmts f.body) m'

end Move

namespace Context

/-- The steps, taken one after the other on a fresh machine, end on the machine. A step may end with an
error. -/
inductive After (ctx : Context) : List Move → Machine → Prop where
  | fresh : After ctx [] .fresh
  | step {moves : List Move} {move : Move} {fuel : Nat} {m m' : Machine} (before : After ctx moves m)
    (ended : (move.run ctx fuel m).machine? = some m') : After ctx (moves ++ [move]) m'

/-- The machine that steps end on, if all of them end with the fuel. -/
def runAll (ctx : Context) (fuel : Nat) (m : Machine) (moves : List Move) : Option Machine :=
  moves.foldlM (fun m move => (move.run ctx fuel m).machine?) m

theorem After.runAll {ctx : Context} {fuel : Nat} {before moves : List Move} {m m' : Machine}
    (h : ctx.After before m) (hrun : ctx.runAll fuel m moves = some m') :
    ctx.After (before ++ moves) m' := by
  induction moves generalizing before m with
  | nil =>
    cases hrun
    rw [List.append_nil]
    exact h
  | cons move moves ih =>
    obtain ⟨m₁, hmove, hmoves⟩ := Option.bind_eq_some_iff.mp hrun
    rw [List.append_cons]
    exact ih (h.step hmove) hmoves

/-- The points that the last of the steps comes to, whether it ends or not. -/
inductive Passes (p : Program) (ctx : Context) : List Move → Point → Prop where
  | start {moves : List Move} {move : Move} {m m' : Machine} {task : Task} {c : Checker} {r : Bool}
    (before : After ctx moves m) (starts : move.Starts ctx m task m') :
    Passes p ctx (moves ++ [move]) ⟨c, r, task, m'⟩
  | enter {moves : List Move} {x y : Point} (before : Passes p ctx moves x)
    (enters : Point.Enters p ctx x y) : Passes p ctx moves y

/-- The machines that the steps lead to: where they have ended, at the points of the last one, and where
what begins at such a point has ended. -/
inductive States (p : Program) (ctx : Context) : List Move → Machine → Prop where
  | between {moves : List Move} {m : Machine} (after : After ctx moves m) : States p ctx moves m
  | point {moves : List Move} {x : Point} (passes : Passes p ctx moves x) : States p ctx moves x.machine
  | left {moves : List Move} {x : Point} {fuel : Nat} {m : Machine} (passes : Passes p ctx moves x)
    (ended : (x.task.run (ctx.calls fuel) fuel x.machine).machine? = some m) : States p ctx moves m

/-- The values that the steps come across: an expression evaluates to one, a print call is given one, or
the last step hands one back. -/
inductive Deals (p : Program) (ctx : Context) : List Move → Value → Prop where
  | evaluated {moves : List Move} {c : Checker} {r : Bool} {e : Expr} {fuel : Nat} {v : Value}
    {m m' : Machine} (passes : Passes p ctx moves ⟨c, r, .expr e, m⟩)
    (evaluates : Run.eval (ctx.calls fuel) e m = .value v m') : Deals p ctx moves v
  | printed {moves : List Move} {c : Checker} {r : Bool} {args : List Expr} {pos : Position} {fuel : Nat}
    {vs : List Value} {v : Value} {m m' : Machine}
    (passes : Passes p ctx moves ⟨c, r, .expr (.call printName args pos), m⟩)
    (evaluate : Run.evalAll (ctx.calls fuel) args m = .value vs m') (mem : v ∈ vs) : Deals p ctx moves v
  | returned {moves : List Move} {move : Move} {fuel : Nat} {v : Value} {m m' : Machine}
    (before : After ctx moves m) (handsBack : move.run ctx fuel m = .value (some v) m') :
    Deals p ctx (moves ++ [move]) v

end Context

/-! ## Staying within a set of values -/

variable {α : Type} {V : Value → Prop} {p : Program} {ctx : Context}

/-- The constants in a piece of a program. -/
def Task.literals : Task → List Literal
  | .expr e => e.literals
  | .exprs es => Expr.listLiterals es
  | .declare d => d.literals
  | .stmt s => s.literals
  | .stmts body => Stmt.listLiterals body
  | .loop cond step body => Expr.optionLiterals cond ++ (Expr.optionLiterals step ++ body.literals)
  | .groups _ gs => CaseGroup.listLiterals gs

/-- The machine and the constants of the piece are within the set. -/
structure Point.Within (V : Value → Prop) (x : Point) : Prop where
  machine : x.machine.Within V
  literals : ∀ l ∈ x.task.literals, V (.ofLiteral l)

/-- The constants and the values that a step brings along are in the set. -/
structure Move.Within (V : Value → Prop) (move : Move) : Prop where
  literals : ∀ l ∈ move.literals, V (.ofLiteral l)
  args : ∀ v ∈ move.args, V v

theorem Run.Within.discard {P : α → Prop} {x : Run α} (h : Run.Within V P x) :
    Run.Within V (fun _ => True) (Functor.discard x : Run Unit) :=
  h.bind fun _ _ => Run.value_within trivial

theorem Run.Within.value {P : α → Prop} {x : Run α} (hx : Run.Within V P x) {m m' : Machine}
    (hm : m.Within V) {a : α} (h : x m = .value a m') : P a ∧ m'.Within V := by
  have hwithin := hx m hm
  rw [h] at hwithin
  exact hwithin

theorem Run.Within.machine? {P : α → Prop} {x : Run α} (hx : Run.Within V P x) {m m' : Machine}
    (hm : m.Within V) (h : (x m).machine? = some m') : m'.Within V := by
  have hwithin := hx m hm
  cases hxm : x m with
  | value a m₁ =>
    rw [hxm] at h hwithin
    cases h
    exact hwithin.2
  | error e m₁ =>
    rw [hxm] at h hwithin
    cases h
    exact hwithin
  | pending =>
    rw [hxm] at h
    cases h

theorem Context.Gives.within {P : α → Prop} {x : Call → Nat → Run α} {m m' : Machine} {a : α}
    (h : ctx.Gives x m a m') (hx : ∀ fuel, Run.Within V P (x (ctx.calls fuel) fuel)) (hm : m.Within V) :
    P a ∧ m'.Within V := by
  obtain ⟨fuel, hvalue⟩ := h
  exact (hx fuel).value hm hvalue

theorem Move.Starts.within {move : Move} {task : Task} {m m' : Machine} (hV : Value.Closed V)
    (h : move.Starts ctx m task m') (hmove : move.Within V) (hm : m.Within V) {c : Checker} {r : Bool} :
    Point.Within V ⟨c, r, task, m'⟩ := by
  obtain ⟨hl, hargs⟩ := hmove
  cases h with
  | declare | eval | exec => exact ⟨hm, hl⟩
  | call entered => exact ⟨((Context.enter_within hV hargs _ _).value hm entered).2, hl⟩

section Closed

variable (hV : Value.Closed V) (hctx : ctx.LiteralsIn V)

include hV hctx

theorem Task.run_within (fuel : Nat) : ∀ task : Task, (∀ l ∈ task.literals, V (.ofLiteral l)) →
    Run.Within V (fun _ => True) (task.run (ctx.calls fuel) fuel) := by
  have hcall := Context.calls_within hV hctx fuel
  intro task h
  cases task with
  | expr e => exact (Run.eval_within hV hcall e h).discard
  | exprs es => exact (Run.evalAll_within hV hcall es h).discard
  | declare d => exact Run.declare_within hV hcall h
  | stmt s => exact (Run.exec_within hV hcall fuel s h).discard
  | stmts body => exact (Run.execAll_within hV hcall fuel body h).discard
  | loop cond step body =>
    rw [Task.literals, List.forall_mem_append, List.forall_mem_append] at h
    exact (Run.loop_within (Run.guard_within hV hcall h.1) (Run.exec_within hV hcall fuel body h.2.2)
      (Run.effect_within hV hcall h.2.1) fuel).discard
  | groups start gs => exact (Run.execFrom_within hV hcall fuel start gs h).discard

theorem Move.run_within (fuel : Nat) {move : Move} (h : move.Within V) :
    Run.Within V (fun v? => ∀ v ∈ v?, V v) (move.run ctx fuel) := by
  have hcall := Context.calls_within hV hctx fuel
  obtain ⟨hl, hargs⟩ := h
  have hnone : Run.Within V (fun v? : Option Value => ∀ v ∈ v?, V v) (pure none) :=
    Run.value_within fun _ hv => (nomatch hv)
  have hsome : ∀ v, V v → Run.Within V (fun v? : Option Value => ∀ v ∈ v?, V v) (pure (some v)) := by
    refine fun v hv => Run.value_within ?_
    rintro _ ⟨⟩
    exact hv
  cases move with
  | declare d => exact (Run.declare_within hV hcall hl).bind fun _ _ => hnone
  | eval e => exact (Run.eval_within hV hcall e hl).bind hsome
  | exec s =>
    refine (Run.exec_within hV hcall fuel s hl).bind fun flow hflow => ?_
    cases flow with
    | ret v => exact hsome v (hflow v rfl)
    | normal | brk => exact hnone
  | call f args pos => exact (Context.call_within hV hctx fuel hl args pos hargs).bind hsome

/-- A step inwards stays within the set. -/
theorem Point.Enters.within {x y : Point} (h : Point.Enters p ctx x y) (hx : x.Within V) :
    y.Within V := by
  have hcall := Context.calls_within hV hctx
  obtain ⟨hm, hl⟩ := hx
  cases h with
  -- the machine stays as it is
  | assigned | operand | args | declare | eval | whileLoop | returned => exact ⟨hm, hl⟩
  | left | first | guard | scrutinee | group | head => exact ⟨hm, (List.forall_mem_append.mp hl).1⟩
  | skip => exact ⟨hm, (List.forall_mem_append.mp hl).2⟩
  | initial init =>
    refine ⟨hm, ?_⟩
    rw [Task.literals, VarDecl.literals, init] at hl
    exact hl
  | condition => exact ⟨hm, (Stmt.forall_mem_branch_literals hl).1⟩
  -- a scope is opened
  | block => exact ⟨hm.pushScope, hl⟩
  | forDeclare | forEval => exact ⟨hm.pushScope, (List.forall_mem_append.mp hl).1⟩
  -- something was evaluated or executed before
  | right first cont =>
    obtain ⟨hleft, hright⟩ := List.forall_mem_append.mp hl
    exact ⟨(first.within (fun fuel => Run.eval_within hV (hcall fuel) _ hleft) hm).2, hright⟩
  | others evaluated =>
    obtain ⟨he, hes⟩ := List.forall_mem_append.mp hl
    exact ⟨(evaluated.within (fun fuel => Run.eval_within hV (hcall fuel) _ he) hm).2, hes⟩
  | onTrue holds =>
    obtain ⟨he, hs, -⟩ := Stmt.forall_mem_branch_literals hl
    exact ⟨(holds.within (fun fuel => Run.condition_within hV (hcall fuel) he) hm).2, hs⟩
  | onFalse fails =>
    obtain ⟨he, -, hs⟩ := Stmt.forall_mem_branch_literals hl
    exact ⟨(fails.within (fun fuel => Run.condition_within hV (hcall fuel) he) hm).2, hs _ rfl⟩
  | forLoop initialised =>
    obtain ⟨hinit, hloop⟩ := List.forall_mem_append.mp hl
    exact ⟨(initialised.within (fun fuel => Run.forInit_within hV (hcall fuel) hinit) hm.pushScope).2,
      hloop⟩
  | round holds =>
    obtain ⟨hcond, hrest⟩ := List.forall_mem_append.mp hl
    exact ⟨(holds.within (fun fuel => Run.guard_within hV (hcall fuel) hcond) hm).2,
      (List.forall_mem_append.mp hrest).2⟩
  | step holds executed =>
    obtain ⟨hcond, hrest⟩ := List.forall_mem_append.mp hl
    obtain ⟨hstep, hs⟩ := List.forall_mem_append.mp hrest
    have h₁ := (holds.within (fun fuel => Run.guard_within hV (hcall fuel) hcond) hm).2
    exact ⟨(executed.within (fun fuel => Run.exec_within hV (hcall fuel) fuel _ hs) h₁).2, hstep⟩
  | again holds executed stepped =>
    obtain ⟨hcond, hrest⟩ := List.forall_mem_append.mp hl
    obtain ⟨hstep, hs⟩ := List.forall_mem_append.mp hrest
    have h₁ := (holds.within (fun fuel => Run.guard_within hV (hcall fuel) hcond) hm).2
    have h₂ := (executed.within (fun fuel => Run.exec_within hV (hcall fuel) fuel _ hs) h₁).2
    exact ⟨(stepped.within (fun fuel => Run.effect_within hV (hcall fuel) hstep) h₂).2, hl⟩
  | switch evaluated =>
    obtain ⟨he, hgroups⟩ := List.forall_mem_append.mp hl
    exact ⟨(evaluated.within (fun fuel => Run.eval_within hV (hcall fuel) _ he) hm).2, hgroups⟩
  | fallThrough executed =>
    obtain ⟨hbody, hrest⟩ := List.forall_mem_append.mp hl
    exact ⟨(executed.within (fun fuel => Run.execAll_within hV (hcall fuel) fuel _ hbody) hm).2, hrest⟩
  | tail executed =>
    obtain ⟨hs, hrest⟩ := List.forall_mem_append.mp hl
    exact ⟨(executed.within (fun fuel => Run.exec_within hV (hcall fuel) fuel _ hs) hm).2, hrest⟩
  -- the arguments of a call were evaluated and bound in a new frame
  | call evaluated _ meant entered =>
    obtain ⟨hargs, h₁⟩ := evaluated.within (fun fuel => Run.evalAll_within hV (hcall fuel) _ hl) hm
    have h₂ := ((Context.enter_within hV hargs _ _).value h₁ entered).2
    exact ⟨h₂, hctx _ (List.mem_of_find?_eq_some meant)⟩

/-! ## All steps -/

namespace Context

variable {moves : List Move}

theorem After.within {m : Machine} (h : ctx.After moves m) (hmoves : ∀ move ∈ moves, move.Within V) :
    m.Within V := by
  induction h with
  | fresh => exact Environment.all_empty
  | step before ended ih =>
    obtain ⟨hbefore, hlast⟩ := List.forall_mem_append.mp hmoves
    have hmove := hlast _ (List.mem_singleton_self _)
    exact (Move.run_within hV hctx _ hmove).machine? (ih hbefore) ended

theorem Passes.within {x : Point} (h : ctx.Passes p moves x) (hmoves : ∀ move ∈ moves, move.Within V) :
    x.Within V := by
  induction h with
  | start before starts =>
    obtain ⟨hbefore, hlast⟩ := List.forall_mem_append.mp hmoves
    have hmove := hlast _ (List.mem_singleton_self _)
    exact starts.within hV hmove (before.within hV hctx hbefore)
  | enter before enters ih => exact enters.within hV hctx (ih hmoves)

theorem States.within {m : Machine} (h : ctx.States p moves m) (hmoves : ∀ move ∈ moves, move.Within V) :
    m.Within V := by
  cases h with
  | between after => exact after.within hV hctx hmoves
  | point passes => exact (passes.within hV hctx hmoves).machine
  | left passes ended =>
    obtain ⟨hm, hl⟩ := passes.within hV hctx hmoves
    exact (Task.run_within hV hctx _ _ hl).machine? hm ended

theorem Deals.within {v : Value} (h : ctx.Deals p moves v) (hmoves : ∀ move ∈ moves, move.Within V) :
    V v := by
  cases h with
  | evaluated passes evaluates =>
    obtain ⟨hm, hl⟩ := passes.within hV hctx hmoves
    exact ((Run.eval_within hV (calls_within hV hctx _) _ hl).value hm evaluates).1
  | printed passes evaluate mem =>
    obtain ⟨hm, hl⟩ := passes.within hV hctx hmoves
    exact ((Run.evalAll_within hV (calls_within hV hctx _) _ hl).value hm evaluate).1 v mem
  | returned before handsBack =>
    obtain ⟨hbefore, hlast⟩ := List.forall_mem_append.mp hmoves
    have hmove := hlast _ (List.mem_singleton_self _)
    have hm := before.within hV hctx hbefore
    exact ((Move.run_within hV hctx _ hmove).value hm handsBack).1 v rfl

end Context

end Closed

/-- Whatever steps are taken with the context of a program, checked or not, every variable holds a value of
its declared type at every moment. If the character constants of the program and of the steps are ASCII
characters, and the characters that are passed in are too, then so are all characters that are stored,
returned and printed. -/
theorem slots_typed_and_ascii (p : Program) (maxDepth : Nat) (sink : Sink) (moves : List Move) :
    (∀ m, (Context.ofProgram p maxDepth sink).States p moves m →
      ∀ s ∈ m.env.slots, s.value.type = s.type) ∧
    ((∀ l ∈ p.literals, (Value.ofLiteral l).Ascii) →
      (∀ move ∈ moves, (∀ l ∈ move.literals, (Value.ofLiteral l).Ascii) ∧ ∀ v ∈ move.args, v.Ascii) →
      (∀ m, (Context.ofProgram p maxDepth sink).States p moves m → ∀ s ∈ m.env.slots, s.value.Ascii) ∧
      ∀ v, (Context.ofProgram p maxDepth sink).Deals p moves v → v.Ascii) := by
  constructor
  · intro m hm s hs
    have hmoves : ∀ move ∈ moves, move.Within fun _ => True :=
      fun _ _ => ⟨fun _ _ => trivial, fun _ _ => trivial⟩
    have hwithin := hm.within Value.closed_all (fun _ _ _ _ => trivial) hmoves
    exact (hwithin.slots s hs).typed
  · intro hp hgiven
    have hctx : (Context.ofProgram p maxDepth sink).LiteralsIn Value.Ascii := by
      intro f hf l hl
      have hf' : f ∈ p.functions := List.mem_reverse.mp hf
      exact hp l (List.mem_append_right _ (List.mem_flatMap.mpr ⟨f, hf', hl⟩))
    have hmoves : ∀ move ∈ moves, move.Within Value.Ascii := by
      intro move hmove
      obtain ⟨hl, hargs⟩ := hgiven move hmove
      exact ⟨hl, hargs⟩
    constructor
    · intro m hm s hs
      exact ((hm.within Value.closed_ascii hctx hmoves).slots s hs).value
    · intro v hv
      exact hv.within Value.closed_ascii hctx hmoves

/-- A function that stores its argument in the global `last` and returns it. -/
def keepLast : FunctionDef where
  name := "keep"
  params := [⟨"c", .char, .start⟩]
  returns := .char
  body := [.ret (some (.assign "last" (.var "c" .start) .start)) .start]
  bodyPos := .start
  pos := .start

def keepLastProgram : Program :=
  ⟨"p", [.global ⟨.char, "last", some (.literal (.char 97) .start), .start⟩, .function keepLast], .start⟩

/-- The global is declared, and an integer is assigned to it, which fails. -/
def keepLastSetup : List Move :=
  [.declare ⟨.char, "last", some (.literal (.char 97) .start), .start⟩,
    .exec (.eval (.assign "last" (.literal (.int 5) .start) .start) .start)]

/-- After that the function is called. -/
theorem keepLast_typed_and_ascii :
    let ctx := Context.ofProgram keepLastProgram 4 .unbounded
    let moves := keepLastSetup ++ [.call keepLast [.char 98] .start]
    ∃ m, ctx.States keepLastProgram moves m ∧ m.env.slots = [⟨.char, .char 98⟩] ∧
      ctx.Deals keepLastProgram moves (.char 98) ∧
      (∀ s ∈ m.env.slots, s.value.type = s.type) ∧
      (∀ s ∈ m.env.slots, s.value.Ascii) ∧ ∀ v, ctx.Deals keepLastProgram moves v → v.Ascii := by
  intro ctx moves
  have hsteps : ((ctx.runAll 1 .fresh keepLastSetup).bind fun m =>
      match Move.run ctx 1 (.call keepLast [.char 98] .start) m with
      | .value v m => some (v, m.env.slots)
      | _ => none) = some (some (.char 98), [⟨.char, .char 98⟩]) := by decide +kernel
  obtain ⟨m, hsetup, hcall⟩ := Option.bind_eq_some_iff.mp hsteps
  have hafter := Context.After.fresh.runAll hsetup
  split at hcall
  · next v m' hvalue =>
    obtain ⟨rfl, hslots⟩ := Prod.mk.inj (Option.some.inj hcall)
    have hstate : ctx.States keepLastProgram moves m' := .between (.step hafter (by rw [hvalue]; rfl))
    obtain ⟨htyped, hascii⟩ := slots_typed_and_ascii keepLastProgram 4 .unbounded moves
    obtain ⟨hstored, hdealt⟩ := hascii (by decide) (by decide)
    exact ⟨m', hstate, hslots, .returned hafter hvalue, htyped m' hstate, hstored m' hstate, hdealt⟩
  · cases hcall

end Primer
