import Primer.Machine.Run
import Primer.Proofs.Machine.Outcome
import Primer.Proofs.Tree.Shape

/-!
# Relations that execution respects

Many statements compare two runs of the same piece of a program under two meanings of calls: with
different fuel, under different limits, with different sinks. Each such statement is a relation
between computations, and its proof goes through the syntax in the same way: the relation holds of the
few computations that execution starts from, and it is kept by the ways of putting computations
together. `Run.Congruence` asks for exactly that, and the induction on the syntax is done here once.

- `Run.Immediate` computations give a value or an error at once and leave the machine alone;
  `Run.Plain` ones are those whose error is about the values at hand.
- `Run.EvalCongruence` asks for what evaluation needs, `Run.Congruence` for what statements need
  besides: that declarations and scopes are related too.
- `Run.EvalCongruence.eval`, `Run.Congruence.exec`: a congruence that relates two meanings of calls
  relates whatever is evaluated or executed with them.
- `Run.Congruence.exec_of_loops`: loops have to be related only for statements that hold one.
- `Run.ClosedCongruence.exec`: a closer relation, which declarations break, relates the statements that
  declare nothing in the scope around them.
- `Run.EvalCongruence.loops`: it relates loops of related parts, given the same fuel.
- `Run.EvalCongruence.dispatch`: it relates calls by name, if it relates calls of functions.
-/

namespace Primer

/-- Errors about the values at hand, or about a name that no function has. -/
def RuntimeError.isPlain : RuntimeError → Bool
  | .type _ _ | .arithmetic _ _ | .format _ _ | .unknownFunction _ _ => true
  | _ => false

namespace Run

variable {α β : Type}

/-! ## Computations that leave the machine alone -/

/-- The computation is a value or an error, whatever the machine. -/
inductive Immediate : Run α → Prop where
  | value (a : α) : Immediate (pure a)
  | error (e : RuntimeError) : Immediate (fail e)

/-- The computation is a value or a plain error, whatever the machine. -/
inductive Plain : Run α → Prop where
  | value (a : α) : Plain (pure a)
  | error {e : RuntimeError} (plain : e.isPlain = true) : Plain (fail e)

theorem Plain.immediate {x : Run α} (h : Plain x) : Immediate x := by
  cases h with
  | value a => exact .value a
  | error _ => exact .error _

theorem orFail_immediate (a? : Option α) (e : RuntimeError) : Immediate (orFail a? e) := by
  cases a? with
  | some a => exact .value a
  | none => exact .error e

theorem orFail_plain (a? : Option α) {e : RuntimeError} (h : e.isPlain = true) :
    Plain (orFail a? e) := by
  cases a? with
  | some a => exact .value a
  | none => exact .error h

theorem coerce_plain (v : Value) (type : Ty) (pos : Position) : Plain (coerce v type pos) :=
  orFail_plain _ rfl

theorem arithmetic_plain (result : Except ArithmeticFault Int64) (pos : Position) :
    Plain (arithmetic result pos) := by
  cases result with
  | ok n => exact .value _
  | error fault => exact .error rfl

theorem unary_plain (op : UnaryOp) (v : Value) (pos : Position) : Plain (unary op v pos) := by
  unfold unary
  cases v.integer? with
  | some a => exact arithmetic_plain _ pos
  | none => exact .error rfl

theorem binary_plain (op : BinaryOp) (left right : Value) (pos : Position) :
    Plain (binary op left right pos) := by
  unfold binary
  cases left.integer? with
  | none => exact .error rfl
  | some a =>
    cases right.integer? with
    | none => exact .error rfl
    | some b => exact arithmetic_plain _ pos

theorem truth_plain (v : Value) (pos : Position) : Plain (truth v pos) := by
  unfold truth
  cases v.integer? with
  | some n => exact .value _
  | none => exact .error rfl

theorem switchKey_plain (v : Value) (pos : Position) : Plain (switchKey v pos) :=
  orFail_plain _ rfl

theorem result_immediate (f : FunctionDef) (flow : Flow) (pos : Position) :
    Immediate (result f flow pos) := by
  unfold result
  split
  · exact .value _
  · cases flow with
    | ret v => exact (coerce_plain v f.returns pos).immediate
    | normal =>
      show Immediate (if f.name = mainName then pure _ else fail _)
      split
      · exact .value _
      · exact .error _
    | brk =>
      show Immediate (if f.name = mainName then pure _ else fail _)
      split
      · exact .value _
      · exact .error _

theorem Plain.bind {x : Run α} {f : α → Run β} (hx : Plain x) (hf : ∀ a, Plain (f a)) :
    Plain (x >>= f) := by
  cases hx with
  | value a => exact hf a
  | error plain => exact .error plain

theorem coerceArgs_plain (pos : Position) :
    ∀ (params : List Param) (args : List Value), Plain (coerceArgs pos params args)
  | [], _ => .value []
  | _ :: _, [] => .value []
  | param :: params, v :: args => by
    rw [coerceArgs]
    exact (coerce_plain v param.type pos).bind fun stored =>
      (coerceArgs_plain pos params args).bind fun rest => .value _

/-- A print call has nothing to print, or hands a text to the sink. -/
theorem print_cases (args : List Value) (pos : Position) :
    (∃ e, e.isPlain = true ∧ ∀ sink, print sink args pos = fail e) ∨
      ∃ fmt vs text, args = .string fmt :: vs ∧ format fmt vs = .ok text ∧
        ∀ sink, print sink args pos = write sink text pos >>= fun _ => pure .void := by
  unfold print
  split
  · split
    · exact .inr ⟨_, _, _, rfl, ‹_›, fun _ => rfl⟩
    · exact .inl ⟨_, rfl, fun _ => rfl⟩
  · exact .inl ⟨_, rfl, fun _ => rfl⟩

/-! ## Congruences -/

/-- A relation between computations that holds of the basic ones in expressions and is kept by putting
computations in a row. -/
structure EvalCongruence (R : ∀ {α : Type}, Run α → Run α → Prop) : Prop where
  plain : ∀ {α : Type} {x : Run α}, Plain x → R x x
  read : ∀ name pos, R (readVar name pos) (readVar name pos)
  assign : ∀ name v pos, R (assignVar name v pos) (assignVar name v pos)
  seq : ∀ {α β : Type} {x y : Run α} {f g : α → Run β}, R x y → (∀ a, R (f a) (g a)) →
    R (x >>= f) (y >>= g)

/-- A relation between computations that holds of the basic ones and is kept by putting computations
together. -/
structure Congruence (R : ∀ {α : Type}, Run α → Run α → Prop) : Prop extends EvalCongruence R where
  define : ∀ name type v, R (define name type v) (define name type v)
  scope : ∀ {α : Type} {x y : Run α}, R x y → R (inScope x) (inScope y)

variable {R : ∀ {α : Type}, Run α → Run α → Prop} {call call' : Call}

/-- The relation holds between two meanings of every call. -/
def Congruence.Calls (R : ∀ {α : Type}, Run α → Run α → Prop) (call call' : Call) : Prop :=
  ∀ name args pos, R (call name args pos) (call' name args pos)

/-- The relation is kept by loops with the given fuel on either side. -/
def Congruence.Loops (R : ∀ {α : Type}, Run α → Run α → Prop) (fuel fuel' : Nat) : Prop :=
  ∀ ⦃guard guard' : Run Bool⦄ ⦃body body' : Run Flow⦄ ⦃step step' : Run Unit⦄,
    R guard guard' → R body body' → R step step' →
      R (loop guard body step fuel) (loop guard' body' step' fuel')

namespace EvalCongruence

open Congruence (Calls Loops)

theorem value (h : EvalCongruence R) (a : α) : R (pure a : Run α) (pure a) :=
  h.plain (.value a)

mutual

theorem eval (h : EvalCongruence R) (hcall : Calls @R call call') :
    ∀ e : Expr, R (Run.eval call e) (Run.eval call' e)
  | .literal value pos => by
    rw [Run.eval, Run.eval]
    exact h.value _
  | .var name pos => by
    rw [Run.eval, Run.eval]
    exact h.read name pos
  | .assign name value pos => by
    rw [Run.eval, Run.eval]
    exact h.seq (eval h hcall value) fun v => h.assign name v pos
  | .unary op operand pos => by
    rw [Run.eval, Run.eval]
    exact h.seq (eval h hcall operand) fun v => h.plain (unary_plain op v pos)
  | .binary op left right pos => by
    have hleft := eval h hcall left
    have hright := eval h hcall right
    -- the second operand of `&&` and `||` is evaluated only if the first does not decide
    cases op with
    | and =>
      rw [Run.eval, Run.eval]
      refine h.seq hleft fun a => h.seq (h.plain (truth_plain a _)) fun p => ?_
      cases p with
      | true =>
        exact h.seq hright fun b => h.seq (h.plain (truth_plain b _)) fun q => h.value _
      | false => exact h.value _
    | or =>
      rw [Run.eval, Run.eval]
      refine h.seq hleft fun a => h.seq (h.plain (truth_plain a _)) fun p => ?_
      cases p with
      | true => exact h.value _
      | false =>
        exact h.seq hright fun b => h.seq (h.plain (truth_plain b _)) fun q => h.value _
    | _ =>
      rw [Run.eval, Run.eval]
      · exact h.seq hleft fun a => h.seq hright fun b => h.plain (binary_plain _ a b pos)
      all_goals exact fun h => nomatch h
  | .call name args pos => by
    rw [Run.eval, Run.eval]
    exact h.seq (evalAll h hcall args) fun vs => hcall name vs pos

theorem evalAll (h : EvalCongruence R) (hcall : Calls @R call call') :
    ∀ es : List Expr, R (Run.evalAll call es) (Run.evalAll call' es)
  | [] => by
    rw [Run.evalAll, Run.evalAll]
    exact h.value _
  | e :: es => by
    rw [Run.evalAll, Run.evalAll]
    exact h.seq (eval h hcall e) fun v => h.seq (evalAll h hcall es) fun vs => h.value _

end

section Expressions

variable (h : EvalCongruence R) (hcall : Calls @R call call')

include h hcall

theorem condition (e : Expr) : R (Run.condition call e) (Run.condition call' e) :=
  h.seq (h.eval hcall e) fun v => h.plain (truth_plain v e.pos)

theorem guard : ∀ e? : Option Expr, R (Run.guard call e?) (Run.guard call' e?)
  | none => h.value true
  | some e => h.condition hcall e

theorem effect : ∀ e? : Option Expr, R (Run.effect call e?) (Run.effect call' e?)
  | none => h.value ()
  | some e => h.seq (h.eval hcall e) fun _ => h.value ()

end Expressions

/-- A loop goes on with one unit of fuel less. -/
theorem loops_succ (h : EvalCongruence R) {fuel fuel' : Nat} (hloops : Loops @R fuel fuel') :
    Loops @R (fuel + 1) (fuel' + 1) := by
  intro guard guard' body body' step step' hguard hbody hstep
  rw [loop, loop]
  refine h.seq hguard fun b => ?_
  cases b with
  | false => exact h.value _
  | true =>
    refine h.seq hbody fun flow => ?_
    cases flow with
    | normal => exact h.seq hstep fun _ => hloops hguard hbody hstep
    | brk => exact h.value _
    | ret v => exact h.value _

theorem loops (h : EvalCongruence R) (hpending : R (pending : Run Flow) pending) :
    ∀ fuel : Nat, Loops @R fuel fuel
  | 0 => by
    intro guard guard' body body' step step' _ _ _
    exact hpending
  | fuel + 1 => h.loops_succ (loops h hpending fuel)

/-- Printing is related, if handing texts to the sinks is. -/
theorem print (h : EvalCongruence R) {sink sink' : Sink}
    (hwrite : ∀ text pos, R (write sink text pos) (write sink' text pos)) (args : List Value)
    (pos : Position) : R (Run.print sink args pos) (Run.print sink' args pos) := by
  rcases print_cases args pos with ⟨e, hplain, hfail⟩ | ⟨fmt, vs, text, -, -, hprint⟩
  · rw [hfail sink, hfail sink']
    exact h.plain (.error hplain)
  · rw [hprint sink, hprint sink']
    exact h.seq (hwrite text pos) fun _ => h.value _

/-- Calls by name are related in contexts with the same functions, if handing texts to the sinks and
calls of these functions are. -/
theorem dispatch_of_mem (h : EvalCongruence R) {ctx ctx' : Context}
    {enter enter' : FunctionDef → List Value → Position → Run Value}
    (hfunctions : ctx'.functions = ctx.functions)
    (hwrite : ∀ text pos, R (write ctx.sink text pos) (write ctx'.sink text pos))
    (henter : ∀ f ∈ ctx.functions, ∀ args pos, R (enter f args pos) (enter' f args pos)) :
    Calls @R (ctx.dispatch enter) (ctx'.dispatch enter') := by
  intro name args pos
  unfold Context.dispatch Context.function?
  rw [hfunctions]
  split
  · exact h.print hwrite args pos
  · cases hf : ctx.functions.find? fun f => f.name == name with
    | none => exact h.plain (.error rfl)
    | some f => exact henter f (List.mem_of_find?_eq_some hf) args pos

theorem dispatch (h : EvalCongruence R) {ctx ctx' : Context}
    {enter enter' : FunctionDef → List Value → Position → Run Value}
    (hfunctions : ctx'.functions = ctx.functions)
    (hwrite : ∀ text pos, R (write ctx.sink text pos) (write ctx'.sink text pos))
    (henter : ∀ f args pos, R (enter f args pos) (enter' f args pos)) :
    Calls @R (ctx.dispatch enter) (ctx'.dispatch enter') :=
  h.dispatch_of_mem hfunctions hwrite fun f _ => henter f

end EvalCongruence

namespace Congruence

section Declarations

variable (h : Congruence R) (hcall : Calls @R call call')

include h hcall

theorem declare (d : VarDecl) : R (Run.declare call d) (Run.declare call' d) := by
  unfold Run.declare
  cases d.init with
  | none => exact h.define d.name d.type _
  | some e =>
    exact h.seq (h.eval hcall e) fun v => h.seq (h.plain (coerce_plain v d.type e.pos))
      fun stored => h.define d.name d.type stored

theorem declareAll : ∀ ds : List VarDecl, R (Run.declareAll call ds) (Run.declareAll call' ds)
  | [] => h.value ()
  | d :: ds => h.seq (h.declare hcall d) fun _ => declareAll ds

theorem forInit : ∀ init : Option ForInit, R (Run.forInit call init) (Run.forInit call' init)
  | none => h.value ()
  | some (.declare d) => h.declare hcall d
  | some (.eval e) => h.seq (h.eval hcall e) fun _ => h.value ()

end Declarations

theorem bindParams (h : Congruence R) :
    ∀ (params : List Param) (args : List Value), R (Run.bindParams params args) (Run.bindParams params args)
  | [], _ => h.value ()
  | _ :: _, [] => h.value ()
  | param :: params, v :: args => by
    rw [Run.bindParams]
    exact h.seq (h.define param.name param.type v) fun _ => bindParams h params args

mutual

theorem exec_of_loops (h : Congruence R) (hcall : Calls @R call call') {fuel fuel' : Nat} :
    ∀ s : Stmt, (s.hasLoop = true → Loops @R fuel fuel') →
      R (Run.exec call fuel s) (Run.exec call' fuel' s)
  | .declare d, _ => by
    rw [Run.exec, Run.exec]
    exact h.seq (h.declare hcall d) fun _ => h.value _
  | .eval e pos, _ => by
    rw [Run.exec, Run.exec]
    exact h.seq (h.eval hcall e) fun _ => h.value _
  | .block body pos, hloops => by
    rw [Run.exec, Run.exec]
    -- only a part with a loop in it asks for loops to be related, and then so does the whole
    exact h.scope (execAll_of_loops h hcall body fun hb => hloops (by rw [Stmt.hasLoop, hb]))
  | .branch cond onTrue none pos, hloops => by
    rw [Run.exec, Run.exec]
    refine h.seq (h.condition hcall cond) fun b => ?_
    cases b with
    | true => exact exec_of_loops h hcall onTrue fun ht => hloops (by rw [Stmt.hasLoop, ht])
    | false => exact h.value _
  | .branch cond onTrue (some onFalse) pos, hloops => by
    rw [Run.exec, Run.exec]
    refine h.seq (h.condition hcall cond) fun b => ?_
    cases b with
    | true =>
      exact exec_of_loops h hcall onTrue fun ht => hloops (by rw [Stmt.hasLoop, ht, Bool.true_or])
    | false =>
      exact exec_of_loops h hcall onFalse fun hf => hloops (by rw [Stmt.hasLoop, hf, Bool.or_true])
  | .whileLoop cond body pos, hloops => by
    rw [Run.exec, Run.exec]
    have hloop := hloops (by rw [Stmt.hasLoop])
    -- the body may hold loops of its own, for which the hypothesis is there anyway
    exact hloop (h.condition hcall cond) (exec_of_loops h hcall body fun _ => hloop) (h.value ())
  | .forLoop init cond step body pos, hloops => by
    rw [Run.exec, Run.exec]
    have hloop := hloops (by rw [Stmt.hasLoop])
    refine h.scope (h.seq (h.forInit hcall init) fun _ => ?_)
    exact hloop (h.guard hcall cond) (exec_of_loops h hcall body fun _ => hloop) (h.effect hcall step)
  | .switch e groups pos, hloops => by
    rw [Run.exec, Run.exec]
    refine h.seq (h.eval hcall e) fun v => h.seq (h.plain (switchKey_plain v e.pos)) fun key => ?_
    cases startOf? key groups with
    | none => exact h.value _
    | some start =>
      exact execFrom_of_loops h hcall start groups fun hg => hloops (by rw [Stmt.hasLoop, hg])
  | .ret (some e) pos, _ => by
    rw [Run.exec, Run.exec]
    exact h.seq (h.eval hcall e) fun _ => h.value _
  | .ret none pos, _ => by
    rw [Run.exec, Run.exec]
    exact h.value _
  | .brk pos, _ => by
    rw [Run.exec, Run.exec]
    exact h.value _

theorem execAll_of_loops (h : Congruence R) (hcall : Calls @R call call') {fuel fuel' : Nat} :
    ∀ body : List Stmt, (Stmt.listHasLoop body = true → Loops @R fuel fuel') →
      R (Run.execAll call fuel body) (Run.execAll call' fuel' body)
  | [], _ => by
    rw [Run.execAll, Run.execAll]
    exact h.value _
  | s :: rest, hloops => by
    rw [Run.execAll, Run.execAll]
    have hfirst := exec_of_loops h hcall s fun hs => hloops (by rw [Stmt.listHasLoop, hs, Bool.true_or])
    refine h.seq hfirst fun flow => ?_
    cases flow with
    | normal =>
      exact execAll_of_loops h hcall rest fun hr => hloops (by rw [Stmt.listHasLoop, hr, Bool.or_true])
    | brk => exact h.value _
    | ret v => exact h.value _

theorem execFrom_of_loops (h : Congruence R) (hcall : Calls @R call call') {fuel fuel' : Nat} :
    ∀ (start : Nat) (groups : List CaseGroup),
      (CaseGroup.listHasLoop groups = true → Loops @R fuel fuel') →
        R (Run.execFrom call fuel start groups) (Run.execFrom call' fuel' start groups)
  | start, [], _ => by
    -- loops in the groups are loops of the whole, so what is known of all of them is passed on
    cases start <;> exact h.value _
  | start + 1, .mk _ _ _ :: rest, hloops => by
    rw [Run.execFrom, Run.execFrom]
    refine execFrom_of_loops h hcall start rest fun hr => hloops ?_
    rw [CaseGroup.listHasLoop, hr, Bool.or_true]
  | 0, .mk label body pos :: rest, hloops => by
    rw [Run.execFrom, Run.execFrom]
    have hgroup := execAll_of_loops h hcall body fun hb =>
      hloops (by rw [CaseGroup.listHasLoop, hb, Bool.true_or])
    refine h.seq hgroup fun flow => ?_
    cases flow with
    | normal =>
      refine execFrom_of_loops h hcall 0 rest fun hr => hloops ?_
      rw [CaseGroup.listHasLoop, hr, Bool.or_true]
    | brk => exact h.value _
    | ret v => exact h.value _

end

section Loops

variable (h : Congruence R) (hcall : Calls @R call call') {fuel fuel' : Nat}
  (hloops : Loops @R fuel fuel')

include h hcall hloops

theorem exec (s : Stmt) : R (Run.exec call fuel s) (Run.exec call' fuel' s) :=
  h.exec_of_loops hcall s fun _ => hloops

theorem execAll (body : List Stmt) : R (Run.execAll call fuel body) (Run.execAll call' fuel' body) :=
  h.execAll_of_loops hcall body fun _ => hloops

theorem execFrom (start : Nat) (groups : List CaseGroup) :
    R (Run.execFrom call fuel start groups) (Run.execFrom call' fuel' start groups) :=
  h.execFrom_of_loops hcall start groups fun _ => hloops

end Loops

end Congruence

/-! ## Statements that declare nothing around them -/

/-- A relation `Q` that execution respects, and a closer one `R`, which need not hold of declarations
but comes back when a scope is closed. -/
structure ClosedCongruence (R Q : ∀ {α : Type}, Run α → Run α → Prop) : Prop
    extends EvalCongruence R where
  inner : Congruence Q
  weaken : ∀ {α : Type} {x y : Run α}, R x y → Q x y
  enclose : ∀ {α : Type} {x y : Run α}, Q x y → R (inScope x) (inScope y)
  pending : R (pending : Run Flow) pending

namespace ClosedCongruence

open Congruence (Calls Loops)

variable {Q : ∀ {α : Type}, Run α → Run α → Prop}

theorem innerCalls (h : ClosedCongruence R Q) (hcall : Calls @R call call') : Calls @Q call call' :=
  fun name args pos => h.weaken (hcall name args pos)

theorem innerLoops (h : ClosedCongruence R Q) (fuel : Nat) : Loops @Q fuel fuel :=
  h.inner.loops (h.weaken h.pending) fuel

mutual

theorem exec (h : ClosedCongruence R Q) (hcall : Calls @R call call') {fuel : Nat} :
    ∀ s : Stmt, s.Closed → R (Run.exec call fuel s) (Run.exec call' fuel s)
  | .declare d, hs => by simp [Stmt.Closed] at hs
  | .eval e pos, _ => by
    rw [Run.exec, Run.exec]
    exact h.seq (h.eval hcall e) fun _ => h.value _
  -- declarations in the block break the closer relation, which comes back when its scope is closed
  | .block body pos, _ => by
    rw [Run.exec, Run.exec]
    exact h.enclose (h.inner.execAll (h.innerCalls hcall) (h.innerLoops fuel) body)
  | .branch cond onTrue none pos, hs => by
    simp only [Stmt.Closed] at hs
    rw [Run.exec, Run.exec]
    refine h.seq (h.condition hcall cond) fun b => ?_
    cases b with
    | true => exact exec h hcall onTrue hs
    | false => exact h.value _
  | .branch cond onTrue (some onFalse) pos, hs => by
    simp only [Stmt.Closed] at hs
    rw [Run.exec, Run.exec]
    refine h.seq (h.condition hcall cond) fun b => ?_
    cases b with
    | true => exact exec h hcall onTrue hs.1
    | false => exact exec h hcall onFalse hs.2
  | .whileLoop cond body pos, hs => by
    simp only [Stmt.Closed] at hs
    rw [Run.exec, Run.exec]
    exact h.loops h.pending fuel (h.condition hcall cond) (exec h hcall body hs) (h.value ())
  | .forLoop init cond step body pos, _ => by
    rw [Run.exec, Run.exec]
    have hinner := h.innerCalls hcall
    have hloops := h.innerLoops fuel
    -- the first clause may declare a variable, so the loop is related as it stands inside its scope
    refine h.enclose (h.inner.seq (h.inner.forInit hinner init) fun _ => ?_)
    exact hloops (h.inner.guard hinner cond) (h.inner.exec hinner hloops body)
      (h.inner.effect hinner step)
  | .switch e groups pos, hs => by
    simp only [Stmt.Closed] at hs
    rw [Run.exec, Run.exec]
    refine h.seq (h.eval hcall e) fun v => h.seq (h.plain (switchKey_plain v e.pos)) fun key => ?_
    cases startOf? key groups with
    | none => exact h.value _
    | some start => exact execFrom h hcall start groups hs
  | .ret (some e) pos, _ => by
    rw [Run.exec, Run.exec]
    exact h.seq (h.eval hcall e) fun _ => h.value _
  | .ret none pos, _ => by
    rw [Run.exec, Run.exec]
    exact h.value _
  | .brk pos, _ => by
    rw [Run.exec, Run.exec]
    exact h.value _

theorem execAll (h : ClosedCongruence R Q) (hcall : Calls @R call call') {fuel : Nat} :
    ∀ body : List Stmt, Stmt.ListClosed body → R (Run.execAll call fuel body) (Run.execAll call' fuel body)
  | [], _ => by
    rw [Run.execAll, Run.execAll]
    exact h.value _
  | s :: rest, hs => by
    simp only [Stmt.ListClosed] at hs
    rw [Run.execAll, Run.execAll]
    refine h.seq (exec h hcall s hs.1) fun flow => ?_
    cases flow with
    | normal => exact execAll h hcall rest hs.2
    | brk => exact h.value _
    | ret v => exact h.value _

theorem execFrom (h : ClosedCongruence R Q) (hcall : Calls @R call call') {fuel : Nat} :
    ∀ (start : Nat) (groups : List CaseGroup), CaseGroup.ListClosed groups →
      R (Run.execFrom call fuel start groups) (Run.execFrom call' fuel start groups)
  | start, [], _ => by
    cases start <;> exact h.value _
  | start + 1, .mk _ _ _ :: rest, hs => by
    simp only [CaseGroup.ListClosed] at hs
    rw [Run.execFrom, Run.execFrom]
    exact execFrom h hcall start rest hs.2
  | 0, .mk label body pos :: rest, hs => by
    simp only [CaseGroup.ListClosed] at hs
    rw [Run.execFrom, Run.execFrom]
    refine h.seq (execAll h hcall body hs.1) fun flow => ?_
    cases flow with
    | normal => exact execFrom h hcall 0 rest hs.2
    | brk => exact h.value _
    | ret v => exact h.value _

end

end ClosedCongruence

end Run

end Primer
