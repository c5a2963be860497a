import Primer.Proofs.Machine.Results
import Primer.Proofs.Soundness.Checked
import Primer.Proofs.Soundness.Parts

/-!
# Where the effects of a run come from

A run prints a text, or stops because a variable is missing: such an effect is the doing of one point
that the run comes to. Reading a variable, storing a value in one and printing are the only steps that
bring it about; everything else puts such steps together.

- `Run.Traceable` is what has to hold of an effect for this argument. An effect is given as a property
  of a computation and the machine it starts on.
- `Point.Origin`: the effect comes about at this point.
- `Program.traces_of_execute`: an effect of a run comes about at a point that the run comes to.
-/

namespace Primer

/-! ## Errors of another kind -/

/-- The computation never stops with an unknown variable. -/
abbrev Run.FindsAll {α : Type} (x : Run α) : Prop :=
  FailsWith (fun e => e.isUnknownVariable = false) x

theorem RuntimeError.isUnknownVariable_of_isPlain (e : RuntimeError) (h : e.isPlain = true) :
    e.isUnknownVariable = false := by
  cases e with
  | unknownVariable name pos => cases h
  | _ => rfl

namespace Run

variable {α β : Type}

theorem Plain.findsAll {x : Run α} (h : Plain x) : FindsAll x :=
  h.failsWith RuntimeError.isUnknownVariable_of_isPlain

end Run

/-! ## Effects -/

/-- An effect that a computation has on a machine, which it owes to one of its parts. -/
structure Run.Traceable (D : ∀ {α : Type}, Run α → Machine → Prop) : Prop where
  /-- No effect of a value or an error, unless a variable is missing. -/
  immediate : ∀ {α : Type} {x : Run α} {m : Machine}, Immediate x → FindsAll x → ¬ D x m
  env : ∀ {m : Machine}, ¬ D env m
  modify : ∀ {f : Environment → Environment} {m : Machine}, ¬ D (modifyEnv f) m
  record : ∀ {e : Event} {m : Machine}, e.printed? = none → ¬ D (record e) m
  flush : ∀ {sink : Sink} {pos : Position} {m : Machine}, ¬ D (flush sink pos) m
  pending : ∀ {α : Type} {m : Machine}, ¬ D (pending : Run α) m
  seq : ∀ {α β : Type} {x : Run α} {f : α → Run β} {m : Machine}, D (x >>= f) m →
    D x m ∨ ∃ a m₁, x m = .value a m₁ ∧ D (f a) m₁
  closing : ∀ {α : Type} {close : Environment → Environment} {x : Run α} {m : Machine},
    D (closing close x) m → D x m

/-- The effect comes about at the point: a variable is read, or a value is stored or printed. What is
stored or printed is evaluated by then. -/
inductive Point.Origin (ctx : Context) (D : ∀ {α : Type}, Run α → Machine → Prop) : Point → Prop where
  | read {c : Checker} {r : Bool} {name : String} {pos : Position} {m : Machine}
    (effect : D (Run.readVar name pos) m) : Origin ctx D ⟨c, r, .expr (.var name pos), m⟩
  | store {c : Checker} {r : Bool} {name : String} {value : Expr} {pos : Position} {v : Value}
    {m m' : Machine} (evaluated : ctx.Gives (fun call _ => Run.eval call value) m v m')
    (effect : D (Run.assignVar name v pos) m') :
    Origin ctx D ⟨c, r, .expr (.assign name value pos), m⟩
  | print {c : Checker} {r : Bool} {args : List Expr} {pos : Position} {vs : List Value}
    {m m' : Machine} (evaluated : ctx.Gives (fun call _ => Run.evalAll call args) m vs m')
    (effect : D (Run.print ctx.sink vs pos) m') :
    Origin ctx D ⟨c, r, .expr (.call printName args pos), m⟩

/-- The run comes from the point to one where the effect comes about. -/
def Point.Traces (p : Program) (ctx : Context) (D : ∀ {α : Type}, Run α → Machine → Prop) (x : Point) :
    Prop :=
  ∃ y, Relation.ReflTransGen (Point.Enters p ctx) x y ∧ y.Origin ctx @D

section

variable {α β : Type} {D : ∀ {α : Type}, Run α → Machine → Prop} {p : Program} {ctx : Context}
  {k fuel : Nat} {c : Checker} {r : Bool} {m m' : Machine}

theorem Point.Traces.of_enters {x y : Point} (h : y.Traces p ctx @D) (hs : Point.Enters p ctx x y) :
    x.Traces p ctx @D := by
  obtain ⟨z, hsteps, horigin⟩ := h
  exact ⟨z, .head hs hsteps, horigin⟩

/-- Calls with this fuel have the effect by printing, or inside the body of a function. -/
def Context.CallsTrace (p : Program) (ctx : Context) (D : ∀ {α : Type}, Run α → Machine → Prop)
    (fuel : Nat) : Prop :=
  ∀ f? vs pos m, D (ctx.calls fuel f? vs pos) m →
    (f? = printName ∧ D (Run.print ctx.sink vs pos) m) ∨
      f? ≠ printName ∧ ∃ f before rest m₂, ctx.function? f? = some f ∧
        p.items = before ++ .function f :: rest ∧ ctx.enter f vs pos m = .value () m₂ ∧
        Point.Traces p ctx @D ⟨(Checker.atItem p before).enterFunction f, true, .stmts f.body, m₂⟩

namespace Run

namespace Traceable

variable (hD : Traceable @D)

include hD

theorem value {a : α} : ¬ D (pure a : Run α) m :=
  hD.immediate (.value a) (pure_failsWith a)

theorem error {e : RuntimeError} (h : e.isUnknownVariable = false) : ¬ D (fail e : Run α) m :=
  hD.immediate (.error e) (fail_failsWith h)

theorem plain {x : Run α} (h : Plain x) : ¬ D x m :=
  hD.immediate h.immediate h.findsAll

/-- The value of a computation is used for nothing that could have the effect. -/
theorem seq_left {x : Run α} {f : α → Run β} (h : D (x >>= f) m) (hf : ∀ a m, ¬ D (f a) m) : D x m := by
  rcases hD.seq h with hx | ⟨a, m₁, -, ha⟩
  · exact hx
  · exact absurd ha (hf a m₁)

theorem scope {x : Run α} (h : D (inScope x) m) : D x m.pushScope := by
  rcases hD.seq h with hpush | ⟨_, m₁, hpush, hx⟩
  · exact absurd hpush hD.modify
  · cases hpush
    exact hD.closing hx

theorem bindParams : ∀ (params : List Param) (args : List Value) {m : Machine},
    ¬ D (bindParams params args) m
  | [], _, m => hD.value
  | _ :: _, [], m => hD.value
  | param :: params, v :: args, m => by
    intro h
    exact hD.modify (hD.seq_left h fun _ _ => bindParams params args)

/-- Entering a function has no effect. -/
theorem enter {f : FunctionDef} {args : List Value} {pos : Position} :
    ¬ D (ctx.enter f args pos) m := by
  intro h
  refine hD.env (hD.seq_left h fun env m₁ => ?_)
  split
  · exact hD.error rfl
  · split
    · exact hD.error rfl
    · intro h
      refine hD.plain (coerceArgs_plain pos f.params args) (hD.seq_left h fun stored m₂ h => ?_)
      refine hD.modify (hD.seq_left h fun _ m₃ h => ?_)
      refine hD.env (hD.seq_left h fun _ m₄ h => ?_)
      exact hD.record rfl (hD.seq_left h fun _ m₅ => hD.bindParams f.params stored)

end Traceable

theorem truth_eq_value {a : Value} {pos : Position} {b : Bool} (h : truth a pos m = .value b m') :
    m' = m ∧ ∃ n, a.integer? = some n ∧ b = (n != 0) := by
  unfold truth at h
  cases hn : a.integer? with
  | none =>
    rw [hn] at h
    cases h
  | some n =>
    rw [hn] at h
    cases h
    exact ⟨rfl, n, rfl, rfl⟩

theorem orFail_eq_value {a? : Option α} {e : RuntimeError} {a : α} (h : orFail a? e m = .value a m') :
    m' = m ∧ a? = some a := by
  cases a? with
  | none => cases h
  | some a₁ =>
    cases h
    exact ⟨rfl, rfl⟩

/-- Infix operators: the effect comes about in one of the operands. -/
theorem binary_traces (hD : Traceable @D) {op : BinaryOp} {left right : Expr} {pos : Position}
    (hleft : ∀ {c r m}, D (eval (ctx.calls k) left) m → Point.Traces p ctx @D ⟨c, r, .expr left, m⟩)
    (hright : ∀ {c r m}, D (eval (ctx.calls k) right) m → Point.Traces p ctx @D ⟨c, r, .expr right, m⟩)
    (h : D (eval (ctx.calls k) (.binary op left right pos)) m) :
    Point.Traces p ctx @D ⟨c, r, .expr (.binary op left right pos), m⟩ := by
  -- the second operand of `&&` and `||` counts as a truth value
  have htruth : ∀ a pos m, ¬ D (truth a pos) m :=
    fun a pos _ => hD.plain (truth_plain a pos)
  have hsecond : ∀ {c r m}, D (eval (ctx.calls k) right >>= fun b => truth b right.pos >>= fun t =>
      (pure (.ofBool t) : Run Value)) m → Point.Traces p ctx @D ⟨c, r, .expr right, m⟩ := by
    intro c r m h
    refine hright (hD.seq_left h fun b m₁ h₁ => ?_)
    exact htruth b right.pos m₁ (hD.seq_left h₁ fun _ _ => hD.value)
  cases op with
  | and =>
    rcases hD.seq h with hl | ⟨a, m₁, hl, h₁⟩
    · exact (hleft hl).of_enters .left
    rcases hD.seq h₁ with ht | ⟨b, m₂, ht, h₂⟩
    · exact absurd ht (htruth a left.pos m₁)
    obtain ⟨rfl, n, hn, rfl⟩ := truth_eq_value ht
    by_cases hz : n = 0
    · subst hz
      exact absurd h₂ hD.value
    · rw [show (n != 0) = true by simp [hz], if_pos rfl] at h₂
      have cont : BinaryOp.and.Continues a := ⟨fun _ => ⟨n, hn, hz⟩, fun h => nomatch h⟩
      exact (hsecond h₂).of_enters (.right ⟨k, hl⟩ cont)
  | or =>
    rcases hD.seq h with hl | ⟨a, m₁, hl, h₁⟩
    · exact (hleft hl).of_enters .left
    rcases hD.seq h₁ with ht | ⟨b, m₂, ht, h₂⟩
    · exact absurd ht (htruth a left.pos m₁)
    obtain ⟨rfl, n, hn, rfl⟩ := truth_eq_value ht
    by_cases hz : n = 0
    · subst hz
      have cont : BinaryOp.or.Continues a := ⟨fun h => (nomatch h), fun _ => hn⟩
      exact (hsecond h₂).of_enters (.right ⟨k, hl⟩ cont)
    · rw [show (n != 0) = true by simp [hz], if_pos rfl] at h₂
      exact absurd h₂ hD.value
  | _ =>
    rcases hD.seq h with hl | ⟨a, m₁, hl, h₁⟩
    · exact (hleft hl).of_enters .left
    have hr := hD.seq_left h₁ fun b _ => hD.plain (binary_plain _ a b pos)
    refine (hright hr).of_enters (.right ⟨k, hl⟩ ?_)
    constructor <;> rintro ⟨⟩

mutual

/-- An effect of an expression. -/
theorem eval_traces (hD : Traceable @D) (hcall : Context.CallsTrace p ctx @D k) :
    ∀ (e : Expr) {c : Checker} {r : Bool} {m : Machine}, D (eval (ctx.calls k) e) m →
      Point.Traces p ctx @D ⟨c, r, .expr e, m⟩
  | .literal value pos, c, r, m, h => absurd h hD.value
  | .var name pos, c, r, m, h => ⟨_, .refl, .read h⟩
  | .assign name value pos, c, r, m, h => by
    rcases hD.seq h with hv | ⟨v, m₁, hv, hassign⟩
    · exact (eval_traces hD hcall value hv).of_enters .assigned
    · exact ⟨_, .refl, .store ⟨k, hv⟩ hassign⟩
  | .unary op operand pos, c, r, m, h => by
    have hv := hD.seq_left h fun v _ => hD.plain (unary_plain op v pos)
    exact (eval_traces hD hcall operand hv).of_enters .operand
  | .binary op left right pos, c, r, m, h =>
    binary_traces hD (eval_traces hD hcall left) (eval_traces hD hcall right) h
  | .call f? args pos, c, r, m, h => by
    rcases hD.seq h with ha | ⟨vs, m₁, ha, h₁⟩
    · exact (evalAll_traces hD hcall args ha).of_enters .args
    -- `print` is no function: the effect is that of the call itself, and not of a body
    rcases hcall f? vs pos m₁ h₁ with ⟨rfl, hprint⟩ | ⟨hne, hfunction⟩
    · exact ⟨_, .refl, .print ⟨k, ha⟩ hprint⟩
    · obtain ⟨f, before, rest, m₂, hf, hitem, henter, hbody⟩ := hfunction
      exact hbody.of_enters (.call ⟨k, ha⟩ hne hf henter hitem)

theorem evalAll_traces (hD : Traceable @D) (hcall : Context.CallsTrace p ctx @D k) :
    ∀ (es : List Expr) {c : Checker} {r : Bool} {m : Machine}, D (evalAll (ctx.calls k) es) m →
      Point.Traces p ctx @D ⟨c, r, .exprs es, m⟩
  | [], c, r, m, h => absurd h hD.value
  | e :: es, c, r, m, h => by
    rcases hD.seq h with he | ⟨v, m₁, he, h₁⟩
    · exact (eval_traces hD hcall e he).of_enters .first
    · have hes := hD.seq_left h₁ fun _ _ => hD.value
      exact (evalAll_traces hD hcall es hes).of_enters (.others ⟨k, he⟩)

end

theorem condition_traces (hD : Traceable @D) (hcall : Context.CallsTrace p ctx @D k) {e : Expr}
    (h : D (condition (ctx.calls k) e) m) : Point.Traces p ctx @D ⟨c, r, .expr e, m⟩ :=
  eval_traces hD hcall e (hD.seq_left h fun v _ => hD.plain (truth_plain v e.pos))

theorem declare_traces (hD : Traceable @D) (hcall : Context.CallsTrace p ctx @D k) {d : VarDecl}
    (h : D (declare (ctx.calls k) d) m) : Point.Traces p ctx @D ⟨c, r, .declare d, m⟩ := by
  unfold declare at h
  cases hi : d.init with
  | none =>
    rw [hi] at h
    exact absurd h hD.modify
  | some e =>
    rw [hi] at h
    refine (eval_traces hD hcall e (hD.seq_left h fun v m₁ h₁ => ?_)).of_enters (.initial hi)
    exact hD.plain (coerce_plain v d.type e.pos) (hD.seq_left h₁ fun _ _ => hD.modify)

/-! ## Statements -/

/-- A statement gives this with the fuel of its loops for its calls too. -/
theorem gives_exec {s : Stmt} {flow : Flow} (hk : k ≤ fuel)
    (h : exec (ctx.calls k) fuel s m = .value flow m') :
    ctx.Gives (fun call fuel => exec call fuel s) m flow m' :=
  ⟨fuel, (exec_mono (ctx.calls_mono hk) (Nat.le_refl fuel) s).value h⟩

theorem gives_execAll {body : List Stmt} {flow : Flow} (hk : k ≤ fuel)
    (h : execAll (ctx.calls k) fuel body m = .value flow m') :
    ctx.Gives (fun call fuel => execAll call fuel body) m flow m' :=
  ⟨fuel, (execAll_mono (ctx.calls_mono hk) (Nat.le_refl fuel) body).value h⟩

/-- The rounds of a loop: the effect comes about in the condition, the body or the step of one. -/
theorem loop_traces (hD : Traceable @D) (hcall : Context.CallsTrace p ctx @D k) (hk : k ≤ fuel)
    {cond step : Option Expr} {body : Stmt}
    (hbody : ∀ {c r m}, D (exec (ctx.calls k) fuel body) m →
      Point.Traces p ctx @D ⟨c, r, .stmt body, m⟩) :
    ∀ (rounds : Nat) {m : Machine},
      D (loop (guard (ctx.calls k) cond) (exec (ctx.calls k) fuel body) (effect (ctx.calls k) step)
        rounds) m → Point.Traces p ctx @D ⟨c, r, .loop cond step body, m⟩
  | 0, m, h => absurd h hD.pending
  | rounds + 1, m, h => by
    rcases hD.seq h with hg | ⟨b, m₁, hg, h₁⟩
    · cases cond with
      | none => exact absurd hg hD.value
      | some e => exact (condition_traces hD hcall hg).of_enters .guard
    cases b with
    | false => exact absurd h₁ hD.value
    | true =>
      rcases hD.seq h₁ with hb | ⟨flow, m₂, hb, h₂⟩
      · exact (hbody hb).of_enters (.round ⟨k, hg⟩)
      cases flow with
      | normal =>
        -- a normal end of the body is the only way into the step and the next round
        rcases hD.seq h₂ with hs | ⟨_, m₃, hs, h₃⟩
        · cases step with
          | none => exact absurd hs hD.value
          | some e =>
            have he := hD.seq_left hs fun _ _ => hD.value
            exact (eval_traces hD hcall e he).of_enters (.step ⟨k, hg⟩ (gives_exec hk hb))
        · exact (loop_traces hD hcall hk hbody rounds h₃).of_enters
            (.again ⟨k, hg⟩ (gives_exec hk hb) ⟨k, hs⟩)
      | brk => exact absurd h₂ hD.value
      | ret v => exact absurd h₂ hD.value

mutual

/-- An effect of a statement. -/
theorem exec_traces (hD : Traceable @D) (hcall : Context.CallsTrace p ctx @D k) (hk : k ≤ fuel) :
    ∀ (s : Stmt) {c : Checker} {r : Bool} {m : Machine}, D (exec (ctx.calls k) fuel s) m →
      Point.Traces p ctx @D ⟨c, r, .stmt s, m⟩
  | .declare d, c, r, m, h =>
    (declare_traces hD hcall (hD.seq_left h fun _ _ => hD.value)).of_enters .declare
  | .eval e pos, c, r, m, h =>
    (eval_traces hD hcall e (hD.seq_left h fun _ _ => hD.value)).of_enters .eval
  | .block body pos, c, r, m, h =>
    (execAll_traces hD hcall hk body (hD.scope h)).of_enters .block
  | .branch cond onTrue none pos, c, r, m, h => by
    rcases hD.seq h with hc | ⟨b, m₁, hc, h₁⟩
    · exact (condition_traces hD hcall hc).of_enters .condition
    cases b with
    | true => exact (exec_traces hD hcall hk onTrue h₁).of_enters (.onTrue ⟨k, hc⟩)
    | false => exact absurd h₁ hD.value
  | .branch cond onTrue (some onFalse) pos, c, r, m, h => by
    rcases hD.seq h with hc | ⟨b, m₁, hc, h₁⟩
    · exact (condition_traces hD hcall hc).of_enters .condition
    cases b with
    | true => exact (exec_traces hD hcall hk onTrue h₁).of_enters (.onTrue ⟨k, hc⟩)
    | false => exact (exec_traces hD hcall hk onFalse h₁).of_enters (.onFalse ⟨k, hc⟩)
  | .whileLoop cond body pos, c, r, m, h => by
    -- a `while` loop is a loop with an empty step
    have hloop : D (loop (guard (ctx.calls k) (some cond)) (exec (ctx.calls k) fuel body)
        (effect (ctx.calls k) none) fuel) m := h
    exact (loop_traces hD hcall hk (exec_traces hD hcall hk body) fuel hloop).of_enters .whileLoop
  | .forLoop init cond step body pos, c, r, m, h => by
    rcases hD.seq (hD.scope h) with hi | ⟨_, m₂, hi, hloop⟩
    · cases init with
      | none => exact absurd hi hD.value
      | some init =>
        cases init with
        | declare d => exact (declare_traces hD hcall hi).of_enters .forDeclare
        | eval e =>
          have he := hD.seq_left hi fun _ _ => hD.value
          exact (eval_traces hD hcall e he).of_enters .forEval
    · exact (loop_traces hD hcall hk (exec_traces hD hcall hk body) fuel hloop).of_enters
        (.forLoop ⟨k, hi⟩)
  | .switch e groups pos, c, r, m, h => by
    rcases hD.seq h with he | ⟨v, m₁, he, h₁⟩
    · exact (eval_traces hD hcall e he).of_enters .scrutinee
    rcases hD.seq h₁ with hkey | ⟨key, m₂, hkey, h₂⟩
    · exact absurd hkey (hD.plain (switchKey_plain _ _))
    -- the value of the scrutinee says which group control enters
    obtain ⟨rfl, hinteger⟩ := orFail_eq_value (show orFail v.integer? _ m₁ = _ from hkey)
    cases hstart : startOf? key groups with
    | none =>
      rw [hstart] at h₂
      exact absurd h₂ hD.value
    | some start =>
      rw [hstart] at h₂
      exact (execFrom_traces hD hcall hk start groups h₂).of_enters (.switch ⟨k, he⟩ hinteger hstart)
  | .ret (some e) pos, c, r, m, h =>
    (eval_traces hD hcall e (hD.seq_left h fun _ _ => hD.value)).of_enters .returned
  | .ret none pos, c, r, m, h => absurd h hD.value
  | .brk pos, c, r, m, h => absurd h hD.value

theorem execAll_traces (hD : Traceable @D) (hcall : Context.CallsTrace p ctx @D k) (hk : k ≤ fuel) :
    ∀ (body : List Stmt) {c : Checker} {r : Bool} {m : Machine}, D (execAll (ctx.calls k) fuel body) m →
      Point.Traces p ctx @D ⟨c, r, .stmts body, m⟩
  | [], c, r, m, h => absurd h hD.value
  | s :: rest, c, r, m, h => by
    rcases hD.seq h with hs | ⟨flow, m₁, hs, h₁⟩
    · exact (exec_traces hD hcall hk s hs).of_enters .head
    cases flow with
    | normal => exact (execAll_traces hD hcall hk rest h₁).of_enters (.tail (gives_exec hk hs))
    | brk => exact absurd h₁ hD.value
    | ret v => exact absurd h₁ hD.value

theorem execFrom_traces (hD : Traceable @D) (hcall : Context.CallsTrace p ctx @D k) (hk : k ≤ fuel) :
    ∀ (start : Nat) (groups : List CaseGroup) {c : Checker} {r : Bool} {m : Machine},
      D (execFrom (ctx.calls k) fuel start groups) m →
        Point.Traces p ctx @D ⟨c, r, .groups start groups, m⟩
  | start, [], c, r, m, h => by
    cases start <;> exact absurd h hD.value
  | start + 1, .mk label body pos :: rest, c, r, m, h =>
    (execFrom_traces hD hcall hk start rest h).of_enters .skip
  | 0, .mk label body pos :: rest, c, r, m, h => by
    rcases hD.seq h with hb | ⟨flow, m₁, hb, h₁⟩
    · exact (execAll_traces hD hcall hk body hb).of_enters .group
    cases flow with
    | normal =>
      exact (execFrom_traces hD hcall hk 0 rest h₁).of_enters (.fallThrough (gives_execAll hk hb))
    | brk => exact absurd h₁ hD.value
    | ret v => exact absurd h₁ hD.value

end

end Run

/-! ## Calls and runs -/

namespace Context

/-- Calls by name, if calls of functions have the effect in their bodies only. -/
theorem callsTrace_of_call (hD : Run.Traceable @D) (hctx : ∀ f ∈ ctx.functions, .function f ∈ p.items)
    (hcall : ∀ {f vs pos m}, D (ctx.call fuel f vs pos) m →
      ∃ m₂, ctx.enter f vs pos m = .value () m₂ ∧
        ∀ {c r}, Point.Traces p ctx @D ⟨c, r, .stmts f.body, m₂⟩) :
    CallsTrace p ctx @D fuel := by
  intro f? vs pos m h
  unfold calls dispatch at h
  by_cases hprint : f? = printName
  · rw [if_pos hprint] at h
    exact .inl ⟨hprint, h⟩
  rw [if_neg hprint] at h
  refine .inr ⟨hprint, ?_⟩
  cases hf : ctx.function? f? with
  | none =>
    rw [hf] at h
    exact absurd h (hD.error rfl)
  | some f =>
    rw [hf] at h
    -- the items in front of a function are part of the point at which its body is entered
    obtain ⟨before, rest, hitem⟩ := List.append_of_mem (hctx f (List.mem_of_find?_eq_some hf))
    obtain ⟨m₂, henter, hbody⟩ := hcall h
    exact ⟨f, before, rest, m₂, rfl, hitem, henter, hbody⟩

/-- An effect of a call comes about in the body of the function. -/
theorem call_traces (hD : Run.Traceable @D) (hctx : ∀ f ∈ ctx.functions, .function f ∈ p.items) :
    ∀ (fuel : Nat) {f : FunctionDef} {vs : List Value} {pos : Position} {m : Machine},
      D (ctx.call fuel f vs pos) m →
      ∃ m₂, ctx.enter f vs pos m = .value () m₂ ∧
        ∀ {c r}, Point.Traces p ctx @D ⟨c, r, .stmts f.body, m₂⟩
  | 0, f, vs, pos, m, h => absurd h hD.pending
  | fuel + 1, f, vs, pos, m, h => by
    rw [call_succ] at h
    rcases hD.seq h with he | ⟨_, m₂, henter, h₁⟩
    · exact absurd he hD.enter
    have hbody := hD.closing (hD.seq_left h₁ fun flow _ =>
      hD.immediate (Run.result_immediate f flow pos)
        (Run.result_failsWith RuntimeError.isUnknownVariable_of_isPlain fun _ => rfl))
    have hcalls : CallsTrace p ctx @D fuel := callsTrace_of_call hD hctx (call_traces hD hctx fuel)
    exact ⟨m₂, henter, Run.execAll_traces hD hcalls (Nat.le_succ fuel) f.body hbody⟩

end Context

namespace Program

/-- One more global is initialised. -/
theorem gives_declareAll_snoc {before : List Item} {d : VarDecl} {m m' : Machine} {fuel : Nat}
    (hdone : ctx.Gives (fun call _ => Run.declareAll call (Item.globals before)) .fresh () m)
    (hd : Run.declare (ctx.calls fuel) d m = .value () m') :
    ctx.Gives (fun call _ => Run.declareAll call (Item.globals (before ++ [.global d]))) .fresh ()
      m' := by
  obtain ⟨n, hbefore⟩ := hdone.eventually fun h _ => Run.declareAll_mono h _
  have hglobals : Item.globals (before ++ [.global d]) = Item.globals before ++ [d] := by
    simp [Item.globals]
  refine ⟨n + fuel, ?_⟩
  show Run.declareAll _ (Item.globals (before ++ [.global d])) _ = _
  rw [hglobals, Run.declareAll_append (hbefore _ (by omega))]
  exact Run.bind_value ((Run.declare_mono (ctx.calls_mono (by omega)) d).value hd)

/-- The initialisation of the globals among the items that are left. -/
theorem traces_of_declareAll (hD : Run.Traceable @D)
    (hctx : ∀ f ∈ ctx.functions, .function f ∈ p.items) :
    ∀ (items before : List Item) {m : Machine}, p.items = before ++ items →
      ctx.Gives (fun call _ => Run.declareAll call (Item.globals before)) .fresh () m →
      D (Run.declareAll (ctx.calls fuel) (Item.globals items)) m →
      ∃ done x, p.Starts ctx done x ∧ x.Traces p ctx @D
  | [], before, m, hitems, hdone, h => absurd h hD.value
  | .function f :: items, before, m, hitems, hdone, h => by
    refine traces_of_declareAll hD hctx items (before ++ [.function f]) ?_ ?_ h
    · rw [hitems, List.append_assoc, List.singleton_append]
    · simpa [Item.globals] using hdone
  | .global d :: items, before, m, hitems, hdone, h => by
    have hcalls : Context.CallsTrace p ctx @D fuel :=
      Context.callsTrace_of_call hD hctx (Context.call_traces hD hctx fuel)
    rcases hD.seq h with hd | ⟨_, m₁, hd, h₁⟩
    · exact ⟨before, _, .global hitems hdone, Run.declare_traces hD hcalls hd⟩
    · refine traces_of_declareAll hD hctx items (before ++ [.global d]) ?_
        (gives_declareAll_snoc hdone hd) h₁
      rw [hitems, List.append_assoc, List.singleton_append]

/-- An effect of a run comes about at a point that the run comes to. -/
theorem traces_of_execute (hD : Run.Traceable @D) (hctx : ∀ f ∈ ctx.functions, .function f ∈ p.items)
    (h : D (p.execute ctx fuel) .fresh) : ∃ done x, p.Starts ctx done x ∧ x.Traces p ctx @D := by
  rcases hD.seq h with hg | ⟨_, m₁, hg, hmain⟩
  · exact traces_of_declareAll hD hctx p.items [] rfl ⟨0, rfl⟩ hg
  rcases p.callMain_cases with ⟨e, he, hfail⟩ | ⟨f, hf, hparams, hcallMain⟩
  · rw [hfail] at hmain
    refine absurd hmain (hD.error ?_)
    rcases he with rfl | ⟨pos, rfl⟩ <;> rfl
  · rw [hcallMain] at hmain
    have hcall := hD.seq_left hmain fun v _ h => hD.record rfl (hD.seq_left h fun _ _ => hD.flush)
    obtain ⟨m₂, henter, hbody⟩ := Context.call_traces hD hctx fuel hcall
    have hmem : f ∈ p.functions := List.mem_of_find?_eq_some hf
    obtain ⟨before, rest, hitem⟩ := List.append_of_mem (mem_functions.mp hmem)
    exact ⟨p.items, _, .main ⟨fuel, hg⟩ hf hparams hitem henter, hbody⟩

end Program

end

end Primer
