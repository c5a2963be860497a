import Primer.Proofs.Machine.Interference
import Primer.Proofs.Machine.Scopes

/-!
# A `for` loop is a `while` loop in a block

The header of a `for` loop says what could be said around a `while` loop: the first clause before it, the
last one at the end of its body. The block that then stands for the body opens a scope that the `for`
loop does not have. Nothing is declared in this scope, because the body is no declaration, and a scope
in which nothing is declared is not noticed.

- `Environment.Widened` relates variables to the same with an empty scope in between.
- `Run.widened_congruence`: execution does the same on both, except for declarations outside of any
  block, which would go to the empty scope.
- `Run.inScope_eq_self`: what declares nothing around itself needs no scope of its own.
- `Stmt.whileOfFor` is the block with the `while` loop, and `Context.exec_forLoop_eq_while` says that it
  does the same.
-/

namespace Primer

namespace Frame

theorem lookup?_append (inner outer : Frame) (name : String) :
    lookup? (inner ++ outer) name = (lookup? inner name).or (lookup? outer name) :=
  List.findSome?_append

/-- An assignment goes to the inner scopes, if they have a variable of the name. -/
theorem assign_append (name : String) (v : Value) (outer : Frame) :
    ∀ inner : Frame, assign name v (inner ++ outer) =
      if (lookup? inner name).isSome then assign name v inner ++ outer
      else inner ++ assign name v outer
  | [] => rfl
  | D :: inner => by
    rw [List.cons_append, assign, assign, lookup?_cons]
    cases hD : D.lookup name with
    | some s => rfl
    | none =>
      rw [assign_append name v outer inner, Option.none_or]
      show (D :: if _ then _ else _) = _
      split
      · rfl
      · rfl

end Frame

/-! ## A scope in which nothing is declared -/

namespace Environment

variable {k : Nat} {env env' : Environment}

/-- The second environment has an empty scope more, outside of the `k` innermost ones of the call in
progress. -/
inductive Widened (k : Nat) : Environment → Environment → Prop where
  | mk (globals : Scope) (inner outer : Frame) (callers : List Frame) (depth : inner.length = k) :
    Widened k ⟨globals, (inner ++ outer) :: callers⟩ ⟨globals, (inner ++ [] :: outer) :: callers⟩

theorem pushScope_widened {F : Frame} {callers : List Frame} (h : env.frames = F :: callers) :
    env.Widened 0 env.pushScope := by
  obtain ⟨globals, frames⟩ := env
  obtain rfl : frames = F :: callers := h
  exact .mk globals [] F callers rfl

theorem Widened.lookup?_locals (h : env.Widened k env') (name : String) :
    env.locals.lookup? name = env'.locals.lookup? name := by
  obtain ⟨globals, inner, outer, callers, depth⟩ := h
  show Frame.lookup? (inner ++ outer) name = Frame.lookup? (inner ++ [] :: outer) name
  rw [Frame.lookup?_append, Frame.lookup?_append, Frame.lookup?_cons, List.lookup_nil, Option.none_or]

theorem Widened.globals (h : env.Widened k env') : env.globals = env'.globals := by
  cases h
  rfl

theorem Widened.lookup? (h : env.Widened k env') (name : String) :
    env.lookup? name = env'.lookup? name := by
  unfold Environment.lookup?
  rw [h.lookup?_locals, h.globals]

theorem Widened.depth (h : env.Widened k env') : env.depth = env'.depth := by
  cases h
  rfl

/-- What changes the globals only. -/
theorem Widened.of_frames {new new' : Environment} (h : env.Widened k env')
    (hframes : new.frames = env.frames) (hframes' : new'.frames = env'.frames)
    (hglobals : new.globals = new'.globals) : new.Widened k new' := by
  obtain ⟨_, inner, outer, callers, depth⟩ := h
  obtain ⟨globals, frames⟩ := new
  obtain ⟨globals', frames'⟩ := new'
  obtain rfl : frames = _ := hframes
  obtain rfl : frames' = _ := hframes'
  obtain rfl : globals = globals' := hglobals
  exact .mk globals inner outer callers depth

theorem Widened.assign (h : env.Widened k env') (name : String) (v : Value) :
    (env.assign name v).Widened k (env'.assign name v) := by
  unfold Environment.assign
  rw [← h.lookup?_locals]
  split
  · obtain ⟨globals, inner, outer, callers, depth⟩ := h
    show Widened k ⟨globals, (inner ++ outer).assign name v :: callers⟩
      ⟨globals, (inner ++ [] :: outer).assign name v :: callers⟩
    rw [Frame.assign_append, Frame.assign_append]
    -- the variable is inside of the empty scope or outside of it, on both sides alike
    split
    · exact .mk globals _ outer callers ((Frame.length_assign name v inner).trans depth)
    · exact .mk globals inner _ callers depth
  · exact h.of_frames rfl rfl (congrArg (Scope.assign name v) h.globals)

/-- A declaration in the innermost scope, if that is not the empty one. -/
theorem Widened.define (h : env.Widened (k + 1) env') (name : String) (type : Ty) (v : Value) :
    (env.define name type v).Widened (k + 1) (env'.define name type v) := by
  obtain ⟨globals, inner, outer, callers, depth⟩ := h
  cases inner with
  | nil => cases depth
  | cons D inner =>
    exact .mk globals (D.insert name ⟨type, v⟩ :: inner) outer callers depth

theorem Widened.pushScope (h : env.Widened k env') :
    env.pushScope.Widened (k + 1) env'.pushScope := by
  obtain ⟨globals, inner, outer, callers, depth⟩ := h
  exact .mk globals ([] :: inner) outer callers (congrArg (· + 1) depth)

theorem Widened.popScope (h : env.Widened (k + 1) env') :
    env.popScope.Widened k env'.popScope := by
  obtain ⟨globals, inner, outer, callers, depth⟩ := h
  cases inner with
  | nil => cases depth
  | cons D inner => exact .mk globals inner outer callers (Nat.succ.inj depth)

/-- Without the empty scope the environments are the same. -/
theorem Widened.popScope_eq (h : env.Widened 0 env') : env'.popScope = env := by
  obtain ⟨globals, inner, outer, callers, depth⟩ := h
  obtain rfl : inner = [] := List.eq_nil_of_length_eq_zero depth
  rfl

/-- Without a frame there is no scope to open or to close. -/
theorem popScope_of_depth (h : env.depth = 0) : env.popScope = env := by
  unfold popScope
  rw [List.eq_nil_of_length_eq_zero h]

theorem pushScope_of_depth (h : env.depth = 0) : env.pushScope = env := by
  unfold pushScope
  rw [List.eq_nil_of_length_eq_zero h]

end Environment

/-- The variables are related, and the same has happened so far. -/
structure Machine.Widened (k : Nat) (m m' : Machine) : Prop where
  env : m.env.Widened k m'.env
  transcript : m.transcript = m'.transcript

namespace Run

open Machine (Widened)

variable {α β : Type} {k j : Nat} {x y : Run α}

theorem modifyEnv_widened {f : Environment → Environment}
    (h : ∀ {env env' : Environment}, env.Widened k env' → (f env).Widened j (f env')) :
    Parallel (Widened k) (Widened j) (modifyEnv f) (modifyEnv f) :=
  fun _ _ hm => .value ⟨h hm.env, hm.transcript⟩

/-- Evaluation does not notice the empty scope, if calls do not. -/
theorem widened_evalCongruence (k : Nat) :
    EvalCongruence fun {α : Type} (x y : Run α) => Parallel (Widened k) (Widened k) x y :=
  parallel_evalCongruence (fun _ _ hm => hm.env.lookup?)
    fun _ _ hm name v => ⟨hm.env.assign name v, hm.transcript⟩

theorem inScope_widened (h : Parallel (Widened (k + 1)) (Widened (k + 1)) x y) :
    Parallel (Widened k) (Widened k) (inScope x) (inScope y) := by
  intro m m' hm
  have hclosed : Parallel (Widened (k + 1)) (Widened k) (closing .popScope x) (closing .popScope y) :=
    h.closing fun _ _ h => ⟨h.env.popScope, h.transcript⟩
  exact hclosed _ _ ⟨hm.env.pushScope, hm.transcript⟩

/-- What declares nothing around itself does not notice the empty scope, be it the innermost one or
not; what declares something does not notice it, if it is not the innermost one. -/
theorem widened_congruence : ClosedCongruence
    (fun {α : Type} (x y : Run α) => ∀ k, Parallel (Widened k) (Widened k) x y)
    fun {α : Type} (x y : Run α) => ∀ k, Parallel (Widened (k + 1)) (Widened (k + 1)) x y where
  plain h k := (widened_evalCongruence k).plain h
  read name pos k := (widened_evalCongruence k).read name pos
  assign name v pos k := (widened_evalCongruence k).assign name v pos
  seq hx hf k := (hx k).bind fun a => hf a k
  inner :=
    { plain h k := (widened_evalCongruence (k + 1)).plain h
      read name pos k := (widened_evalCongruence (k + 1)).read name pos
      assign name v pos k := (widened_evalCongruence (k + 1)).assign name v pos
      seq hx hf k := (hx k).bind fun a => hf a k
      define name type v _ := modifyEnv_widened fun h => h.define name type v
      scope h k := inScope_widened (h (k + 1)) }
  weaken h k := h (k + 1)
  enclose h k := inScope_widened (h k)
  pending := fun _ _ _ _ => .pending

theorem write_widened (sink : Sink) (text : String) (pos : Position) :
    Parallel (Widened k) (Widened k) (write sink text pos) (write sink text pos) := by
  intro m m' hm
  unfold write
  rw [hm.transcript]
  cases sink.write? m'.transcript text with
  | some reason => exact .error hm
  | none => exact .value ⟨hm.env, rfl⟩

/-- A computation that does not notice an empty scope needs no scope of its own. -/
theorem inScope_eq_self (hx : Parallel (Widened 0) (Widened 0) x x) (hsteady : Steady x) :
    inScope x = x := by
  funext m
  show closing .popScope x { m with env := m.env.pushScope } = x m
  cases hframes : m.env.frames with
  | nil =>
    -- there is no frame to open a scope in, neither before nor after
    have hdepth : m.env.depth = 0 := congrArg List.length hframes
    have hfollows : (x m).Follows m := hsteady m
    rw [Environment.pushScope_of_depth hdepth]
    cases hout : x m with
    | value a m' =>
      rw [hout] at hfollows
      rw [closing_value hout, Environment.popScope_of_depth (Machine.Follows.depth hfollows ▸ hdepth)]
    | error e m' =>
      rw [hout] at hfollows
      rw [closing_error hout, Environment.popScope_of_depth (Machine.Follows.depth hfollows ▸ hdepth)]
    | pending => exact closing_pending hout
  | cons F callers =>
    have hpairs := hx m { m with env := m.env.pushScope }
      ⟨Environment.pushScope_widened hframes, rfl⟩
    generalize x m = o, hout : x { m with env := m.env.pushScope } = o' at hpairs
    cases hpairs with
    | value related =>
      rw [closing_value hout, related.env.popScope_eq, ← related.transcript]
    | error related =>
      rw [closing_error hout, related.env.popScope_eq, ← related.transcript]
    | pending => exact closing_pending hout

end Run

namespace Context

variable (ctx : Context)

theorem call_widened (fuel : Nat) (f : FunctionDef) (args : List Value) (pos : Position) (k : Nat) :
    Run.Parallel (Machine.Widened k) (Machine.Widened k) (ctx.call fuel f args pos)
      (ctx.call fuel f args pos) := by
  intro m m' hm
  have htexts : m.transcript.SameTexts m'.transcript := by
    rw [hm.transcript]
    exact ⟨rfl, rfl⟩
  -- a call has a frame of its own, and leaves those of its callers alone
  have hpairs := ctx.call_parallel htexts fuel f args pos m m'
    ⟨hm.env.globals, hm.env.depth, [], rfl, rfl⟩
  refine (hpairs.and (ctx.call_spares fuel f args pos m) (ctx.call_spares fuel f args pos m')).imp ?_
  rintro m₁ m₁' ⟨heffects, hspares, hspares'⟩
  obtain ⟨events, hevents, hevents'⟩ := heffects.recorded
  refine ⟨hm.env.of_frames hspares.frames hspares'.frames heffects.globals, ?_⟩
  rw [hevents, hevents', hm.transcript]

theorem calls_widened (fuel : Nat) (name : String) (args : List Value) (pos : Position) (k : Nat) :
    Run.Parallel (Machine.Widened k) (Machine.Widened k) (ctx.calls fuel name args pos)
      (ctx.calls fuel name args pos) :=
  (Run.widened_evalCongruence k).dispatch rfl (Run.write_widened ctx.sink)
    (fun f args pos => ctx.call_widened fuel f args pos k) name args pos

end Context

/-! ## The block of a `for` loop -/

namespace Stmt

/-- The first clause of a header, as a statement. -/
def ofForInit : ForInit → Stmt
  | .declare d => .declare d
  | .eval e => .eval e e.pos

/-- The body of the loop, with the last clause of the header as its last statement. -/
def bodyWithStep (step : Option Expr) (body : Stmt) : List Stmt :=
  body :: step.toList.map fun e => .eval e e.pos

/-- The block `{ init; while (cond) { body step; } }`. Clauses that are left out of the header are left
out here, but for the condition, which is then the literal 1. -/
def whileOfFor (init : Option ForInit) (cond step : Option Expr) (body : Stmt) (pos : Position) : Stmt :=
  .block (init.toList.map ofForInit ++
    [.whileLoop (cond.getD (.literal (.int 1) pos)) (.block (bodyWithStep step body) pos) pos]) pos

theorem bodyWithStep_closed (step : Option Expr) {body : Stmt} (h : body.Closed) :
    ListClosed (bodyWithStep step body) := by
  cases step with
  | none => simpa [bodyWithStep, ListClosed] using h
  | some e => simpa [bodyWithStep, ListClosed, Closed] using h

end Stmt

namespace Run

variable {call : Call} {fuel : Nat}

theorem condition_getD (cond : Option Expr) (pos : Position) :
    condition call (cond.getD (.literal (.int 1) pos)) = guard call cond := by
  cases cond with
  | none => rfl
  | some e => rfl

/-- A round of a `for` loop, with its step. -/
def thenStep (body : Run Flow) (step : Run Unit) : Run Flow := do
  match ← body with
  | .normal =>
    step
    return .normal
  | .brk => return .brk
  | .ret v => return .ret v

theorem execAll_singleton (s : Stmt) : execAll call fuel [s] = exec call fuel s := by
  rw [execAll, execAll]
  refine Eq.trans (bind_congr fun flow => ?_) (bind_pure (exec call fuel s))
  cases flow with
  | normal => rfl
  | brk => rfl
  | ret v => rfl

theorem execAll_forInit (init : Option ForInit) (s : Stmt) :
    execAll call fuel (init.toList.map Stmt.ofForInit ++ [s]) =
      forInit call init >>= fun _ => exec call fuel s := by
  rw [← execAll_singleton s]
  match init with
  | none => rfl
  | some (.declare d) =>
    show execAll call fuel [.declare d, s] = _
    rw [execAll, exec, bind_assoc]
    rfl
  | some (.eval e) =>
    show execAll call fuel [.eval e e.pos, s] = _
    rw [execAll, exec, bind_assoc]
    show _ = (eval call e >>= fun _ => pure ()) >>= _
    rw [bind_assoc]
    rfl

theorem execAll_bodyWithStep (step : Option Expr) (body : Stmt) :
    execAll call fuel (Stmt.bodyWithStep step body) =
      thenStep (exec call fuel body) (effect call step) := by
  cases step with
  | none =>
    show execAll call fuel [body] = _
    rw [execAll, execAll]
    rfl
  | some e =>
    show execAll call fuel [body, .eval e e.pos] = _
    rw [execAll, execAll_singleton, exec]
    refine bind_congr fun flow => ?_
    cases flow with
    | normal =>
      show _ = (eval call e >>= fun _ => pure ()) >>= _
      rw [bind_assoc]
      rfl
    | brk => rfl
    | ret v => rfl

/-- The step may be made part of the rounds. -/
theorem loop_thenStep (guard : Run Bool) (body : Run Flow) (step : Run Unit) (fuel : Nat) :
    loop guard (thenStep body step) (pure ()) fuel = loop guard body step fuel := by
  induction fuel with
  | zero => rfl
  | succ fuel ih =>
    rw [loop, loop]
    refine bind_congr fun b => ?_
    cases b with
    | false => rfl
    | true =>
      show thenStep body step >>= _ = body >>= _
      unfold thenStep
      rw [bind_assoc]
      refine bind_congr fun flow => ?_
      cases flow with
      | normal =>
        show (step >>= fun _ => pure Flow.normal) >>= _ = step >>= _
        rw [bind_assoc]
        exact bind_congr fun _ => ih
      | brk => rfl
      | ret v => rfl

/-- The two loops do the same, if the block around the body and the step makes no difference. -/
theorem exec_whileOfFor (init : Option ForInit) (cond step : Option Expr) (body : Stmt) (pos : Position)
    (hscope : inScope (execAll call fuel (Stmt.bodyWithStep step body)) =
      execAll call fuel (Stmt.bodyWithStep step body)) :
    exec call fuel (Stmt.whileOfFor init cond step body pos) =
      exec call fuel (.forLoop init cond step body pos) := by
  have hbody : exec call fuel (.block (Stmt.bodyWithStep step body) pos) =
      thenStep (exec call fuel body) (effect call step) := by
    rw [exec, hscope, execAll_bodyWithStep]
  have hwhile : exec call fuel (.whileLoop (cond.getD (.literal (.int 1) pos))
      (.block (Stmt.bodyWithStep step body) pos) pos) =
        loop (guard call cond) (exec call fuel body) (effect call step) fuel := by
    rw [exec, hbody, condition_getD]
    exact loop_thenStep _ _ _ fuel
  unfold Stmt.whileOfFor
  rw [exec, execAll_forInit, hwhile, exec]

end Run

/-- A `for` loop that is read from tokens and the block with the `while` loop are the same computation.
On every machine and with any fuel they come to the same flow of control or the same error, with the
same variables and the same events recorded, or both are pending. -/
theorem Context.exec_forLoop_eq_while (ctx : Context) {tokens rest : List Lexeme}
    {init : Option ForInit} {cond step : Option Expr} {body : Stmt} {pos : Position}
    (hread : readBlockItem tokens = .ok (.forLoop init cond step body pos, rest)) (fuel rounds : Nat) :
    Run.exec (ctx.calls fuel) rounds (.forLoop init cond step body pos) =
      Run.exec (ctx.calls fuel) rounds (Stmt.whileOfFor init cond step body pos) := by
  have hclosed : body.Closed := by
    rcases Stmt.closed_of_readBlockItem hread with ⟨d, hd⟩ | hfor
    · cases hd
    · simpa only [Stmt.Closed] using hfor
  -- the block of the `while` loop opens a scope in each round, in which nothing is ever declared
  refine (Run.exec_whileOfFor init cond step body pos (Run.inScope_eq_self ?_ ?_)).symm
  · exact Run.widened_congruence.execAll (ctx.calls_widened fuel) (Stmt.bodyWithStep step body)
      (Stmt.bodyWithStep_closed step hclosed) 0
  · exact Run.execAll_steady (ctx.calls_steady fuel) rounds (Stmt.bodyWithStep step body)

/-- The tokens of a loop whose body declares a variable in a block and ends with a `break`. -/
def countedLoop : List Lexeme :=
  ((tokenize "for (int i = 1; ; i = i + i) \x7b char j = x; print(\"%d,\", i + j); if (i > 4) break; \x7d").toOption).getD []

/-- Four rounds in the middle of a call, and the same with the `while` loop. -/
theorem countedLoop_eq_while : ∃ init cond step body pos rest m',
    readBlockItem countedLoop = .ok (.forLoop init cond step body pos, rest) ∧
    Run.exec ((Context.mk [] 9 .unbounded).calls 9) 9 (Stmt.whileOfFor init cond step body pos) midCall =
      .value .normal m' ∧ m'.transcript.output = "66,67,69,73," ∧
    Run.exec ((Context.mk [] 9 .unbounded).calls 9) 9 (.forLoop init cond step body pos) =
      Run.exec ((Context.mk [] 9 .unbounded).calls 9) 9 (Stmt.whileOfFor init cond step body pos) := by
  have hrun : ((readBlockItem countedLoop).toOption.bind fun r =>
      match r.1 with
      | .forLoop init cond step body pos =>
        match Run.exec ((Context.mk [] 9 .unbounded).calls 9) 9
            (Stmt.whileOfFor init cond step body pos) midCall with
        | .value flow m => some (flow, m.transcript.output)
        | _ => none
      | _ => none) = some (.normal, "66,67,69,73,") := by decide +kernel
  cases hread : readBlockItem countedLoop with
  | error e =>
    rw [hread] at hrun
    cases hrun
  | ok r =>
    rw [hread] at hrun
    obtain ⟨s, rest⟩ := r
    cases s with
    | forLoop init cond step body pos =>
      have heq := Context.exec_forLoop_eq_while (.mk [] 9 .unbounded) hread 9 9
      simp only [Except.toOption, Option.bind_some] at hrun
      split at hrun
      · next flow m' hexec =>
        obtain ⟨rfl, houtput⟩ := Prod.mk.inj (Option.some.inj hrun)
        exact ⟨init, cond, step, body, pos, rest, m', rfl, hexec, houtput, heq⟩
      · cases hrun
    | _ => simp [Except.toOption] at hrun

end Primer
