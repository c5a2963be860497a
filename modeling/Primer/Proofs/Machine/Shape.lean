import Primer.Interpreter
import Primer.Proofs.Machine.Steady

/-!
# Calls leave their callers alone

A call works in a frame of its own. Every construct closes what it opens, also when it is left by an
error, so the frame of a call has an open scope as long as the call is in progress, and nothing that
its body declares ends up among the globals. What is left of a call is the new values of globals and
what it printed.

- `Context.enter_cases`: entering a function depends on the machine by the number of its frames only.
- `Run.Maintains` is about what computations keep as long as a scope is open around them;
  `Run.maintains_evalCongruence`: what assignments keep, all of evaluation keeps.
- `Environment.SameShape` is kept by declarations too, and by scopes that are opened and closed, so by
  all of execution (`Run.sameShape_congruence`).
- `Context.call_spares_callers`: after a call all frames are as before, and so are the names and the
  declared types of the globals.
-/

namespace Primer

/-! ## Entering a function -/

/-- The scope with the parameters of a function declared in it. -/
def Scope.bindParams : (params : List Param) → (args : List Value) → Scope → Scope
  | param :: params, v :: args, D => bindParams params args (D.insert param.name ⟨param.type, v⟩)
  | _, _, D => D

theorem Run.bindParams_frames : ∀ (params : List Param) (args : List Value) {m : Machine} {D : Scope}
    {F : Frame} {callers : List Frame}, m.env.frames = (D :: F) :: callers →
      bindParams params args m = .value ()
        { m with env := { m.env with frames := (D.bindParams params args :: F) :: callers } }
  | [], _, ⟨⟨_, _⟩, _⟩, D, F, callers, h => by
    cases h
    rfl
  | _ :: _, [], ⟨⟨_, _⟩, _⟩, D, F, callers, h => by
    cases h
    rfl
  | param :: params, v :: args, m, D, F, callers, h => by
    have hdefine : define param.name param.type v m = .value () { m with env :=
        { m.env with frames := (D.insert param.name ⟨param.type, v⟩ :: F) :: callers } } := by
      show Outcome.value () { m with env := m.env.define param.name param.type v } = _
      rw [Environment.define_frames h]
    rw [bindParams, bind_value hdefine, bindParams_frames params args rfl]
    rfl

/-- The machine with a frame opened for a call, in which the variables `D` are declared. -/
def Machine.openFrame (m : Machine) (name : String) (D : Scope) : Machine :=
  ⟨{ m.env with frames := [D] :: m.env.frames },
    m.transcript.record (.called name (m.env.depth + 1))⟩

/-- Entering a function fails, or opens a frame with one scope. Which of the two, the error and the
variables in the frame do not depend on the variables that are there already. -/
theorem Context.enter_cases (ctx : Context) (f : FunctionDef) (args : List Value) (pos : Position)
    (depth : Nat) :
    (∃ e, ∀ m : Machine, m.env.depth = depth → ctx.enter f args pos m = .error e m) ∨
      ∃ D, ∀ m : Machine, m.env.depth = depth →
        ctx.enter f args pos m = .value () (m.openFrame f.name D) := by
  -- the checks in their order; none of them looks at more of the machine than its depth
  by_cases hdepth : ctx.maxDepth ≤ depth
  · refine .inl ⟨.stackOverflow ctx.maxDepth pos, fun m hm => ?_⟩
    rw [enter, Run.env_bind_apply, hm, if_pos hdepth]
    rfl
  by_cases hcount : args.length ≠ f.params.length
  · refine .inl ⟨.argumentCount f.name f.params.length args.length pos, fun m hm => ?_⟩
    rw [enter, Run.env_bind_apply, hm, if_neg hdepth, if_pos hcount]
    rfl
  generalize hcoerce : Run.coerceArgs pos f.params args = coerced
  have hplain : Run.Plain coerced := hcoerce ▸ Run.coerceArgs_plain pos f.params args
  cases hplain with
  | @error e _ =>
    refine .inl ⟨e, fun m hm => ?_⟩
    rw [enter, Run.env_bind_apply, hm, if_neg hdepth, if_neg hcount, hcoerce]
    rfl
  | value stored =>
    refine .inr ⟨Scope.bindParams f.params stored [], fun m hm => ?_⟩
    rw [enter, Run.env_bind_apply, hm, if_neg hdepth, if_neg hcount, hcoerce]
    exact Run.bindParams_frames f.params stored (m := m.openFrame f.name []) rfl

/-! ## What stays while a scope is open -/

/-- The names of a scope and their declared types. -/
def Scope.declared (D : Scope) : List (String × Ty) :=
  D.map fun b => (b.1, b.2.type)

theorem Scope.declared_assign (name : String) (v : Value) :
    ∀ D : Scope, (assign name v D).declared = D.declared
  | [] => rfl
  | (k, s) :: rest => by
    rw [assign]
    split
    · rfl
    · exact congrArg ((k, s.type) :: ·) (declared_assign name v rest)

namespace Environment

variable {env env' env'' : Environment}

/-- A relation between the variables before and after that evaluation keeps, as long as a scope is
open. -/
structure Kept (S : Environment → Environment → Prop) : Prop where
  refl : ∀ env, S env env
  trans : ∀ {env env' env''}, S env env' → S env' env'' → S env env''
  isOpen : ∀ {env env' : Environment}, S env env' → env.locals ≠ [] → env'.locals ≠ []
  assign : ∀ (env : Environment) name v, S env (env.assign name v)

/-- As many scopes of the call in progress are open, and the globals are the same variables. -/
structure SameShape (env env' : Environment) : Prop where
  scopes : env'.locals.length = env.locals.length
  globals : env'.globals.declared = env.globals.declared

theorem locals_ne_nil_of_length (h : env'.locals.length = env.locals.length)
    (hopen : env.locals ≠ []) : env'.locals ≠ [] := by
  rw [← List.length_pos_iff] at hopen ⊢
  rw [h]
  exact hopen

/-- An assignment leaves the globals and their types as they are declared. -/
theorem declared_globals_assign (name : String) (v : Value) :
    (env.assign name v).globals.declared = env.globals.declared := by
  rw [globals_assign]
  split
  · rfl
  · exact Scope.declared_assign name v env.globals

theorem sameShape_kept : Kept SameShape where
  refl env := ⟨rfl, rfl⟩
  trans h h' := ⟨h'.scopes.trans h.scopes, h'.globals.trans h.globals⟩
  isOpen h := locals_ne_nil_of_length h.scopes
  assign env name v := ⟨by rw [locals_assign, Frame.length_assign], declared_globals_assign name v⟩

/-- A declaration stays in the open scope. -/
theorem define_sameShape (hopen : env.locals ≠ []) (name : String) (type : Ty) (v : Value) :
    env.SameShape (env.define name type v) := by
  obtain ⟨D, F, hlocals⟩ := List.exists_cons_of_ne_nil hopen
  constructor
  · rw [locals_define, hlocals]
    rfl
  · rw [globals_define, hlocals]

/-- With a scope open there is a frame to open another one in. -/
theorem pushScope_locals (hopen : env.locals ≠ []) : env.pushScope.locals = [] :: env.locals := by
  rw [locals_pushScope, if_neg]
  intro hdepth
  have hframes : env.frames = [] := List.eq_nil_of_length_eq_zero hdepth
  exact hopen (by rw [locals, hframes]; rfl)

/-- The scope that is closed is the one that was opened. -/
theorem pushScope_popScope_sameShape (hopen : env.locals ≠ []) (h : env.pushScope.SameShape env') :
    env.SameShape env'.popScope := by
  constructor
  · rw [locals_popScope, List.length_tail, h.scopes, pushScope_locals hopen]
    rfl
  · rw [popScope_globals, h.globals, pushScope_globals]

end Environment

namespace Run

open Environment (Kept SameShape)

variable {α β : Type} {S S' : Environment → Environment → Prop}

/-- Executed with a scope open around it, the computation leaves variables that `S` relates to those
before, whether it comes to a value or to an error. -/
def Maintains (S : Environment → Environment → Prop) (x : Run α) : Prop :=
  ∀ m, m.env.locals ≠ [] →
    (x m).Satisfies (fun _ m' => S m.env m'.env) fun _ m' => S m.env m'.env

theorem Maintains.imp {x : Run α} (hx : Maintains S x)
    (h : ∀ env env' : Environment, env.locals ≠ [] → S env env' → S' env env') : Maintains S' x := by
  intro m hopen
  exact (hx m hopen).imp (fun _ _ hs => h _ _ hopen hs) fun _ _ hs => h _ _ hopen hs

theorem Maintains.bind (h : Kept S) {x : Run α} {f : α → Run β} (hx : Maintains S x)
    (hf : ∀ a, Maintains S (f a)) : Maintains S (x >>= f) := by
  intro m hopen
  refine bind_satisfies (hx m hopen) fun a m₁ h₁ => ?_
  have hrest := hf a m₁ (h.isOpen h₁ hopen)
  exact hrest.imp (fun _ _ h₂ => h.trans h₁ h₂) fun _ _ h₂ => h.trans h₁ h₂

theorem Immediate.maintains (h : Kept S) {x : Run α} (hx : Immediate x) : Maintains S x := by
  intro m _
  refine (hx.unchanged m).imp ?_ ?_
  · rintro a _ rfl
    exact h.refl _
  · rintro e _ rfl
    exact h.refl _

theorem env_maintains (h : Kept S) : Maintains S env := fun m _ => h.refl m.env

theorem modifyEnv_maintains {f : Environment → Environment}
    (h : ∀ env : Environment, env.locals ≠ [] → S env (f env)) : Maintains S (modifyEnv f) :=
  fun m hopen => h m.env hopen

theorem write_maintains (h : Kept S) (sink : Sink) (text : String) (pos : Position) :
    Maintains S (write sink text pos) := by
  intro m _
  unfold write
  split
  · exact h.refl m.env
  · exact h.refl m.env

/-- What a computation in a scope of its own keeps, once that scope is closed. -/
theorem Maintains.inScope {x : Run α} (hx : Maintains S x)
    (hclose : ∀ env env' : Environment, env.locals ≠ [] → S env.pushScope env' → S' env env'.popScope) :
    Maintains S' (inScope x) := by
  intro m hopen
  have hpushed : m.env.pushScope.locals ≠ [] := by
    rw [Environment.pushScope_locals hopen]
    exact List.cons_ne_nil _ _
  refine inScope_satisfies ((hx { m with env := m.env.pushScope } hpushed).imp ?_ ?_)
  · exact fun _ _ h => hclose _ _ hopen h
  · exact fun _ _ h => hclose _ _ hopen h

/-- Evaluation keeps the relation, if calls do. -/
theorem maintains_evalCongruence (h : Kept S) :
    EvalCongruence fun {α : Type} (_ x : Run α) => Maintains S x where
  plain hx := hx.immediate.maintains h
  read name pos := (env_maintains h).bind h fun _ => (orFail_immediate _ _).maintains h
  assign name v pos := by
    refine (env_maintains h).bind h fun _ => ((orFail_immediate _ _).maintains h).bind h fun type => ?_
    refine ((coerce_plain v type pos).immediate.maintains h).bind h fun stored => ?_
    refine (modifyEnv_maintains fun env _ => ?_).bind h fun _ => (Immediate.value stored).maintains h
    exact h.assign env name stored
  seq hx hf := hx.bind h hf

/-- All of execution keeps the shape of the variables, if calls do. -/
theorem sameShape_congruence : Congruence fun {α : Type} (_ x : Run α) => Maintains SameShape x where
  toEvalCongruence := maintains_evalCongruence Environment.sameShape_kept
  define name type v := modifyEnv_maintains fun env hopen => env.define_sameShape hopen name type v
  scope hx := hx.inScope fun _ _ => Environment.pushScope_popScope_sameShape

theorem sameShape_loops (fuel : Nat) :
    Congruence.Loops (fun {α : Type} (_ x : Run α) => Maintains SameShape x) fuel fuel :=
  sameShape_congruence.loops (fun _ _ => trivial) fuel

end Run

/-! ## Calls -/

/-- What a call leaves as it was: the frames with all their variables, the names and the declared types
of the globals, and what was recorded before. -/
structure Machine.Spares (m m' : Machine) : Prop where
  frames : m'.env.frames = m.env.frames
  globals : m'.env.globals.declared = m.env.globals.declared
  transcript : m.transcript.Before m'.transcript

theorem Machine.Spares.sameShape {m m' : Machine} (h : m.Spares m') : m.env.SameShape m'.env := by
  refine ⟨?_, h.globals⟩
  unfold Environment.locals
  rw [h.frames]

namespace Context

variable (ctx : Context)

theorem dispatch_maintains {S : Environment → Environment → Prop} (hS : Environment.Kept S)
    {enter : FunctionDef → List Value → Position → Run Value}
    (h : ∀ f args pos, (enter f args pos).Maintains S) (name : String) (args : List Value)
    (pos : Position) : (ctx.dispatch enter name args pos).Maintains S :=
  @Run.EvalCongruence.dispatch _ (Run.maintains_evalCongruence hS) ctx ctx enter enter rfl
    (Run.write_maintains hS ctx.sink) h name args pos

/-- A call declares no global, if its body is executed in a scope that stays open. -/
theorem call_declared {fuel : Nat} {f : FunctionDef}
    (hbody : (Run.execAll (ctx.calls fuel) (fuel + 1) f.body).Maintains Environment.SameShape) (args : List Value)
    (pos : Position) (m : Machine) :
    (ctx.call (fuel + 1) f args pos m).Satisfies
      (fun _ m' => m'.env.globals.declared = m.env.globals.declared)
      fun _ m' => m'.env.globals.declared = m.env.globals.declared := by
  rw [call_succ]
  rcases ctx.enter_cases f args pos m.env.depth with ⟨e, herror⟩ | ⟨D, hvalue⟩
  · rw [Run.bind_error (herror m rfl)]
    rfl
  rw [Run.bind_value (hvalue m rfl)]
  -- the frame that was opened for the call has a scope, which its body leaves open
  have hopen : (m.openFrame f.name D).env.locals ≠ [] := List.cons_ne_nil D []
  have hclosed : (Run.closing .popFrame (Run.execAll (ctx.calls fuel) (fuel + 1) f.body)
      (m.openFrame f.name D)).Satisfies
        (fun _ m' => m'.env.globals.declared = m.env.globals.declared)
        fun _ m' => m'.env.globals.declared = m.env.globals.declared :=
    Run.closing_satisfies ((hbody _ hopen).imp (fun _ _ h => h.globals) fun _ _ h => h.globals)
  refine Run.bind_satisfies hclosed fun flow m₂ h₂ => ?_
  refine ((Run.result_immediate f flow pos).unchanged m₂).imp ?_ ?_
  · rintro v _ rfl
    exact h₂
  · rintro e _ rfl
    exact h₂

/-- Calls spare their callers, with any amount of fuel. -/
theorem call_spares : ∀ (fuel : Nat) (f : FunctionDef) (args : List Value) (pos : Position)
    (m : Machine), (ctx.call fuel f args pos m).Satisfies (fun _ m' => m.Spares m')
      fun _ m' => m.Spares m'
  | 0, _, _, _, _ => trivial
  | fuel + 1, f, args, pos, m => by
    -- induction on the fuel, which is less for the calls in the body
    have hcall : ∀ f args pos, (ctx.call fuel f args pos).Maintains Environment.SameShape := by
      intro f args pos m _
      exact (call_spares fuel f args pos m).imp (fun _ _ h => h.sameShape) fun _ _ h => h.sameShape
    have hbody : (Run.execAll (ctx.calls fuel) (fuel + 1) f.body).Maintains Environment.SameShape :=
      @Run.Congruence.execAll _ (ctx.calls fuel) (ctx.calls fuel) Run.sameShape_congruence
        (ctx.dispatch_maintains Environment.sameShape_kept hcall) _ _ (Run.sameShape_loops (fuel + 1)) f.body
    have hframes := ctx.call_resumes
      (Run.execAll_steady (ctx.calls_steady fuel) (fuel + 1) f.body) args pos m
    refine (hframes.and (ctx.call_declared hbody args pos m)).imp ?_ ?_
    · exact fun _ _ h => ⟨h.1.frames, h.2, h.1.transcript⟩
    · exact fun _ _ h => ⟨h.1.frames, h.2, h.1.transcript⟩

/-- When a call is over, with a value or with an error from anywhere inside, the frames are those from
before, with the same variables and values, and the globals have the same names and declared types.
What was printed before stays printed. -/
theorem call_spares_callers {fuel : Nat} {f : FunctionDef} {args : List Value} {pos : Position}
    {m m' : Machine} (h : (ctx.call fuel f args pos m).machine? = some m') :
    m'.env.frames = m.env.frames ∧ m'.env.globals.declared = m.env.globals.declared ∧
      ∃ more, m'.transcript.output = m.transcript.output ++ more := by
  have hspares : m.Spares m' := (ctx.call_spares fuel f args pos m).machine h
  exact ⟨hspares.frames, hspares.globals, hspares.transcript.output⟩

end Context

/-- A text in which `f` calls `h` from the scope of a loop. The loop of `h` counts `n` down and adds to
the global `g`, which `f` hides twice; then `h` divides by `n`. -/
def deepFailure : String :=
  "Program p; int g; void h(int n) \x7b while (n) \x7b g = g + n; n = n - 1; \x7d 1 / n; \x7d
   int f(int g) \x7b for (;;) \x7b int g = 5; h(g); \x7d \x7d"

/-- A machine in the middle of a call, with a local `g` besides the global one. -/
def midCall : Machine :=
  ⟨⟨[("g", ⟨.int, .int 100⟩)], [[[("x", ⟨.char, .char 65⟩)], [("g", ⟨.string, .string "s"⟩)]]]⟩, .empty⟩

/-- The call of `f` stops inside the call of `h`, and all it leaves behind is a value of the global. -/
theorem deepFailure_spares_callers : ∃ p f m',
    parseSource deepFailure = .ok p ∧ p.function? "f" = some f ∧
    ((Context.ofProgram p 9 .unbounded).call 9 f [.int 7] .start midCall).machine? = some m' ∧
    m'.env.globals = [("g", ⟨.int, .int 115⟩)] ∧ m'.env.frames = midCall.env.frames ∧
    m'.env.globals.declared = midCall.env.globals.declared := by
  have hrun : ((parseSource deepFailure).toOption.bind fun p => (p.function? "f").bind fun f =>
      ((Context.ofProgram p 9 .unbounded).call 9 f [.int 7] .start midCall).machine?.map
        fun m => m.env.globals) = some [("g", ⟨.int, .int 115⟩)] := by decide +kernel
  cases hp : parseSource deepFailure with
  | error e =>
    rw [hp] at hrun
    cases hrun
  | ok p =>
    rw [hp] at hrun
    obtain ⟨f, hf, hcall⟩ :=
      Option.bind_eq_some_iff.mp (show (p.function? "f").bind _ = some _ from hrun)
    obtain ⟨m', hm', hglobals⟩ := Option.map_eq_some_iff.mp hcall
    have hspares := Context.call_spares_callers _ hm'
    exact ⟨p, f, m', rfl, hf, hm', hglobals, hspares.1, hspares.2.1⟩

end Primer
