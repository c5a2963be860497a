import Primer.Proofs.Machine.Shape

/-!
# Calls do not see their callers

A call looks names up in its own frame and among the globals. So a call on two machines that differ in
the variables of the calls in progress does the same on both: it comes to the same value or error,
records the same events and leaves the same globals behind, or it is pending on both.

- `Machine.SameEffects` relates machines with the same globals, the same number of frames and the same
  events since two given transcripts; `Machine.SameView` asks for the same local variables too.
- `Outcome.Pairs` and `Run.Parallel` compare two outcomes, and computations on two machines.
- `Run.parallel_evalCongruence`: evaluation keeps every relation of machines that lookups and assignments
  keep; `Run.parallel_congruence`: what is executed in the same view stays in the same view;
  `Context.call_parallel`: a call needs no common view to begin with, because it opens its own.
- `Context.call_unaffected_by_callers` is the statement about calls.
-/

namespace Primer

variable {α β : Type}

/-! ## Transcripts that grow alike -/

namespace Transcript

/-- Adds events in the order in which they are given. -/
def recordAll (t : Transcript) (events : List Event) : Transcript :=
  events.foldl record t

theorem recordAll_snoc (t : Transcript) (events : List Event) (e : Event) :
    t.recordAll (events ++ [e]) = (t.recordAll events).record e :=
  List.foldl_append

theorem SameTexts.record {t t' : Transcript} (h : t.SameTexts t') (e : Event) :
    (t.record e).SameTexts (t'.record e) where
  texts := by
    show (e :: t.events).filterMap Event.printed? = (e :: t'.events).filterMap Event.printed?
    have htexts : t.events.filterMap Event.printed? = t'.events.filterMap Event.printed? := h.texts
    rw [List.filterMap_cons, List.filterMap_cons, htexts]
  bytes := congrArg (· + e.text.utf8ByteSize) h.bytes

theorem SameTexts.recordAll {t t' : Transcript} (h : t.SameTexts t') (events : List Event) :
    (t.recordAll events).SameTexts (t'.recordAll events) := by
  induction events generalizing t t' with
  | nil => exact h
  | cons e events ih => exact ih (h.record e)

end Transcript

theorem Sink.write?_congr (sink : Sink) {t t' : Transcript} (h : t.SameTexts t') (text : String) :
    sink.write? t text = sink.write? t' text := by
  unfold write?
  rw [sink.refusal?_congr h]

/-! ## Variables in view -/

namespace Environment

variable {env env' : Environment}

/-- The variables that can be seen are the same, and there are as many frames. -/
structure SameView (env env' : Environment) : Prop where
  globals : env.globals = env'.globals
  locals : env.locals = env'.locals
  depth : env.depth = env'.depth

theorem SameView.lookup? (h : env.SameView env') (name : String) :
    env.lookup? name = env'.lookup? name := by
  unfold Environment.lookup?
  rw [h.locals, h.globals]

theorem SameView.assign (h : env.SameView env') (name : String) (v : Value) :
    (env.assign name v).SameView (env'.assign name v) where
  globals := by rw [globals_assign, globals_assign, h.locals, h.globals]
  locals := by rw [locals_assign, locals_assign, h.locals]
  depth := env.assign_sameCallers name v |>.depth.trans
    (h.depth.trans (env'.assign_sameCallers name v).depth.symm)

theorem SameView.define (h : env.SameView env') (name : String) (type : Ty) (v : Value) :
    (env.define name type v).SameView (env'.define name type v) where
  globals := by rw [globals_define, globals_define, h.locals, h.globals]
  locals := by rw [locals_define, locals_define, h.locals]
  depth := env.define_sameCallers name type v |>.depth.trans
    (h.depth.trans (env'.define_sameCallers name type v).depth.symm)

theorem SameView.pushScope (h : env.SameView env') : env.pushScope.SameView env'.pushScope where
  globals := by rw [pushScope_globals, pushScope_globals, h.globals]
  locals := by rw [locals_pushScope, locals_pushScope, h.locals, h.depth]
  depth := env.pushScope_sameCallers.depth.trans
    (h.depth.trans env'.pushScope_sameCallers.depth.symm)

theorem SameView.popScope (h : env.SameView env') : env.popScope.SameView env'.popScope where
  globals := by rw [popScope_globals, popScope_globals, h.globals]
  locals := by rw [locals_popScope, locals_popScope, h.locals]
  depth := by rw [depth_popScope, depth_popScope, h.depth]

end Environment

/-! ## Two machines -/

namespace Machine

variable {t₁ t₂ : Transcript} {m₁ m₂ : Machine}

/-- The machines have the same globals and as many frames, and they have recorded the same events since
their transcripts were `t₁` and `t₂`. -/
structure SameEffects (t₁ t₂ : Transcript) (m₁ m₂ : Machine) : Prop where
  globals : m₁.env.globals = m₂.env.globals
  depth : m₁.env.depth = m₂.env.depth
  recorded : ∃ events, m₁.transcript = t₁.recordAll events ∧ m₂.transcript = t₂.recordAll events

/-- The same, and the calls in progress see the same variables. -/
structure SameView (t₁ t₂ : Transcript) (m₁ m₂ : Machine) : Prop where
  env : m₁.env.SameView m₂.env
  recorded : ∃ events, m₁.transcript = t₁.recordAll events ∧ m₂.transcript = t₂.recordAll events

theorem SameView.effects (h : SameView t₁ t₂ m₁ m₂) : SameEffects t₁ t₂ m₁ m₂ :=
  ⟨h.env.globals, h.env.depth, h.recorded⟩

/-- One more event on both machines. -/
theorem recorded_snoc (h : ∃ events, m₁.transcript = t₁.recordAll events ∧
    m₂.transcript = t₂.recordAll events) (e : Event) :
    ∃ events, m₁.transcript.record e = t₁.recordAll events ∧
      m₂.transcript.record e = t₂.recordAll events := by
  obtain ⟨events, h₁, h₂⟩ := h
  refine ⟨events ++ [e], ?_, ?_⟩
  · rw [Transcript.recordAll_snoc, h₁]
  · rw [Transcript.recordAll_snoc, h₂]

/-- A frame with the same variables on both machines gives the same view. -/
theorem SameEffects.openFrame (h : SameEffects t₁ t₂ m₁ m₂) (name : String) (D : Scope) :
    SameView t₁ t₂ (m₁.openFrame name D) (m₂.openFrame name D) where
  env := ⟨h.globals, rfl, congrArg (· + 1) h.depth⟩
  recorded := by
    have hrecorded := recorded_snoc h.recorded (.called name (m₁.env.depth + 1))
    unfold Machine.openFrame
    rw [← h.depth]
    exact hrecorded

theorem SameView.popFrame (h : SameView t₁ t₂ m₁ m₂) : SameEffects t₁ t₂
    { m₁ with env := m₁.env.popFrame } { m₂ with env := m₂.env.popFrame } where
  globals := h.env.globals
  depth := by
    show m₁.env.frames.tail.length = m₂.env.frames.tail.length
    rw [List.length_tail, List.length_tail]
    exact congrArg (· - 1) h.env.depth
  recorded := h.recorded

end Machine

/-- The outcomes are the same value or the same error, on machines that `Q` relates, or both are
pending. -/
inductive Outcome.Pairs (Q : Machine → Machine → Prop) : Outcome α → Outcome α → Prop where
  | value {a : α} {m₁ m₂ : Machine} (related : Q m₁ m₂) : Outcome.Pairs Q (.value a m₁) (.value a m₂)
  | error {e : RuntimeError} {m₁ m₂ : Machine} (related : Q m₁ m₂) :
    Outcome.Pairs Q (.error e m₁) (.error e m₂)
  | pending : Outcome.Pairs Q .pending .pending

/-- What is known of the machines on either side may be added. -/
theorem Outcome.Pairs.and {Q : Machine → Machine → Prop} {P P' : Machine → Prop} {o o' : Outcome α}
    (h : o.Pairs Q o') (ho : o.Satisfies (fun _ m => P m) fun _ m => P m)
    (ho' : o'.Satisfies (fun _ m => P' m) fun _ m => P' m) :
    o.Pairs (fun m₁ m₂ => Q m₁ m₂ ∧ P m₁ ∧ P' m₂) o' := by
  cases h with
  | value related => exact .value ⟨related, ho, ho'⟩
  | error related => exact .error ⟨related, ho, ho'⟩
  | pending => exact .pending

theorem Outcome.Pairs.imp {Q Q' : Machine → Machine → Prop} {o o' : Outcome α} (h : o.Pairs Q o')
    (hQ : ∀ m₁ m₂, Q m₁ m₂ → Q' m₁ m₂) : o.Pairs Q' o' := by
  cases h with
  | value related => exact .value (hQ _ _ related)
  | error related => exact .error (hQ _ _ related)
  | pending => exact .pending

namespace Run

variable {P Q R : Machine → Machine → Prop} {t₁ t₂ : Transcript}

/-- From machines that `P` relates, the computations come to outcomes that pair, on machines that `Q`
relates. -/
def Parallel (P Q : Machine → Machine → Prop) (x y : Run α) : Prop :=
  ∀ m₁ m₂, P m₁ m₂ → (x m₁).Pairs Q (y m₂)

theorem Immediate.parallel {x : Run α} (h : Immediate x) : Parallel P P x x := by
  intro m₁ m₂ hm
  cases h with
  | value a => exact .value hm
  | error e => exact .error hm

theorem Parallel.bind {x y : Run α} {f g : α → Run β} (hx : Parallel P Q x y)
    (hf : ∀ a, Parallel Q Q (f a) (g a)) : Parallel P Q (x >>= f) (y >>= g) := by
  intro m₁ m₂ hm
  rw [bind_apply, bind_apply]
  have hpairs := hx m₁ m₂ hm
  generalize x m₁ = o₁, y m₂ = o₂ at hpairs
  cases hpairs with
  | value related => exact hf _ _ _ related
  | error related => exact .error related
  | pending => exact .pending

theorem Parallel.closing {close : Environment → Environment} {x y : Run α} (hx : Parallel P Q x y)
    (hclose : ∀ m₁ m₂, Q m₁ m₂ → R { m₁ with env := close m₁.env } { m₂ with env := close m₂.env }) :
    Parallel P R (closing close x) (closing close y) := by
  intro m₁ m₂ hm
  unfold Run.closing
  have hpairs := hx m₁ m₂ hm
  generalize x m₁ = o₁, y m₂ = o₂ at hpairs
  cases hpairs with
  | value related => exact .value (hclose _ _ related)
  | error related => exact .error (hclose _ _ related)
  | pending => exact .pending

theorem modifyEnv_parallel {f : Environment → Environment}
    (h : ∀ env env' : Environment, env.SameView env' → (f env).SameView (f env')) :
    Parallel (Machine.SameView t₁ t₂) (Machine.SameView t₁ t₂) (modifyEnv f) (modifyEnv f) :=
  fun _ _ hm => .value ⟨h _ _ hm.env, hm.recorded⟩

/-- Evaluation does the same on both machines, if names mean the same on both and calls do the same. -/
theorem parallel_evalCongruence
    (hlookup : ∀ m₁ m₂, P m₁ m₂ → ∀ name, m₁.env.lookup? name = m₂.env.lookup? name)
    (hassign : ∀ m₁ m₂, P m₁ m₂ → ∀ name v, P { m₁ with env := m₁.env.assign name v }
      { m₂ with env := m₂.env.assign name v }) :
    EvalCongruence fun {α : Type} (x y : Run α) => Parallel P P x y where
  plain h := h.immediate.parallel
  read name pos := by
    intro m₁ m₂ hm
    have hvalue : m₁.env.value? name = m₂.env.value? name :=
      congrArg (Option.map Slot.value) (hlookup m₁ m₂ hm name)
    show (orFail (m₁.env.value? name) _ m₁).Pairs _ (orFail (m₂.env.value? name) _ m₂)
    rw [hvalue]
    exact (orFail_immediate _ _).parallel m₁ m₂ hm
  assign name v pos := by
    intro m₁ m₂ hm
    -- the type of a variable is part of what its name means, so both sides convert alike
    have htype : m₁.env.type? name = m₂.env.type? name :=
      congrArg (Option.map Slot.type) (hlookup m₁ m₂ hm name)
    show ((orFail (m₁.env.type? name) _ >>= fun type => _) m₁).Pairs _
      ((orFail (m₂.env.type? name) _ >>= fun type => _) m₂)
    rw [htype]
    refine ((orFail_immediate _ _).parallel.bind fun type =>
      (coerce_plain v type pos).immediate.parallel.bind fun stored => ?_) m₁ m₂ hm
    intro m₁ m₂ hm
    exact .value (hassign m₁ m₂ hm name stored)
  seq hx hf := hx.bind hf

/-- Executed in the same view, pieces of a program do the same, if calls do. -/
theorem parallel_congruence (t₁ t₂ : Transcript) :
    Congruence fun {α : Type} (x y : Run α) =>
      Parallel (Machine.SameView t₁ t₂) (Machine.SameView t₁ t₂) x y where
  toEvalCongruence := parallel_evalCongruence (fun _ _ hm => hm.env.lookup?)
    fun _ _ hm name v => ⟨hm.env.assign name v, hm.recorded⟩
  define name type v := modifyEnv_parallel fun _ _ h => h.define name type v
  scope hx := by
    refine (modifyEnv_parallel fun _ _ h => h.pushScope).bind fun _ => hx.closing ?_
    exact fun _ _ h => ⟨h.env.popScope, h.recorded⟩

theorem parallel_loops (t₁ t₂ : Transcript) (fuel : Nat) :
    Congruence.Loops (fun {α : Type} (x y : Run α) =>
      Parallel (Machine.SameView t₁ t₂) (Machine.SameView t₁ t₂) x y) fuel fuel :=
  (parallel_congruence t₁ t₂).loops (fun _ _ _ => .pending) fuel

/-- A sink that was handed the same texts takes the same texts. -/
theorem write_parallel (htexts : t₁.SameTexts t₂) (sink : Sink) (text : String) (pos : Position) :
    Parallel (Machine.SameView t₁ t₂) (Machine.SameView t₁ t₂) (write sink text pos)
      (write sink text pos) := by
  intro m₁ m₂ hm
  have hsink : sink.write? m₁.transcript text = sink.write? m₂.transcript text := by
    obtain ⟨events, h₁, h₂⟩ := hm.recorded
    rw [h₁, h₂]
    exact sink.write?_congr (htexts.recordAll events) text
  unfold write
  rw [hsink]
  cases sink.write? m₂.transcript text with
  | some reason => exact .error hm
  | none => exact .value ⟨hm.env, Machine.recorded_snoc hm.recorded _⟩

end Run

/-! ## Calls -/

namespace Context

variable (ctx : Context) {t₁ t₂ : Transcript}

/-- Calls from inside a call: those of functions leave the frames alone, so the view is the same again
when they are over. -/
theorem calls_parallel (htexts : t₁.SameTexts t₂) {fuel : Nat}
    (h : ∀ f args pos, Run.Parallel (Machine.SameEffects t₁ t₂) (Machine.SameEffects t₁ t₂)
      (ctx.call fuel f args pos) (ctx.call fuel f args pos)) (name : String) (args : List Value)
    (pos : Position) : Run.Parallel (Machine.SameView t₁ t₂) (Machine.SameView t₁ t₂)
      (ctx.calls fuel name args pos) (ctx.calls fuel name args pos) := by
  refine (Run.parallel_congruence t₁ t₂).dispatch rfl (Run.write_parallel htexts ctx.sink) ?_ name args pos
  intro f args pos m₁ m₂ hm
  have hpairs := (h f args pos m₁ m₂ hm.effects).and (ctx.call_spares fuel f args pos m₁)
    (ctx.call_spares fuel f args pos m₂)
  refine hpairs.imp ?_
  rintro m₁' m₂' ⟨heffects, hspares₁, hspares₂⟩
  refine ⟨⟨heffects.globals, ?_, heffects.depth⟩, heffects.recorded⟩
  unfold Environment.locals
  rw [hspares₁.frames, hspares₂.frames]
  exact hm.env.locals

/-- A call has the same effects on both machines. -/
theorem call_parallel (htexts : t₁.SameTexts t₂) : ∀ (fuel : Nat) (f : FunctionDef)
    (args : List Value) (pos : Position),
      Run.Parallel (Machine.SameEffects t₁ t₂) (Machine.SameEffects t₁ t₂)
        (ctx.call fuel f args pos) (ctx.call fuel f args pos)
  | 0, _, _, _ => fun _ _ _ => .pending
  | fuel + 1, f, args, pos => by
    intro m₁ m₂ hm
    rw [call_succ]
    rcases ctx.enter_cases f args pos m₁.env.depth with ⟨e, herror⟩ | ⟨D, hvalue⟩
    · rw [Run.bind_error (herror m₁ rfl), Run.bind_error (herror m₂ hm.depth.symm)]
      exact .error hm
    rw [Run.bind_value (hvalue m₁ rfl), Run.bind_value (hvalue m₂ hm.depth.symm)]
    -- both frames hold the arguments and nothing else, so the body starts in the same view
    have hcalls := ctx.calls_parallel htexts (call_parallel htexts fuel)
    have hbody := (Run.parallel_congruence t₁ t₂).execAll hcalls
      (Run.parallel_loops t₁ t₂ (fuel + 1)) f.body
    have hclosed : Run.Parallel (Machine.SameView t₁ t₂) (Machine.SameEffects t₁ t₂)
        (Run.closing .popFrame (Run.execAll (ctx.calls fuel) (fuel + 1) f.body))
        (Run.closing .popFrame (Run.execAll (ctx.calls fuel) (fuel + 1) f.body)) :=
      hbody.closing fun _ _ h => h.popFrame
    exact (hclosed.bind fun flow => (Run.result_immediate f flow pos).parallel) _ _
      (hm.openFrame f.name D)

/-- A call on two machines with the same globals, as many frames and sinks in the same state comes to
the same value or the same error on both, or is pending on both. It records the same events, and so
prints the same, and leaves the same globals behind, whatever the variables in the frames are. -/
theorem call_unaffected_by_callers {m₁ m₂ : Machine} (hglobals : m₁.env.globals = m₂.env.globals)
    (hdepth : m₁.env.depth = m₂.env.depth) (htexts : m₁.transcript.SameTexts m₂.transcript)
    (fuel : Nat) (f : FunctionDef) (args : List Value) (pos : Position) :
    (ctx.call fuel f args pos m₁).Pairs (Machine.SameEffects m₁.transcript m₂.transcript)
      (ctx.call fuel f args pos m₂) :=
  ctx.call_parallel htexts fuel f args pos m₁ m₂ ⟨hglobals, hdepth, [], rfl, rfl⟩

end Context

/-- A function that prints the global `g` and then adds its argument to it. -/
def tally : FunctionDef :=
  let g : Expr := .var "g" .start
  { name := "tally", params := [⟨"x", .int, .start⟩], returns := .int,
    body :=
      [.eval (.call printName [.literal (.string "%d") .start, g] .start) .start,
        .ret (some (.assign "g" (.binary .add g (.var "x" .start) .start) .start)) .start],
    bodyPos := .start, pos := .start }

/-- A caller with a variable `g` of its own. -/
def hidingCaller : Machine :=
  ⟨⟨[("g", ⟨.int, .int 1⟩)], [[[("g", ⟨.string, .string "s"⟩)]]]⟩, .empty⟩

/-- Another caller, with a variable `x` in the outer one of two scopes. -/
def otherCaller : Machine :=
  ⟨⟨[("g", ⟨.int, .int 1⟩)], [[[], [("x", ⟨.int, .int 5⟩)]]]⟩,
    Transcript.empty.record (.called "f" 1)⟩

/-- For both callers the call prints and changes the global. -/
theorem tally_unaffected_by_callers :
    ((Context.mk [] 2 .unbounded).call 1 tally [.int 41] .start hidingCaller).machine?.map
      (fun m => (m.env.globals, m.transcript.output)) = some ([("g", ⟨.int, .int 42⟩)], "1") ∧
    ((Context.mk [] 2 .unbounded).call 1 tally [.int 41] .start hidingCaller).Pairs
      (Machine.SameEffects hidingCaller.transcript otherCaller.transcript)
      ((Context.mk [] 2 .unbounded).call 1 tally [.int 41] .start otherCaller) := by
  have hglobals : hidingCaller.env.globals = otherCaller.env.globals := rfl
  have htexts : hidingCaller.transcript.SameTexts otherCaller.transcript := ⟨rfl, rfl⟩
  refine ⟨by decide +kernel, ?_⟩
  exact Context.call_unaffected_by_callers _ hglobals rfl htexts 1 tally [.int 41] .start

end Primer
