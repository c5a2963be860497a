import Primer.Proofs.Machine.Call
import Primer.Proofs.Machine.Congruence

/-!
# What computations can come to

Statements about the values and the errors that a computation can come to at all, on whatever machine it
is started.

- `Run.Yields` is about values and `Run.FailsWith` about errors.
- `Run.failsWith_congruence`: what holds of the errors of single steps holds of those of execution.
- `Context.call_failsWith` is the same for calls; the error for a missing value needs a look at how the
  bodies of the functions are left.
-/

namespace Primer

namespace Run

variable {α β : Type} {P : RuntimeError → Prop} {Q : α → Prop} {Q' : β → Prop} {x : Run α}

/-! ## Values -/

/-- Every value that the computation gives satisfies `Q`. -/
def Yields (Q : α → Prop) (x : Run α) : Prop :=
  ∀ m a m', x m = .value a m' → Q a

theorem pure_yields {a : α} (h : Q a) : Yields Q (pure a) := by
  intro m b m' hb
  cases hb
  exact h

theorem Yields.bind {f : α → Run β} (hx : Yields Q x) (hf : ∀ a, Q a → Yields Q' (f a)) :
    Yields Q' (x >>= f) := by
  intro m b m' hb
  obtain ⟨a, m₁, ha, hb⟩ := bind_eq_value hb
  exact hf a (hx m a m₁ ha) m₁ b m' hb

/-- What comes first does not matter, if its value does not. -/
theorem bind_yields {f : α → Run β} (hf : ∀ a, Yields Q' (f a)) : Yields Q' (x >>= f) :=
  Yields.bind (Q := fun _ => True) (fun _ _ _ _ => trivial) fun a _ => hf a

theorem closing_eq_value {close : Environment → Environment} {a : α} {m m' : Machine}
    (h : closing close x m = .value a m') : ∃ m₁, x m = .value a m₁ := by
  unfold closing at h
  cases hx : x m with
  | value b m₁ =>
    rw [hx] at h
    cases h
    exact ⟨m₁, rfl⟩
  | error e m₁ => simp [hx] at h
  | pending => simp [hx] at h

theorem Yields.closing (hx : Yields Q x) (close : Environment → Environment) :
    Yields Q (closing close x) := by
  intro m a m' ha
  obtain ⟨m₁, ha⟩ := closing_eq_value ha
  exact hx m a m₁ ha

theorem Yields.inScope (hx : Yields Q x) : Yields Q (inScope x) :=
  bind_yields fun _ => hx.closing _

/-! ## Errors -/

/-- Every error of the computation satisfies `P`. -/
def FailsWith (P : RuntimeError → Prop) (x : Run α) : Prop :=
  ∀ m e m', x m = .error e m' → P e

/-- A computation that always gives a value. -/
theorem failsWith_of_value (h : ∀ m, ∃ a m', x m = .value a m') : FailsWith P x := by
  intro m e m' he
  obtain ⟨a, m₁, hx⟩ := h m
  rw [hx] at he
  cases he

theorem pure_failsWith (a : α) : FailsWith P (pure a : Run α) :=
  failsWith_of_value fun m => ⟨a, m, rfl⟩

theorem modifyEnv_failsWith (f : Environment → Environment) : FailsWith P (modifyEnv f) :=
  failsWith_of_value fun _ => ⟨(), _, rfl⟩

theorem fail_failsWith {e : RuntimeError} (h : P e) : FailsWith P (fail e : Run α) := by
  intro m e' m' he
  cases he
  exact h

/-- Two computations in a row, of which the second may use what the first yields. -/
theorem FailsWith.bind_of {f : α → Run β} (hx : FailsWith P x) (hyields : Yields Q x)
    (hf : ∀ a, Q a → FailsWith P (f a)) : FailsWith P (x >>= f) := by
  intro m e m' he
  rcases bind_eq_error he with he | ⟨a, m₁, ha, he⟩
  · exact hx m e m' he
  · exact hf a (hyields m a m₁ ha) m₁ e m' he

theorem FailsWith.bind {f : α → Run β} (hx : FailsWith P x) (hf : ∀ a, FailsWith P (f a)) :
    FailsWith P (x >>= f) :=
  hx.bind_of (Q := fun _ => True) (fun _ _ _ _ => trivial) fun a _ => hf a

theorem FailsWith.closing (hx : FailsWith P x) (close : Environment → Environment) :
    FailsWith P (closing close x) := by
  intro m e m' he
  obtain ⟨m₁, he⟩ := closing_eq_error he
  exact hx m e m₁ he

theorem orFail_failsWith (a? : Option α) {e : RuntimeError} (h : P e) : FailsWith P (orFail a? e) := by
  cases a? with
  | some a => exact pure_failsWith a
  | none => exact fail_failsWith h

theorem write_failsWith (h : ∀ reason pos, P (.output reason pos)) (sink : Sink) (text : String)
    (pos : Position) : FailsWith P (write sink text pos) := by
  intro m e m' he
  unfold write at he
  split at he
  · cases he
    exact h _ _
  · cases he

theorem flush_failsWith (h : ∀ reason pos, P (.output reason pos)) (sink : Sink) (pos : Position) :
    FailsWith P (flush sink pos) := by
  intro m e m' he
  unfold flush at he
  split at he
  · cases he
    exact h _ _
  · cases he

section Plain

variable (hplain : ∀ e : RuntimeError, e.isPlain = true → P e)

include hplain

theorem Plain.failsWith (hx : Plain x) : FailsWith P x := by
  cases hx with
  | value a => exact pure_failsWith a
  | error plain => exact fail_failsWith (hplain _ plain)

theorem print_failsWith (houtput : ∀ reason pos, P (.output reason pos)) (sink : Sink)
    (args : List Value) (pos : Position) : FailsWith P (print sink args pos) := by
  rcases print_cases args pos with ⟨e, he, hfail⟩ | ⟨fmt, vs, text, -, -, hprint⟩
  · rw [hfail sink]
    exact fail_failsWith (hplain e he)
  · rw [hprint sink]
    exact (write_failsWith houtput sink text pos).bind fun _ => pure_failsWith _

/-- A value is missing only where the body was left without a `return`. -/
theorem result_failsWith {f : FunctionDef} {flow : Flow} {pos : Position}
    (hmissing : (∀ v, flow ≠ .ret v) → P (.missingReturnValue f.name f.pos)) :
    FailsWith P (result f flow pos) := by
  unfold result
  split
  · exact pure_failsWith _
  · cases flow with
    | ret v => exact (coerce_plain v f.returns pos).failsWith hplain
    | normal =>
      show FailsWith P (if f.name = mainName then pure _ else fail _)
      split
      · exact pure_failsWith _
      · exact fail_failsWith (hmissing fun _ h => nomatch h)
    | brk =>
      show FailsWith P (if f.name = mainName then pure _ else fail _)
      split
      · exact pure_failsWith _
      · exact fail_failsWith (hmissing fun _ h => nomatch h)

/-- Execution fails with errors of its single steps, and of calls. -/
theorem failsWith_congruence (hvariable : ∀ name pos, P (.unknownVariable name pos)) :
    Congruence fun {α : Type} (_ x : Run α) => FailsWith P x where
  plain hx := hx.failsWith hplain
  read name pos :=
    (failsWith_of_value fun m => ⟨m.env, m, rfl⟩).bind fun _ => orFail_failsWith _ (hvariable name pos)
  assign name v pos := by
    refine (failsWith_of_value fun m => ⟨m.env, m, rfl⟩).bind fun _ => ?_
    refine (orFail_failsWith _ (hvariable name pos)).bind fun type => ?_
    refine ((coerce_plain v type pos).failsWith hplain).bind fun stored => ?_
    exact (modifyEnv_failsWith _).bind fun _ => pure_failsWith stored
  define name type v := modifyEnv_failsWith _
  seq hx hf := hx.bind hf
  scope hx := (modifyEnv_failsWith _).bind fun _ => hx.closing _

end Plain

end Run

/-! ## Calls -/

/-- What has to hold of `P` for it to hold of all errors of calls, but for a missing value. -/
structure RuntimeError.Covers (P : RuntimeError → Prop) : Prop where
  plain : ∀ e : RuntimeError, e.isPlain = true → P e
  unknownVariable : ∀ name pos, P (.unknownVariable name pos)
  output : ∀ reason pos, P (.output reason pos)
  stackOverflow : ∀ limit pos, P (.stackOverflow limit pos)
  argumentCount : ∀ name expected found pos, P (.argumentCount name expected found pos)

namespace Context

variable {P : RuntimeError → Prop} (ctx : Context)

theorem enter_failsWith (hP : RuntimeError.Covers P) (f : FunctionDef) (args : List Value)
    (pos : Position) : (ctx.enter f args pos).FailsWith P := by
  unfold enter
  refine (Run.failsWith_of_value fun m => ⟨m.env, m, rfl⟩).bind fun env => ?_
  split
  · exact Run.fail_failsWith (hP.stackOverflow _ _)
  split
  · exact Run.fail_failsWith (hP.argumentCount _ _ _ _)
  refine ((Run.coerceArgs_plain pos f.params args).failsWith hP.plain).bind fun stored => ?_
  refine (Run.modifyEnv_failsWith _).bind fun _ => ?_
  refine (Run.failsWith_of_value fun m => ⟨m.env, m, rfl⟩).bind fun env => ?_
  refine (Run.failsWith_of_value fun _ => ⟨(), _, rfl⟩).bind fun _ => ?_
  exact Run.failsWith_of_value fun m => (Run.bindParams_eq f.params stored m).elim fun _ h => ⟨(), _, h⟩

/-- How the body of a function may be left, if `P` holds of all errors: without a `return` only if `P`
holds of the missing value. -/
def LeavesWith (P : RuntimeError → Prop) (f : FunctionDef) : Prop :=
  ∀ (call : Call) (fuel : Nat), (Run.execAll call fuel f.body).Yields fun flow =>
    (∀ v, flow ≠ .ret v) → P (.missingReturnValue f.name f.pos)

theorem calls_failsWith (hP : RuntimeError.Covers P) {fuel : Nat}
    (h : ∀ f ∈ ctx.functions, ∀ args pos, (ctx.call fuel f args pos).FailsWith P) (name : String)
    (args : List Value) (pos : Position) : (ctx.calls fuel name args pos).FailsWith P :=
  @Run.EvalCongruence.dispatch_of_mem _
    (Run.failsWith_congruence hP.plain hP.unknownVariable).toEvalCongruence ctx ctx (ctx.call fuel)
    (ctx.call fuel) rfl (Run.write_failsWith hP.output ctx.sink) h name args pos

theorem call_failsWith (hP : RuntimeError.Covers P) (hleaves : ∀ f ∈ ctx.functions, LeavesWith P f) :
    ∀ (fuel : Nat), ∀ f ∈ ctx.functions, ∀ (args : List Value) (pos : Position),
      (ctx.call fuel f args pos).FailsWith P
  | 0, _, _, _, _ => fun _ _ _ he => nomatch he
  | fuel + 1, f, hf, args, pos => by
    have hcongruence := Run.failsWith_congruence hP.plain hP.unknownVariable
    have hcalls := ctx.calls_failsWith hP (call_failsWith hP hleaves fuel)
    have hbody : (Run.execAll (ctx.calls fuel) (fuel + 1) f.body).FailsWith P :=
      @Run.Congruence.execAll _ (ctx.calls fuel) (ctx.calls fuel) hcongruence hcalls _ _
        (hcongruence.loops (fun _ _ _ he => nomatch he) (fuel + 1)) f.body
    rw [call_succ]
    refine (ctx.enter_failsWith hP f args pos).bind fun _ => ?_
    -- how the body is left matters for the result only
    refine (hbody.closing _).bind_of ((hleaves f hf _ _).closing _) fun flow hflow => ?_
    exact Run.result_failsWith hP.plain hflow

end Context

end Primer
