import Primer.Proofs.Machine.Call
import Primer.Proofs.Soundness.Execution

/-!
# Soundness of calls

A function that keeps the static rules, called with arguments that fit its parameters, returns a
value of the type it declares and leaves the variables of its callers alone.

- `Context.Ok`: the functions of a context are those that the rules know, and all of them keep the
  rules in some of the globals.
- `Context.calls_sound` ties the knot: by induction on the fuel, a call is sound because the calls in
  the body of the function are.
-/

namespace Primer

/-- The functions of the context are those that the rules know, and they keep the rules. -/
structure Context.Ok (ctx : Context) (G : TypeScope) (sigs : Signatures) : Prop where
  declared : ∀ name, (ctx.function? name).map FunctionDef.type = sigs name
  functions : ∀ f ∈ ctx.functions, ∃ g, TypeScope.Within g G ∧ f.Ok sigs g

variable {G I : TypeScope} {sigs : Signatures} {Γ : TypeScopes}
  {ctx : Context}

namespace Run

/-- Arguments that fit are stored as values of the types of the parameters. -/
theorem coerceArgs_value (pos : Position) (m : Machine) :
    ∀ {params : List Param} {args : List Value},
      List.Forall₂ (fun param (v : Value) => Ty.accepts param v.type = true)
        (params.map Param.type) args →
      ∃ stored, coerceArgs pos params args m = .value stored m ∧
        List.Forall₂ (fun (p : Param) (v : Value) => v.type = p.type) params stored
  | [], [], .nil => ⟨[], rfl, .nil⟩
  | p :: params, v :: args, .cons fits rest => by
    obtain ⟨v', hv, ht⟩ := coerce_value fits pos m
    obtain ⟨stored, hstored, htypes⟩ := coerceArgs_value pos m rest
    refine ⟨v' :: stored, ?_, .cons ht htypes⟩
    rw [coerceArgs, bind_value hv, bind_value hstored]
    rfl

/-- Parameters are declared one after the other in the scope of the function. -/
theorem bindParams_value :
    ∀ {params : List Param} {stored : List Value} {S : TypeScope} {m : Machine}, Γ ≠ [] →
      List.Forall₂ (fun (p : Param) (v : Value) => v.type = p.type) params stored →
      (∀ p ∈ params, p.type ≠ .void) → m.env.Agrees G I (S :: Γ) →
      ∃ m', bindParams params stored m = .value () m' ∧
        Keeps G I (((params.map fun p => (p.name, p.type)).reverse ++ S) :: Γ) m m'
  | [], [], S, m, _, .nil, _, h => ⟨m, rfl, .refl h⟩
  | p :: params, v :: stored, S, m, hΓ, .cons hv htypes, hvoid, h => by
    have hlen : 2 ≤ (S :: Γ).length := Nat.succ_le_succ (List.length_pos_iff.mpr hΓ)
    obtain ⟨hp, hparams⟩ := List.forall_mem_cons.mp hvoid
    have hdefine : (m.env.define p.name p.type v).Agrees G I (((p.name, p.type) :: S) :: Γ) ∧
        m.env.SameCallers (m.env.define p.name p.type v) := h.define hlen hv hp
    obtain ⟨hagrees, hcallers⟩ := hdefine
    obtain ⟨m', hm', hkeeps⟩ := bindParams_value
      (m := { m with env := m.env.define p.name p.type v }) hΓ htypes hparams hagrees
    refine ⟨m', hm', ?_, hcallers.trans hkeeps.callers⟩
    -- the parameters are declared in order, so the last one stands in front
    have hscope : ((p :: params).map fun p => (p.name, p.type)).reverse ++ S =
        (params.map fun p => (p.name, p.type)).reverse ++ (p.name, p.type) :: S := by
      simp
    rw [hscope]
    exact hkeeps.agrees

/-- The value of a call has the type that the function returns. -/
theorem result_sound {f : FunctionDef} {flow : Flow} {pos : Position} {m : Machine}
    (hflow : flow.Fits f.returns) (hm : m.env.Ok) :
    (result f flow pos m).Satisfies (fun v m' => v.type = f.returns ∧ m' = m)
      (Stops G I) := by
  unfold result
  split
  · next hvoid => exact ⟨hvoid.symm, rfl⟩
  -- both ways of coming to the end without a value: only `main` gets a default
  · have hend : ((if f.name = mainName then return .default f.returns
        else fail (.missingReturnValue f.name f.pos) : Run Value) m).Satisfies
        (fun v m' => v.type = f.returns ∧ m' = m) (Stops G I) := by
      split
      · exact ⟨Value.default_type f.returns, rfl⟩
      · exact ⟨trivial, hm⟩
    cases flow with
    | normal => exact hend
    | brk => exact hend
    | ret v =>
      obtain ⟨v', hv, ht⟩ := coerce_value (hflow v rfl) pos m
      show (coerce v f.returns pos m).Satisfies _ _
      rw [hv]
      exact ⟨ht, rfl⟩

theorem print_sound {sink : Sink} {fmt : String} {vs : List Value} {pos : Position} {m : Machine}
    (h : m.env.Ok) :
    (print sink (.string fmt :: vs) pos m).Satisfies (fun v m' => v.type = .void ∧ m'.env = m.env)
      (Stops G I) := by
  unfold print
  dsimp only
  cases format fmt vs with
  | error fault => exact ⟨trivial, h⟩
  | ok text =>
    refine bind_satisfies (R := fun _ m' => m'.env = m.env) ?_ fun _ _ h' => ⟨rfl, h'⟩
    unfold write
    cases sink.write? m.transcript text with
    | none => rfl
    | some reason => exact ⟨trivial, h⟩

end Run

namespace Context

/-- A call of a function starts with the parameters and the globals before the function in scope. -/
theorem enter_sound {f : FunctionDef} {g : TypeScope} (hg : TypeScope.Within g G)
    (hf : f.Ok sigs g) {args : List Value} {pos : Position} {m : Machine}
    (hargs : List.Forall₂ (fun param (v : Value) => Ty.accepts param v.type = true)
      f.type.params args)
    (h : m.env.Sound G I) :
    (ctx.enter f args pos m).Satisfies
      (fun _ m' => m'.env.Agrees G I [f.paramScope, g] ∧ m'.env.frames.tail = m.env.frames)
      (Stops G I) := by
  rw [enter, Run.env_bind_apply]
  split
  · exact ⟨trivial, h.ok⟩
  · split
    -- the arguments were checked against the parameters, so their number cannot differ
    · next hlen =>
      have hlen' := hargs.length_eq
      simp only [FunctionDef.type, List.length_map] at hlen'
      exact absurd hlen'.symm hlen
    · obtain ⟨stored, hs, htypes⟩ := Run.coerceArgs_value pos m hargs
      rw [Run.bind_value hs]
      -- what the machine is after the frame is pushed, before the parameters are declared
      let m₀ : Machine := ⟨m.env.pushFrame, m.transcript.record (.called f.name m.env.pushFrame.depth)⟩
      obtain ⟨m₁, hm₁, h₁⟩ := Run.bindParams_value (m := m₀) (List.cons_ne_nil g []) htypes
        hf.notVoid (h.pushFrame hg)
      show (Run.bindParams f.params stored m₀).Satisfies _ _
      rw [hm₁]
      refine ⟨?_, h₁.callers.callers⟩
      have hagrees := h₁.agrees
      rwa [List.append_nil] at hagrees

theorem function?_of_signature (hctx : ctx.Ok G sigs) {name : String} {ft : FunctionType}
    (h : sigs name = some ft) :
    ∃ f, ctx.function? name = some f ∧ f.type = ft ∧ ∃ g, TypeScope.Within g G ∧ f.Ok sigs g := by
  rw [← hctx.declared name] at h
  obtain ⟨f, hf, ht⟩ := Option.map_eq_some_iff.mp h
  exact ⟨f, hf, ht, hctx.functions f (List.mem_of_find?_eq_some hf)⟩

/-- A call with more fuel is sound if the calls in the body of the function are. -/
theorem call_sound {fuel : Nat} (hcalls : (ctx.calls fuel).Sound G I sigs) {f : FunctionDef}
    {g : TypeScope} (hg : TypeScope.Within g G) (hf : f.Ok sigs g) {args : List Value}
    {pos : Position} {m : Machine}
    (hargs : List.Forall₂ (fun param (v : Value) => Ty.accepts param v.type = true)
      f.type.params args)
    (h : m.env.Sound G I) :
    (ctx.call (fuel + 1) f args pos m).Satisfies
      (fun v m' => v.type = f.returns ∧ m'.env.Sound G I ∧ m'.env.frames = m.env.frames)
      (Stops G I) := by
  rw [call_succ]
  refine Run.bind_satisfies (enter_sound hg hf hargs h) fun _ m₁ ⟨hagrees, hframes⟩ => ?_
  obtain ⟨Γ', hbody⟩ := hf.body
  -- the frame is popped however the body ends, with an error too
  refine Run.bind_satisfies (R := fun flow m' => flow.Fits f.returns ∧ m'.env.Sound G I ∧
    m'.env.frames = m.env.frames) (Run.closing_satisfies ?_) ?_
  · refine (Run.execAll_sound hcalls (fuel + 1) hbody (Nat.le_refl 2) hagrees).imp ?_ ?_
    · intro flow m₂ ⟨hflow, Γ'', _, _, _, h₂⟩
      exact ⟨hflow, h₂.agrees.sound.popFrame, h₂.callers.callers.trans hframes⟩
    · intro e m₂ ⟨he, hok⟩
      exact ⟨he, hok.popFrame⟩
  · intro flow m₂ ⟨hflow, hsound, hframes⟩
    refine (Run.result_sound hflow hsound.ok).imp_value ?_
    rintro v m₃ ⟨hv, rfl⟩
    exact ⟨hv, hsound, hframes⟩

theorem print_call_sound {enter : FunctionDef → List Value → Position → Run Value} {fmt : String}
    {vs : List Value} {pos : Position} {m : Machine} (h : m.env.Sound G I) :
    (ctx.dispatch enter printName (.string fmt :: vs) pos m).Satisfies
      (fun v m' => v.type = .void ∧ m'.env.Sound G I ∧ m'.env.frames = m.env.frames)
      (Stops G I) := by
  rw [dispatch, if_pos rfl]
  refine (Run.print_sound h.ok).imp_value ?_
  rintro v m' ⟨hv, henv⟩
  exact ⟨hv, by rw [henv]; exact h, by rw [henv]⟩

/-- Calls are sound, whatever the fuel. -/
theorem calls_sound (hctx : ctx.Ok G sigs) : ∀ fuel, (ctx.calls fuel).Sound G I sigs
  | 0 => by
    refine ⟨fun h => print_call_sound h, fun hname hsig _ _ => ?_⟩
    obtain ⟨f, hf, -⟩ := function?_of_signature hctx hsig
    rw [calls, dispatch, if_neg hname, hf]
    trivial
  | fuel + 1 => by
    refine ⟨fun h => print_call_sound h, fun hname hsig hargs h => ?_⟩
    obtain ⟨f, hf, rfl, g, hg, hok⟩ := function?_of_signature hctx hsig
    rw [calls, dispatch, if_neg hname, hf]
    exact call_sound (calls_sound hctx fuel) hg hok hargs h

end Context

end Primer
