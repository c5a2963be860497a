import Primer.Machine.Run
import Primer.Proofs.Machine.Outcome
import Primer.Proofs.Soundness.Environment

/-!
# Soundness of the static rules

Whatever keeps the static rules evaluates to values of its static type, in environments that agree
with the names in scope, and leaves such an environment behind. The only errors are those that no
static rule excludes; among them is an unknown variable, but only for a global that is not initialised yet.

- `RuntimeError.Allowed` says which errors are left.
- `Call.Sound` is what evaluation relies on about calls.
- `Run.eval_sound`, `Run.exec_sound` follow the rules, one case for each.
- `Context.calls_sound` ties the knot, by induction on the fuel.
-/

namespace Primer

/-- The errors that the static rules do not exclude. -/
def RuntimeError.Allowed (G I : TypeScope) : RuntimeError → Prop
  | .unknownVariable name _ => I.lookup name = none ∧ (G.lookup name).isSome
  | .unknownFunction _ _ | .argumentCount _ _ _ _ | .type _ _ => False
  | .arithmetic _ _ | .stackOverflow _ _ | .missingMain _ | .mainParameters _
  | .missingReturnValue _ _ | .format _ _ | .output _ _ | .stackRefused _ _ => True

/-- What a computation that stops leaves behind: such an error, and slots that are in order. -/
structure Stops (G I : TypeScope) (e : RuntimeError) (m : Machine) :
    Prop where
  allowed : e.Allowed G I
  ok : m.env.Ok

/-- What a computation leaves behind that starts from `m`: variables that agree with `Γ`, and the
same callers. -/
structure Keeps (G I : TypeScope) (Γ : TypeScopes) (m m' : Machine) :
    Prop where
  agrees : m'.env.Agrees G I Γ
  callers : m.env.SameCallers m'.env

/-- Calls of declared functions with arguments that fit, and of `print` with a format, give values of
the type that the function returns and leave the variables of all calls in progress alone. -/
structure Call.Sound (G I : TypeScope) (sigs : Signatures) (call : Call) :
    Prop where
  print : ∀ {fmt : String} {vs : List Value} {pos : Position} {m : Machine}, m.env.Sound G I →
    (call printName (.string fmt :: vs) pos m).Satisfies
      (fun v m' => v.type = .void ∧ m'.env.Sound G I ∧ m'.env.frames = m.env.frames)
      (Stops G I)
  function : ∀ {name : String} {f : FunctionType} {vs : List Value} {pos : Position} {m : Machine},
    name ≠ printName → sigs name = some f →
    List.Forall₂ (fun param (v : Value) => param.accepts v.type = true) f.params vs →
    m.env.Sound G I →
    (call name vs pos m).Satisfies
      (fun v m' => v.type = f.returns ∧ m'.env.Sound G I ∧ m'.env.frames = m.env.frames)
      (Stops G I)

/-- A value that is returned fits the type that the function returns. -/
def Flow.Fits (returns : Ty) (flow : Flow) : Prop :=
  ∀ v, flow = .ret v → returns.accepts v.type = true

variable {G I : TypeScope} {sigs : Signatures} {Γ Γ' : TypeScopes}
  {m m' m'' : Machine}

theorem Keeps.refl (h : m.env.Agrees G I Γ) : Keeps G I Γ m m :=
  ⟨h, .refl _⟩

theorem Keeps.trans (h : Keeps G I Γ m m') (h' : Keeps G I Γ' m' m'') :
    Keeps G I Γ' m m'' :=
  ⟨h'.agrees, h.callers.trans h'.callers⟩

/-- A call leaves the agreement of the caller alone. -/
theorem Keeps.of_frames (h : m.env.Agrees G I Γ) (hs : m'.env.Sound G I)
    (hf : m'.env.frames = m.env.frames) : Keeps G I Γ m m' := by
  refine ⟨⟨hs, ?_⟩, .of_frames hf⟩
  have hl := h.locals
  unfold Environment.locals at hl ⊢
  rw [hf]
  exact hl

/-! ## Values -/

namespace Value

theorem ofLiteral_type (l : Literal) : (ofLiteral l).type = l.type := by
  cases l <;> rfl

/-- A value of a type that is accepted can be stored. -/
theorem coerce?_of_accepts {v : Value} {t : Ty} (h : t.accepts v.type = true) :
    ∃ v', v.coerce? t = some v' ∧ v'.type = t := by
  cases v <;> cases t <;> simp_all [Ty.accepts, coerce?, type]

/-- A value of an integral type has an integer behind it. -/
theorem integer?_of_isIntegral {v : Value} (h : v.type.isIntegral = true) :
    ∃ n, v.integer? = some n := by
  cases v with
  | int n => exact ⟨n, rfl⟩
  | char c => exact ⟨codeOf c, rfl⟩
  | string s => simp [type, Ty.isIntegral] at h
  | void => simp [type, Ty.isIntegral] at h

end Value

namespace Run

theorem coerce_value {v : Value} {t : Ty} (h : t.accepts v.type = true) (pos : Position)
    (m : Machine) : ∃ v', coerce v t pos m = .value v' m ∧ v'.type = t := by
  obtain ⟨v', hv, ht⟩ := Value.coerce?_of_accepts h
  exact ⟨v', by rw [coerce, hv]; rfl, ht⟩

theorem truth_value {v : Value} (h : v.type.isIntegral = true) (pos : Position) (m : Machine) :
    ∃ b, truth v pos m = .value b m := by
  obtain ⟨n, hn⟩ := Value.integer?_of_isIntegral h
  exact ⟨n != 0, by simp [truth, hn]⟩

theorem switchKey_value {v : Value} (h : v.type.isIntegral = true) (pos : Position) (m : Machine) :
    ∃ n, switchKey v pos m = .value n m := by
  obtain ⟨n, hn⟩ := Value.integer?_of_isIntegral h
  exact ⟨n, by rw [switchKey, hn]; rfl⟩

theorem arithmetic_sound (r : Except ArithmeticFault Int64) (pos : Position)
    (h : m.env.Agrees G I Γ) :
    (arithmetic r pos m).Satisfies (fun v m' => v.type = .int ∧ Keeps G I Γ m m')
      (Stops G I) := by
  cases r with
  | ok n => exact ⟨rfl, .refl h⟩
  | error fault => exact ⟨trivial, h.sound.ok⟩

theorem binary_sound {op : BinaryOp} {a b : Value} {pos : Position}
    (ha : a.type.isIntegral = true) (hb : b.type.isIntegral = true) (h : m.env.Agrees G I Γ) :
    (binary op a b pos m).Satisfies (fun v m' => v.type = .int ∧ Keeps G I Γ m m')
      (Stops G I) := by
  obtain ⟨x, hx⟩ := Value.integer?_of_isIntegral ha
  obtain ⟨y, hy⟩ := Value.integer?_of_isIntegral hb
  rw [binary, hx, hy]
  exact arithmetic_sound _ pos h

theorem unary_sound {op : UnaryOp} {a : Value} {pos : Position} (ha : a.type.isIntegral = true)
    (h : m.env.Agrees G I Γ) :
    (unary op a pos m).Satisfies (fun v m' => v.type = .int ∧ Keeps G I Γ m m')
      (Stops G I) := by
  obtain ⟨x, hx⟩ := Value.integer?_of_isIntegral ha
  rw [unary, hx]
  exact arithmetic_sound _ pos h

/-! ## Variables -/

theorem readVar_sound {name : String} {pos : Position} {t : Ty} (ht : Γ.type? name = some t)
    (h : m.env.Agrees G I Γ) :
    (readVar name pos m).Satisfies (fun v m' => v.type = t ∧ Keeps G I Γ m m')
      (Stops G I) := by
  rw [readVar, env_bind_apply]
  refine orFail_satisfies (fun v hv => ?_) fun hv => ?_
  · obtain ⟨s, hs, rfl⟩ := Option.map_eq_some_iff.mp hv
    have htype : s.value.type = s.type := (h.sound.ok.lookup hs).1
    exact ⟨htype.trans (h.type_of_lookup ht hs), .refl h⟩
  · exact ⟨h.uninitialised_of_lookup ht (Option.map_eq_none_iff.mp hv), h.sound.ok⟩

theorem assignVar_sound {name : String} {v : Value} {pos : Position} {t : Ty}
    (ht : Γ.type? name = some t) (hv : t.accepts v.type = true) (h : m.env.Agrees G I Γ) :
    (assignVar name v pos m).Satisfies (fun v m' => v.type = t ∧ Keeps G I Γ m m')
      (Stops G I) := by
  rw [assignVar, env_bind_apply]
  cases hs : m.env.lookup? name with
  | none =>
    rw [bind_error (show orFail (m.env.type? name) _ m = _ by rw [Environment.type?, hs]; rfl)]
    exact ⟨h.uninitialised_of_lookup ht hs, h.sound.ok⟩
  | some s =>
    have hst : s.type = t := h.type_of_lookup ht hs
    rw [bind_value (show orFail (m.env.type? name) _ m = _ by rw [Environment.type?, hs]; rfl)]
    obtain ⟨stored, hstored, htype⟩ := coerce_value (hst ▸ hv) pos m
    rw [bind_value hstored]
    refine ⟨htype.trans hst, h.assign fun s' hs' => ?_, Environment.assign_sameCallers name stored⟩
    cases hs.symm.trans hs'
    exact htype

/-! ## Expressions -/

variable {call : Call}

mutual

/-- An expression evaluates to a value of its static type. -/
theorem eval_sound (hcall : call.Sound G I sigs) :
    ∀ {e : Expr} {t : Ty} {m : Machine}, HasType sigs Γ e t → m.env.Agrees G I Γ →
      (eval call e m).Satisfies (fun v m' => v.type = t ∧ Keeps G I Γ m m') (Stops G I)
  | _, _, m, .literal value pos, h => by
    rw [eval]
    exact ⟨Value.ofLiteral_type value, .refl h⟩
  | _, _, m, .var bound, h => by
    rw [eval]
    exact readVar_sound bound h
  | _, _, m, .assign typed _ bound fits, h => by
    rw [eval]
    refine bind_satisfies (eval_sound hcall typed h) fun v m₁ ⟨hv, h₁⟩ => ?_
    exact (assignVar_sound bound (hv ▸ fits) h₁.agrees).imp_value fun _ _ ⟨ht, h₂⟩ =>
      ⟨ht, h₁.trans h₂⟩
  | _, _, m, .unary typed integral, h => by
    rw [eval]
    refine bind_satisfies (eval_sound hcall typed h) fun v m₁ ⟨hv, h₁⟩ => ?_
    exact (unary_sound (hv ▸ integral) h₁.agrees).imp_value fun _ _ ⟨ht, h₂⟩ => ⟨ht, h₁.trans h₂⟩
  | .binary op left right pos, _, m, .binary leftTyped rightTyped leftIntegral rightIntegral, h => by
    have hleft : (eval call left m).Satisfies
        (fun v m' => v.type.isIntegral = true ∧ Keeps G I Γ m m') (Stops G I) :=
      (eval_sound hcall leftTyped h).imp_value fun v _ ⟨hv, h'⟩ => ⟨hv ▸ leftIntegral, h'⟩
    have hright : ∀ m₁, Keeps G I Γ m m₁ → (eval call right m₁).Satisfies
        (fun v m' => v.type.isIntegral = true ∧ Keeps G I Γ m m') (Stops G I) := fun m₁ h₁ =>
      (eval_sound hcall rightTyped h₁.agrees).imp_value fun v _ ⟨hv, h'⟩ =>
        ⟨hv ▸ rightIntegral, h₁.trans h'⟩
    -- The second operand of `&&` and `||` is evaluated on one side only, and gives a truth value.
    have hsecond : ∀ m₁, Keeps G I Γ m m₁ →
        ((do let b ← eval call right; return .ofBool (← truth b right.pos) : Run Value) m₁).Satisfies
          (fun v m' => v.type = .int ∧ Keeps G I Γ m m') (Stops G I) := by
      intro m₁ h₁
      refine bind_satisfies (hright m₁ h₁) fun b m₂ ⟨hb, h₂⟩ => ?_
      obtain ⟨q, hq⟩ := truth_value hb right.pos m₂
      rw [bind_value hq]
      exact ⟨rfl, h₂⟩
    cases op with
    | and =>
      rw [eval]
      refine bind_satisfies hleft fun a m₁ ⟨ha, h₁⟩ => ?_
      obtain ⟨p, hp⟩ := truth_value ha left.pos m₁
      rw [bind_value hp]
      cases p with
      | true => exact hsecond m₁ h₁
      | false => exact ⟨rfl, h₁⟩
    | or =>
      rw [eval]
      refine bind_satisfies hleft fun a m₁ ⟨ha, h₁⟩ => ?_
      obtain ⟨p, hp⟩ := truth_value ha left.pos m₁
      rw [bind_value hp]
      cases p with
      | true => exact ⟨rfl, h₁⟩
      | false => exact hsecond m₁ h₁
    | _ =>
      rw [eval]
      · refine bind_satisfies hleft fun a m₁ ⟨ha, h₁⟩ => ?_
        refine bind_satisfies (hright m₁ h₁) fun b m₂ ⟨hb, h₂⟩ => ?_
        exact (binary_sound ha hb h₂.agrees).imp_value fun _ _ ⟨ht, h₃⟩ => ⟨ht, h₂.trans h₃⟩
      all_goals exact fun h => nomatch h
  | _, _, m, .print formatTyped argsTyped, h => by
    rw [eval, evalAll]
    refine bind_satisfies (bind_satisfies
      (Q := fun vs m' => ∃ fmt rest, vs = .string fmt :: rest ∧ Keeps G I Γ m m')
      (eval_sound hcall formatTyped h) fun v m₁ ⟨hv, h₁⟩ => ?_) ?_
    · refine bind_satisfies (evalAll_sound hcall argsTyped h₁.agrees) fun vs m₂ ⟨_, h₂⟩ => ?_
      cases v with
      | string fmt => exact ⟨fmt, vs, rfl, h₁.trans h₂⟩
      | _ => exact nomatch hv
    · rintro _ m₂ ⟨fmt, rest, rfl, h₂⟩
      refine (hcall.print h₂.agrees.sound).imp_value fun v m₃ ⟨hv, hs, hf⟩ => ?_
      exact ⟨hv, h₂.trans (.of_frames h₂.agrees hs hf)⟩
  | _, _, m, .call (f := f) notPrint declared argsTyped fit, h => by
    rw [eval]
    refine bind_satisfies (evalAll_sound hcall argsTyped h) fun vs m₁ ⟨hvs, h₁⟩ => ?_
    have hfit : List.Forall₂ (fun param (v : Value) => param.accepts v.type = true) f.params vs := by
      rw [← hvs, List.forall₂_map_right_iff] at fit
      exact fit
    refine (hcall.function notPrint declared hfit h₁.agrees.sound).imp_value ?_
    intro v m₂ ⟨hv, hs, hf⟩
    exact ⟨hv, h₁.trans (.of_frames h₁.agrees hs hf)⟩

theorem evalAll_sound (hcall : call.Sound G I sigs) :
    ∀ {es : List Expr} {ts : List Ty} {m : Machine}, HasTypes sigs Γ es ts →
      m.env.Agrees G I Γ →
      (evalAll call es m).Satisfies (fun vs m' => vs.map Value.type = ts ∧ Keeps G I Γ m m')
        (Stops G I)
  | _, _, m, .nil, h => by
    rw [evalAll]
    exact ⟨rfl, .refl h⟩
  | _, _, m, .cons typed _ rest, h => by
    rw [evalAll]
    refine bind_satisfies (eval_sound hcall typed h) fun v m₁ ⟨hv, h₁⟩ => ?_
    refine bind_satisfies (evalAll_sound hcall rest h₁.agrees) fun vs m₂ ⟨hvs, h₂⟩ => ?_
    exact ⟨by rw [List.map_cons, hv, hvs], h₁.trans h₂⟩

end

theorem condition_sound (hcall : call.Sound G I sigs) {e : Expr} (he : IsIntegral sigs Γ e)
    (h : m.env.Agrees G I Γ) :
    (condition call e m).Satisfies (fun _ m' => Keeps G I Γ m m') (Stops G I) := by
  obtain ⟨t, typed, integral⟩ := he
  refine bind_satisfies (eval_sound hcall typed h) fun v m₁ ⟨hv, h₁⟩ => ?_
  obtain ⟨b, hb⟩ := truth_value (hv ▸ integral) e.pos m₁
  rw [hb]
  exact h₁

theorem guard_sound (hcall : call.Sound G I sigs) {e? : Option Expr}
    (he : ∀ e ∈ e?, IsIntegral sigs Γ e) (h : m.env.Agrees G I Γ) :
    (guard call e? m).Satisfies (fun _ m' => Keeps G I Γ m m') (Stops G I) := by
  cases e? with
  | none => exact Keeps.refl h
  | some e => exact condition_sound hcall (he e rfl) h

theorem effect_sound (hcall : call.Sound G I sigs) {e? : Option Expr}
    (he : ∀ e ∈ e?, HasSomeType sigs Γ e) (h : m.env.Agrees G I Γ) :
    (effect call e? m).Satisfies (fun _ m' => Keeps G I Γ m m') (Stops G I) := by
  cases e? with
  | none => exact Keeps.refl h
  | some e =>
    obtain ⟨t, typed⟩ := he e rfl
    exact bind_satisfies (eval_sound hcall typed h) fun _ _ ⟨_, h₁⟩ => h₁

/-! ## Statements -/

/-- The value that a declaration stores has the declared type. -/
theorem declare_value_sound (hcall : call.Sound G I sigs) {d : VarDecl} (hd : d.Ok sigs Γ)
    (h : m.env.Agrees G I Γ) {Q : Unit → Machine → Prop}
    (hQ : ∀ v m', v.type = d.type → Keeps G I Γ m m' →
      Q () { m' with env := m'.env.define d.name d.type v }) :
    (declare call d m).Satisfies Q (Stops G I) := by
  unfold declare
  cases hi : d.init with
  | none => exact hQ _ m (Value.default_type d.type) (.refl h)
  | some e =>
    obtain ⟨t, typed, _, fits⟩ := hd.init e hi
    refine bind_satisfies (eval_sound hcall typed h) fun v m₁ ⟨hv, h₁⟩ => ?_
    obtain ⟨stored, hstored, htype⟩ := coerce_value (hv ▸ fits) e.pos m₁
    rw [bind_value hstored]
    exact hQ stored m₁ htype h₁

theorem declare_sound (hcall : call.Sound G I sigs) {d : VarDecl} (hd : d.Ok sigs Γ)
    (hΓ : 2 ≤ Γ.length) (h : m.env.Agrees G I Γ) :
    (declare call d m).Satisfies (fun _ m' => Keeps G I (Γ.declare d.name d.type) m m')
      (Stops G I) := by
  refine declare_value_sound hcall hd h fun v m₁ hv h₁ => ?_
  obtain ⟨hagrees, hcallers⟩ := h₁.agrees.define hΓ hv hd.notVoid
  exact ⟨hagrees, h₁.callers.trans hcallers⟩

theorem forInit_sound (hcall : call.Sound G I sigs) {init : Option ForInit}
    (hi : ForInit.Ok sigs Γ init Γ') (hΓ : 2 ≤ Γ.length) (h : m.env.Agrees G I Γ) :
    (forInit call init m).Satisfies (fun _ m' => Keeps G I Γ' m m') (Stops G I) := by
  cases hi with
  | none => exact Keeps.refl h
  | eval typed =>
    obtain ⟨t, typed⟩ := typed
    exact bind_satisfies (eval_sound hcall typed h) fun _ _ ⟨_, h₁⟩ => h₁
  | declare ok => exact declare_sound hcall ok hΓ h

/-- What is executed in a scope of its own leaves the names around it as they were. -/
theorem inScope_sound {α : Type} {x : Run α} {R : α → Prop} (hΓ : 2 ≤ Γ.length)
    (h : m.env.Agrees G I Γ)
    (hx : ∀ m₁ : Machine, m₁.env.Agrees G I ([] :: Γ) →
      (x m₁).Satisfies (fun a m' => R a ∧ ∃ S, Keeps G I (S :: Γ) m₁ m') (Stops G I)) :
    (inScope x m).Satisfies (fun a m' => R a ∧ Keeps G I Γ m m') (Stops G I) := by
  have hne : Γ ≠ [] := List.ne_nil_of_length_pos (Nat.lt_of_lt_of_le Nat.two_pos hΓ)
  refine inScope_satisfies ((hx _ (h.pushScope hΓ)).imp ?_ ?_)
  · intro a m' ⟨ha, S, h'⟩
    exact ⟨ha, h'.agrees.popScope hne, Environment.pushScope_popScope_sameCallers h'.callers⟩
  · intro e m' ⟨he, hok⟩
    exact ⟨he, hok.popScope⟩

/-- A loop keeps the names in scope as they are. -/
theorem loop_sound {guard : Run Bool} {body : Run Flow} {step : Run Unit} {returns : Ty}
    (hguard : ∀ m : Machine, m.env.Agrees G I Γ →
      (guard m).Satisfies (fun _ m' => Keeps G I Γ m m') (Stops G I))
    (hbody : ∀ m : Machine, m.env.Agrees G I Γ →
      (body m).Satisfies (fun flow m' => flow.Fits returns ∧ Keeps G I Γ m m') (Stops G I))
    (hstep : ∀ m : Machine, m.env.Agrees G I Γ →
      (step m).Satisfies (fun _ m' => Keeps G I Γ m m') (Stops G I))
    (fuel : Nat) (h : m.env.Agrees G I Γ) :
    (loop guard body step fuel m).Satisfies
      (fun flow m' => flow.Fits returns ∧ Keeps G I Γ m m') (Stops G I) := by
  -- the invariant of the loop: the machine is kept since the loop was entered
  refine loop_satisfies (I := fun m' => Keeps G I Γ m m') ?_ ?_ fuel m (.refl h)
  · intro m₁ h₁
    refine (hguard m₁ h₁.agrees).imp_value fun b m₂ h₂ => ?_
    cases b with
    | true => exact h₁.trans h₂
    | false => exact ⟨fun _ h => (nomatch h), h₁.trans h₂⟩
  · intro m₁ h₁
    refine (hbody m₁ h₁.agrees).imp_value fun flow m₂ ⟨hflow, h₂⟩ => ?_
    cases flow with
    | normal => exact (hstep m₂ h₂.agrees).imp_value fun _ m₃ h₃ => (h₁.trans h₂).trans h₃
    | brk => exact ⟨fun _ h => (nomatch h), h₁.trans h₂⟩
    | ret v => exact ⟨hflow, h₁.trans h₂⟩

mutual

/-- A statement that keeps the rules. -/
theorem exec_sound (hcall : call.Sound G I sigs) (fuel : Nat) {returns : Ty} :
    ∀ {inLoop : Bool} {Γ Γ' : TypeScopes} {s : Stmt} {m : Machine},
      Stmt.Ok sigs returns inLoop Γ s Γ' → 2 ≤ Γ.length → m.env.Agrees G I Γ →
      (exec call fuel s m).Satisfies (fun flow m' => flow.Fits returns ∧ Keeps G I Γ' m m')
        (Stops G I)
  | _, _, _, _, m, .declare ok, hΓ, h => by
    rw [exec]
    exact bind_satisfies (declare_sound hcall ok hΓ h) fun _ m₁ h₁ => ⟨fun _ h => (nomatch h), h₁⟩
  | _, _, _, _, m, .eval typed, hΓ, h => by
    rw [exec]
    obtain ⟨t, typed⟩ := typed
    exact bind_satisfies (eval_sound hcall typed h) fun _ m₁ ⟨_, h₁⟩ =>
      ⟨fun _ h => (nomatch h), h₁⟩
  | _, _, _, _, m, .block bodyOk, hΓ, h => by
    rw [exec]
    refine inScope_sound hΓ h fun m₁ h₁ => ?_
    refine (execAll_sound hcall fuel bodyOk (Nat.le_succ_of_le hΓ) h₁).imp_value ?_
    -- control may leave the block early, so the scope may lack names that the rules have at its end
    intro flow m₂ ⟨hflow, Γ₂, hext, _, _, h₂⟩
    obtain ⟨S, hS⟩ := hext.eq_cons
    exact ⟨hflow, S, hS ▸ h₂⟩
  | _, _, _, _, m, .branch condOk onTrueOk, hΓ, h => by
    rw [exec]
    refine bind_satisfies (condition_sound hcall condOk h) fun b m₁ h₁ => ?_
    cases b with
    | true =>
      exact (exec_sound hcall fuel onTrueOk hΓ h₁.agrees).imp_value fun _ _ ⟨hflow, h₂⟩ =>
        ⟨hflow, h₁.trans h₂⟩
    | false => exact ⟨fun _ h => (nomatch h), h₁⟩
  | _, _, _, _, m, .branchElse condOk onTrueOk onFalseOk, hΓ, h => by
    rw [exec]
    refine bind_satisfies (condition_sound hcall condOk h) fun b m₁ h₁ => ?_
    cases b with
    | true =>
      exact (exec_sound hcall fuel onTrueOk hΓ h₁.agrees).imp_value fun _ _ ⟨hflow, h₂⟩ =>
        ⟨hflow, h₁.trans h₂⟩
    | false =>
      exact (exec_sound hcall fuel onFalseOk hΓ h₁.agrees).imp_value fun _ _ ⟨hflow, h₂⟩ =>
        ⟨hflow, h₁.trans h₂⟩
  | _, _, _, _, m, .whileLoop condOk bodyOk, hΓ, h => by
    rw [exec]
    refine loop_sound (fun m₁ => condition_sound hcall condOk)
      (fun m₁ => exec_sound hcall fuel bodyOk hΓ) ?_ fuel h
    exact fun m₁ h₁ => Keeps.refl h₁
  | _, _, _, _, m, .forLoop initOk condOk stepOk bodyOk, hΓ, h => by
    rw [exec]
    refine inScope_sound hΓ h fun m₁ h₁ => ?_
    have hΓ' := Nat.le_succ_of_le hΓ
    refine bind_satisfies (forInit_sound hcall initOk hΓ' h₁) fun _ m₂ h₂ => ?_
    -- the scope of the loop is there before `init` and stays until the end
    have hlen := initOk.extends.length_eq
    have hloop := loop_sound (fun m₁ => guard_sound hcall condOk)
      (fun m₁ => exec_sound hcall fuel bodyOk (hlen ▸ hΓ')) (fun m₁ => effect_sound hcall stepOk)
      fuel h₂.agrees
    refine hloop.imp_value fun flow m₃ ⟨hflow, h₃⟩ => ?_
    obtain ⟨S, hS⟩ := initOk.extends.eq_cons
    exact ⟨hflow, S, hS ▸ h₂.trans h₃⟩
  | _, _, _, .switch _ groups _, m, .switch typed integral _ groupsOk, hΓ, h => by
    rw [exec]
    refine bind_satisfies (eval_sound hcall typed h) fun v m₁ ⟨hv, h₁⟩ => ?_
    obtain ⟨key, hkey⟩ := switchKey_value (hv ▸ integral) _ m₁
    rw [bind_value hkey]
    cases startOf? key groups with
    | some start =>
      exact (execFrom_sound hcall fuel start groupsOk hΓ h₁.agrees).imp_value fun _ _ ⟨hflow, h₂⟩ =>
        ⟨hflow, h₁.trans h₂⟩
    | none => exact ⟨fun _ h => (nomatch h), h₁⟩
  | _, _, _, _, m, .ret _ fits, hΓ, h => by
    rw [exec]
    obtain ⟨t, typed, _, fits⟩ := fits
    refine bind_satisfies (eval_sound hcall typed h) fun v m₁ ⟨hv, h₁⟩ => ?_
    refine ⟨fun v' hv' => ?_, h₁⟩
    cases hv'
    exact hv ▸ fits
  | _, _, _, _, m, .retVoid isVoid, hΓ, h => by
    rw [exec]
    refine ⟨fun v' hv' => ?_, .refl h⟩
    cases hv'
    rw [isVoid]
    rfl
  | _, _, _, _, m, .brk, hΓ, h => by
    rw [exec]
    exact ⟨fun _ h => (nomatch h), .refl h⟩

/-- Statements in a row: when control leaves early, some of the names may not be there yet. -/
theorem execAll_sound (hcall : call.Sound G I sigs) (fuel : Nat) {returns : Ty} :
    ∀ {inLoop : Bool} {Γ Γ' : TypeScopes} {body : List Stmt} {m : Machine},
      Stmt.ListOk sigs returns inLoop Γ body Γ' → 2 ≤ Γ.length → m.env.Agrees G I Γ →
      (execAll call fuel body m).Satisfies
        (fun flow m' => flow.Fits returns ∧ ∃ Γ'', TypeScopes.Extends Γ Γ'' ∧
          TypeScopes.Extends Γ'' Γ' ∧ (flow = .normal → Γ'' = Γ') ∧ Keeps G I Γ'' m m')
        (Stops G I)
  | _, Γ, _, _, m, .nil, _, h => by
    rw [execAll]
    exact ⟨fun _ h => (nomatch h), Γ, .refl Γ, .refl Γ, fun _ => rfl, .refl h⟩
  | _, Γ, Γ', _, m, @Stmt.ListOk.cons _ _ _ _ Γ₁ _ _ _ head tail, hΓ, h => by
    rw [execAll]
    refine bind_satisfies (exec_sound hcall fuel head hΓ h) fun flow m₁ ⟨hflow, h₁⟩ => ?_
    have hΓ₁ : 2 ≤ Γ₁.length := head.extends.length_eq ▸ hΓ
    cases flow with
    | normal =>
      refine (execAll_sound hcall fuel tail hΓ₁ h₁.agrees).imp_value ?_
      intro flow m₂ ⟨hflow, Γ₂, hext, hext', hnormal, h₂⟩
      exact ⟨hflow, Γ₂, head.extends.trans hext, hext', hnormal, h₁.trans h₂⟩
    | brk => exact ⟨hflow, Γ₁, head.extends, tail.extends, fun h => (nomatch h), h₁⟩
    | ret v => exact ⟨hflow, Γ₁, head.extends, tail.extends, fun h => (nomatch h), h₁⟩

/-- Case groups declare nothing. -/
theorem execFrom_sound (hcall : call.Sound G I sigs) (fuel : Nat) {returns : Ty} :
    ∀ (start : Nat) {Γ : TypeScopes} {groups : List CaseGroup} {m : Machine},
      CaseGroup.ListOk sigs returns Γ groups → 2 ≤ Γ.length → m.env.Agrees G I Γ →
      (execFrom call fuel start groups m).Satisfies
        (fun flow m' => flow.Fits returns ∧ Keeps G I Γ m m') (Stops G I)
  | start, _, _, m, .nil, _, h => by
    cases start <;> exact ⟨fun _ h => (nomatch h), .refl h⟩
  | start + 1, _, _, m, .cons _ tail, hΓ, h => by
    rw [execFrom]
    exact execFrom_sound hcall fuel start tail hΓ h
  | 0, Γ, _, m, .cons bodyOk tail, hΓ, h => by
    rw [execFrom]
    refine bind_satisfies (execAll_sound hcall fuel bodyOk hΓ h) ?_
    intro flow m₁ ⟨hflow, Γ₁, hext, hext', _, h₁⟩
    -- a group opens no scope, and one whose names stay as they are cannot have declared any
    rw [hext.antisymm hext'] at h₁
    cases flow with
    | normal =>
      exact (execFrom_sound hcall fuel 0 tail hΓ h₁.agrees).imp_value fun _ _ ⟨hflow, h₂⟩ =>
        ⟨hflow, h₁.trans h₂⟩
    | brk => exact ⟨fun _ h => (nomatch h), h₁⟩
    | ret v => exact ⟨hflow, h₁⟩

end

end Run

end Primer
