import Primer.Machine.Execution

/-!
# Reasoning about outcomes

A computation on a machine is described by what holds of its value, and what holds of its error, if
it comes to either. Nothing is said about a computation that is still pending, so every statement of
this kind holds of runs that go on for ever too.

- `Outcome.Satisfies` is that description, for one outcome.
- `Run.bind_satisfies` composes descriptions; there is one such lemma for each way in which
  computations are put together.
- `Run.loop_satisfies` is the rule for loops: an invariant that one round keeps.
-/

namespace Primer

namespace Outcome

variable {α β : Type}

/-- The machine that a computation leaves behind, if it comes to an end. -/
def machine? : Outcome α → Option Machine
  | .value _ m => some m
  | .error _ m => some m
  | .pending => none

/-- The outcome is a value with `Q`, an error with `E`, or pending. -/
def Satisfies (o : Outcome α) (Q : α → Machine → Prop) (E : RuntimeError → Machine → Prop) : Prop :=
  match o with
  | .value a m => Q a m
  | .error e m => E e m
  | .pending => True

/-- A description may be weakened. -/
theorem Satisfies.imp {o : Outcome α} {Q Q' : α → Machine → Prop}
    {E E' : RuntimeError → Machine → Prop} (h : o.Satisfies Q E)
    (hQ : ∀ a m, Q a m → Q' a m) (hE : ∀ e m, E e m → E' e m) : o.Satisfies Q' E' := by
  cases o with
  | value a m => exact hQ a m h
  | error e m => exact hE e m h
  | pending => trivial

/-- A description may be weakened for values. -/
theorem Satisfies.imp_value {o : Outcome α} {Q Q' : α → Machine → Prop}
    {E : RuntimeError → Machine → Prop} (h : o.Satisfies Q E)
    (hQ : ∀ a m, Q a m → Q' a m) : o.Satisfies Q' E :=
  h.imp hQ fun _ _ hE => hE

/-- Two descriptions of one outcome. -/
theorem Satisfies.and {o : Outcome α} {Q Q' : α → Machine → Prop}
    {E E' : RuntimeError → Machine → Prop} (h : o.Satisfies Q E) (h' : o.Satisfies Q' E') :
    o.Satisfies (fun a m => Q a m ∧ Q' a m) fun e m => E e m ∧ E' e m := by
  cases o with
  | value a m => exact ⟨h, h'⟩
  | error e m => exact ⟨h, h'⟩
  | pending => trivial

/-- What holds after a value and after an error holds of the machine that is left behind. -/
theorem Satisfies.machine {o : Outcome α} {P : Machine → Prop} {m : Machine}
    (h : o.Satisfies (fun _ m => P m) fun _ m => P m) (hm : o.machine? = some m) : P m := by
  cases o with
  | value a m' =>
    cases hm
    exact h
  | error e m' =>
    cases hm
    exact h
  | pending => cases hm

end Outcome

namespace Run

variable {α β : Type} {Q : β → Machine → Prop} {E : RuntimeError → Machine → Prop} {m : Machine}

@[simp] theorem pure_apply (a : α) (m : Machine) : (pure a : Run α) m = .value a m := rfl

@[simp] theorem fail_apply (e : RuntimeError) (m : Machine) : (fail e : Run α) m = .error e m := rfl

/-- How two computations in a row come out. -/
theorem bind_apply (x : Run α) (f : α → Run β) (m : Machine) :
    (x >>= f) m =
      match x m with
      | .value a m => f a m
      | .error e m => .error e m
      | .pending => .pending := rfl

instance : LawfulMonad Run := by
  refine .mk' Run ?_ (fun _ _ => rfl) ?_
  · intro α x
    funext m
    show (x >>= pure) m = x m
    rw [bind_apply]
    cases x m with
    | value a m' => rfl
    | error e m' => rfl
    | pending => rfl
  · intro α β γ x f g
    funext m
    rw [bind_apply, bind_apply, bind_apply]
    cases x m with
    | value a m' => rfl
    | error e m' => rfl
    | pending => rfl

theorem env_bind_apply (f : Environment → Run β) (m : Machine) : (env >>= f) m = f m.env m := rfl

theorem bind_value {x : Run α} {f : α → Run β} {a : α} {m' : Machine} (h : x m = .value a m') :
    (x >>= f) m = f a m' := by
  rw [bind_apply, h]

theorem bind_error {x : Run α} {f : α → Run β} {e : RuntimeError} {m' : Machine}
    (h : x m = .error e m') : (x >>= f) m = .error e m' := by
  rw [bind_apply, h]

/-- A value of two computations in a row is one of the second, on the machine left by the first. -/
theorem bind_eq_value {x : Run α} {f : α → Run β} {b : β} {m' : Machine}
    (h : (x >>= f) m = .value b m') : ∃ a m₁, x m = .value a m₁ ∧ f a m₁ = .value b m' := by
  rw [bind_apply] at h
  cases hx : x m with
  | value a m₁ => exact ⟨a, m₁, rfl, by simpa [hx] using h⟩
  | error e m₁ => simp [hx] at h
  | pending => simp [hx] at h

/-- An error of two computations in a row is one of the first or one of the second. -/
theorem bind_eq_error {x : Run α} {f : α → Run β} {e : RuntimeError} {m' : Machine}
    (h : (x >>= f) m = .error e m') :
    x m = .error e m' ∨ ∃ a m₁, x m = .value a m₁ ∧ f a m₁ = .error e m' := by
  rw [bind_apply] at h
  cases hx : x m with
  | value a m₁ => exact .inr ⟨a, m₁, rfl, by simpa [hx] using h⟩
  | error e₁ m₁ => exact .inl (by simpa [hx] using h)
  | pending => simp [hx] at h

/-- Two computations in a row: what the first leaves behind is what the second starts from. -/
theorem bind_satisfies {x : Run α} {f : α → Run β} {R : α → Machine → Prop}
    (hx : (x m).Satisfies R E) (hf : ∀ a m', R a m' → (f a m').Satisfies Q E) :
    ((x >>= f) m).Satisfies Q E := by
  rw [bind_apply]
  cases h : x m with
  | value a m' => exact hf a m' (by rw [h] at hx; exact hx)
  | error e m' => rw [h] at hx; exact hx
  | pending => trivial

/-- A computation whose value is not used. -/
theorem discard_satisfies {x : Run α} {Q : Machine → Prop}
    (hx : (x m).Satisfies (fun _ m' => Q m') E) :
    ((Functor.discard x : Run Unit) m).Satisfies (fun _ m' => Q m') E :=
  bind_satisfies hx fun _ _ h => h

/-- A computation whose end closes something: the closing step acts on values and errors alike. -/
theorem closing_satisfies {close : Environment → Environment} {x : Run β}
    (hx : (x m).Satisfies (fun b m' => Q b { m' with env := close m'.env })
      (fun e m' => E e { m' with env := close m'.env })) :
    (closing close x m).Satisfies Q E := by
  unfold closing
  cases h : x m with
  | value b m' => rw [h] at hx; exact hx
  | error e m' => rw [h] at hx; exact hx
  | pending => trivial

theorem closing_value {close : Environment → Environment} {x : Run α} {a : α} {m' : Machine}
    (h : x m = .value a m') : closing close x m = .value a { m' with env := close m'.env } := by
  unfold closing
  rw [h]

theorem closing_pending {close : Environment → Environment} {x : Run α} (h : x m = .pending) :
    closing close x m = .pending := by
  unfold closing
  rw [h]

theorem closing_error {close : Environment → Environment} {x : Run α} {e : RuntimeError}
    {m' : Machine} (h : x m = .error e m') :
    closing close x m = .error e { m' with env := close m'.env } := by
  unfold closing
  rw [h]

/-- An error of a computation that closes something is an error inside. -/
theorem closing_eq_error {close : Environment → Environment} {x : Run α} {e : RuntimeError}
    {m' : Machine} (h : closing close x m = .error e m') : ∃ m₁, x m = .error e m₁ := by
  unfold closing at h
  cases hx : x m with
  | value a m₁ => simp [hx] at h
  | error e₁ m₁ =>
    rw [hx] at h
    cases h
    exact ⟨m₁, rfl⟩
  | pending => simp [hx] at h

theorem closing_congr {close : Environment → Environment} {x y : Run α} {m' : Machine}
    (h : x m = y m') : closing close x m = closing close y m' := by
  unfold closing
  rw [h]

theorem inScope_satisfies {x : Run β}
    (hx : (x { m with env := m.env.pushScope }).Satisfies
      (fun b m' => Q b { m' with env := m'.env.popScope })
      (fun e m' => E e { m' with env := m'.env.popScope })) :
    (inScope x m).Satisfies Q E :=
  closing_satisfies (m := { m with env := m.env.pushScope }) hx

theorem orFail_satisfies {a? : Option β} {e : RuntimeError} (hv : ∀ b, a? = some b → Q b m)
    (he : a? = none → E e m) : (orFail a? e m).Satisfies Q E := by
  cases a? with
  | some b => exact hv b rfl
  | none => exact he rfl

/-- The rule for loops: `I` holds before every round. A round that ends normally is followed by the
step and the next round; the other ways to leave a round leave the loop. -/
theorem loop_satisfies {guard : Run Bool} {body : Run Flow} {step : Run Unit} {I : Machine → Prop}
    {Q : Flow → Machine → Prop}
    (hguard : ∀ m, I m → (guard m).Satisfies (fun b m' => if b then I m' else Q .normal m') E)
    (hbody : ∀ m, I m → (body m).Satisfies
      (fun flow m' =>
        match flow with
        | .normal => (step m').Satisfies (fun _ m'' => I m'') E
        | .brk => Q .normal m'
        | .ret v => Q (.ret v) m') E) :
    ∀ (fuel : Nat) (m : Machine), I m → (loop guard body step fuel m).Satisfies Q E
  | 0, _, _ => trivial
  | fuel + 1, m, hm => by
    -- induction on the fuel: a round that ends normally leads to a machine with `I`, where the
    -- hypothesis is used
    rw [loop]
    refine bind_satisfies (hguard m hm) fun b m₁ h₁ => ?_
    cases b with
    | false => exact h₁
    | true =>
      refine bind_satisfies (hbody m₁ h₁) fun flow m₂ h₂ => ?_
      cases flow with
      | normal => exact bind_satisfies h₂ fun _ m₃ h₃ => loop_satisfies hguard hbody fuel m₃ h₃
      | brk => exact h₂
      | ret v => exact h₂

end Run

end Primer
