import Primer.Proofs.Machine.Results
import Primer.Proofs.Typing.Rules

/-!
# How control leaves statements

What the shape of a statement says about how control leaves it is true of every execution, whatever
calls mean, whatever the machine is and with any fuel.

- `Flow.Allowed` is what the shape of a statement allows: to be left normally, by a `break`, by a
  `return` with a value.
- `Run.exec_yields` and its companions are the induction over execution, one case for each kind of
  statement. `Run.exit_of_normal`: what does not continue is not left normally.
-/

namespace Primer

namespace Run

/-- A loop is left normally, or by a `return` of one of its rounds. -/
theorem loop_yields {guard : Run Bool} {body : Run Flow} {step : Run Unit} {P Q : Flow → Prop}
    (hbody : Yields P body) (hnormal : Q .normal) (hret : ∀ v, P (.ret v) → Q (.ret v)) :
    ∀ fuel : Nat, Yields Q (loop guard body step fuel)
  | 0 => fun _ _ _ h => nomatch h
  | fuel + 1 => by
    rw [loop]
    refine bind_yields fun b => ?_
    cases b with
    | false => exact pure_yields hnormal
    | true =>
      refine hbody.bind fun flow hflow => ?_
      cases flow with
      | normal => exact bind_yields fun _ => loop_yields hbody hnormal hret fuel
      -- the loop takes the `break` of a round for itself
      | brk => exact pure_yields hnormal
      | ret v => exact pure_yields (hret v hflow)

end Run

/-! ## How control leaves statements -/

mutual

/-- The statement holds a `break` that leaves it. -/
def Stmt.hasBreak : Stmt → Bool
  | .brk _ => true
  | .block body _ => Stmt.listHasBreak body
  | .branch _ onTrue none _ => onTrue.hasBreak
  | .branch _ onTrue (some onFalse) _ => onTrue.hasBreak || onFalse.hasBreak
  | .declare _ | .eval _ _ | .whileLoop _ _ _ | .forLoop _ _ _ _ _ | .switch _ _ _ | .ret _ _ => false

/-- One of the statements holds a `break` that leaves it. -/
def Stmt.listHasBreak : List Stmt → Bool
  | [] => false
  | s :: rest => s.hasBreak || Stmt.listHasBreak rest

end

/-- The ways to leave code with the given exit, in which there are a `break` that leaves it, if `breaks`
holds, and a `return` with a value that control can reach, if `returns` holds. A `return` without a
value gives `void`. -/
def Flow.Allowed (exit : Exit) (breaks returns : Bool) : Flow → Prop
  | .normal => exit = .continues
  | .brk => breaks = true
  | .ret v => returns = true ∨ v = .void

/-- A part of the code allows no more than the whole. -/
theorem Flow.Allowed.mono {exit exit' : Exit} {breaks breaks' returns returns' : Bool} {flow : Flow}
    (h : flow.Allowed exit breaks returns) (hexit : exit = .continues → exit' = .continues)
    (hbreaks : breaks = true → breaks' = true) (hreturns : returns = true → returns' = true) :
    flow.Allowed exit' breaks' returns' := by
  cases flow with
  | normal => exact hexit h
  | brk => exact hbreaks h
  | ret v => exact h.imp hreturns id

theorem Exit.join_of_continues {a b : Exit} (h : a = .continues ∨ b = .continues) :
    a.join b = .continues := by
  unfold join
  rw [if_neg]
  rintro ⟨rfl, rfl⟩
  cases h <;> contradiction

namespace Stmt

/-- The ways to leave a statement. -/
def Leaves (s : Stmt) (flow : Flow) : Prop :=
  flow.Allowed s.exit s.hasBreak s.returnsValue

/-- The ways to leave a statement list. -/
def ListLeaves (body : List Stmt) (flow : Flow) : Prop :=
  flow.Allowed (listExit body) (listHasBreak body) (listReturnsValue body)

end Stmt

/-- The ways to leave case groups. A `break` leaves the switch, and nothing else. -/
def CaseGroup.ListLeaves (groups : List CaseGroup) (flow : Flow) : Prop :=
  flow.Allowed .continues false (listReturnsValue groups)

namespace Run

variable {call : Call} {fuel : Nat}

mutual

/-- A statement is left in one of the ways that its shape allows. -/
theorem exec_yields : ∀ s : Stmt, Yields s.Leaves (exec call fuel s)
  | .declare d => by
    rw [exec]
    exact bind_yields fun _ => pure_yields (by simp [Stmt.Leaves, Flow.Allowed, Stmt.exit])
  | .eval e pos => by
    rw [exec]
    exact bind_yields fun _ => pure_yields (by simp [Stmt.Leaves, Flow.Allowed, Stmt.exit])
  | .block body pos => by
    rw [exec]
    intro m flow m' h
    have hbody := (execAll_yields body).inScope m flow m' h
    rwa [Stmt.Leaves, Stmt.exit, Stmt.hasBreak, Stmt.returnsValue]
  | .branch cond onTrue none pos => by
    rw [exec]
    refine bind_yields fun b => ?_
    unfold Stmt.Leaves
    rw [Stmt.exit, Stmt.hasBreak, Stmt.returnsValue]
    cases b with
    | true =>
      intro m flow m' h
      exact (exec_yields onTrue m flow m' h).mono (fun _ => rfl) id id
    | false => exact pure_yields rfl
  | .branch cond onTrue (some onFalse) pos => by
    rw [exec]
    refine bind_yields fun b => ?_
    unfold Stmt.Leaves
    rw [Stmt.exit, Stmt.hasBreak, Stmt.returnsValue]
    cases b with
    | true =>
      intro m flow m' h
      -- the branch continues if one of its sides does
      refine (exec_yields onTrue m flow m' h).mono (fun h => Exit.join_of_continues (.inl h)) ?_ ?_
      · exact fun h => Bool.or_eq_true_iff.mpr (.inl h)
      · exact fun h => Bool.or_eq_true_iff.mpr (.inl h)
    | false =>
      intro m flow m' h
      refine (exec_yields onFalse m flow m' h).mono (fun h => Exit.join_of_continues (.inr h)) ?_ ?_
      · exact fun h => Bool.or_eq_true_iff.mpr (.inr h)
      · exact fun h => Bool.or_eq_true_iff.mpr (.inr h)
  | .whileLoop cond body pos => by
    rw [exec]
    unfold Stmt.Leaves
    rw [Stmt.exit, Stmt.hasBreak, Stmt.returnsValue]
    refine loop_yields (exec_yields body) ?_ (fun _ h => ?_) fuel
    · rfl
    · exact h
  | .forLoop init cond step body pos => by
    rw [exec]
    unfold Stmt.Leaves
    rw [Stmt.exit, Stmt.hasBreak, Stmt.returnsValue]
    refine (bind_yields fun _ => ?_).inScope
    refine loop_yields (exec_yields body) ?_ (fun _ h => ?_) fuel
    · rfl
    · exact h
  | .switch e groups pos => by
    rw [exec]
    unfold Stmt.Leaves
    rw [Stmt.exit, Stmt.hasBreak, Stmt.returnsValue]
    refine bind_yields fun v => bind_yields fun key => ?_
    cases startOf? key groups with
    | none => exact pure_yields rfl
    | some start => exact execFrom_yields start groups
  | .ret (some e) pos => by
    rw [exec]
    exact bind_yields fun v => pure_yields (.inl (by rw [Stmt.returnsValue]))
  | .ret none pos => by
    rw [exec]
    exact pure_yields (.inr rfl)
  | .brk pos => by
    rw [exec]
    exact pure_yields (by simp [Stmt.Leaves, Flow.Allowed, Stmt.hasBreak])

theorem execAll_yields : ∀ body : List Stmt, Yields (Stmt.ListLeaves body) (execAll call fuel body)
  | [] => by
    rw [execAll]
    exact pure_yields (by simp [Stmt.ListLeaves, Flow.Allowed, Stmt.listExit])
  | s :: rest => by
    rw [execAll]
    refine (exec_yields s).bind fun flow hflow => ?_
    unfold Stmt.ListLeaves
    rw [Stmt.listExit, Stmt.listHasBreak, Stmt.listReturnsValue]
    cases flow with
    | normal =>
      -- the others are executed, so the first statement continues and they count
      have hexit : s.exit = .continues := hflow
      intro m flow m' h
      refine (execAll_yields rest m flow m' h).mono ?_ ?_ ?_
      · exact fun h => by rw [hexit, Exit.andThen, if_pos rfl, h]
      · exact fun h => Bool.or_eq_true_iff.mpr (.inr h)
      · exact fun h => by rw [hexit, h, beq_self_eq_true, Bool.and_true, Bool.or_true]
    | brk =>
      have hbreak : s.hasBreak = true := hflow
      exact pure_yields (by rw [Flow.Allowed, hbreak, Bool.true_or])
    | ret v => exact pure_yields (Or.imp_left (fun h => Bool.or_eq_true_iff.mpr (.inl h)) hflow)

theorem execFrom_yields : ∀ (start : Nat) (groups : List CaseGroup),
    Yields (CaseGroup.ListLeaves groups) (execFrom call fuel start groups)
  | start, [] => by
    cases start <;> exact pure_yields rfl
  | start + 1, .mk label body pos :: rest => by
    rw [execFrom]
    unfold CaseGroup.ListLeaves
    rw [CaseGroup.listReturnsValue]
    intro m flow m' h
    refine (execFrom_yields start rest m flow m' h).mono id id ?_
    exact fun h => Bool.or_eq_true_iff.mpr (.inr h)
  | 0, .mk label body pos :: rest => by
    rw [execFrom]
    unfold CaseGroup.ListLeaves
    rw [CaseGroup.listReturnsValue]
    refine (execAll_yields body).bind fun flow hflow => ?_
    cases flow with
    | normal =>
      -- control falls through to the next group
      intro m flow m' h
      refine (execFrom_yields 0 rest m flow m' h).mono id id ?_
      exact fun h => Bool.or_eq_true_iff.mpr (.inr h)
    | brk => exact pure_yields rfl
    | ret v => exact pure_yields (Or.imp_left (fun h => Bool.or_eq_true_iff.mpr (.inl h)) hflow)

end

/-- A statement that does not continue is not left normally. -/
theorem exit_of_normal {s : Stmt} {m m' : Machine} (h : exec call fuel s m = .value .normal m') :
    s.exit = .continues :=
  exec_yields s m .normal m' h

theorem listExit_of_normal {body : List Stmt} {m m' : Machine}
    (h : execAll call fuel body m = .value .normal m') : Stmt.listExit body = .continues :=
  execAll_yields body m .normal m' h

end Run

end Primer
