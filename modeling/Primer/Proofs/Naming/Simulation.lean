import Primer.Proofs.Machine.Congruence
import Primer.Proofs.Naming.Accepted
import Primer.Proofs.Naming.Environment

/-!
# Running under the names of the symbols

A piece of a program and the same piece under the names of its symbols do the same, step by step: they
give the same values, stop at the same errors and record the same events, and they leave the same
variables behind. The only difference is the name in the error for an unknown variable.

- `Outcome.Matches` compares what two computations come to.
- `Run.Simulates` says so for every pair of machines to start from; there is one rule for each way in
  which computations are put together.
- `Run.eval_renamed`, `Run.exec_renamed` follow the static rules, along the walk of the checker.
-/

namespace Primer

variable {α β : Type} {fresh : Nat → String}

/-! ## Outcomes -/

/-- The errors are the same, up to the name of an unknown variable. -/
inductive RuntimeError.SameButName : RuntimeError → RuntimeError → Prop where
  | unknownVariable (name name' : String) (pos : Position) :
    SameButName (.unknownVariable name pos) (.unknownVariable name' pos)
  | refl (e : RuntimeError) : SameButName e e

/-- The outcomes are the same value with machines that `Q` relates, or errors that differ in the name
of an unknown variable at most, after the same events; or both are pending. -/
inductive Outcome.Matches (Q : Machine → Machine → Prop) : Outcome α → Outcome α → Prop where
  | value {a : α} {m m' : Machine} (related : Q m m') : Outcome.Matches Q (.value a m) (.value a m')
  | error {e e' : RuntimeError} {m m' : Machine} (same : e.SameButName e')
    (transcript : m'.transcript = m.transcript) : Outcome.Matches Q (.error e m) (.error e' m')
  | pending : Outcome.Matches Q .pending .pending

theorem Outcome.Matches.imp {Q Q' : Machine → Machine → Prop} {o o' : Outcome α}
    (h : o.Matches Q o') (hQ : ∀ m m', Q m m' → Q' m m') : o.Matches Q' o' := by
  cases h with
  | value related => exact .value (hQ _ _ related)
  | error same transcript => exact .error same transcript
  | pending => exact .pending

/-- What is known of the machines that either side leaves behind may be added. -/
theorem Outcome.Matches.and {Q : Machine → Machine → Prop} {R R' : Machine → Prop}
    {E E' : RuntimeError → Machine → Prop} {o o' : Outcome α} (h : o.Matches Q o')
    (ho : o.Satisfies (fun _ m => R m) E) (ho' : o'.Satisfies (fun _ m => R' m) E') :
    o.Matches (fun m m' => Q m m' ∧ R m ∧ R' m') o' := by
  cases h with
  | value related => exact .value ⟨related, ho, ho'⟩
  | error same transcript => exact .error same transcript
  | pending => exact .pending

/-! ## Computations -/

/-- From machines that `P` relates, the computations come to outcomes that match, with machines that
`Q` relates. -/
def Run.Simulates (P : Machine → Machine → Prop) (x x' : Run α) (Q : Machine → Machine → Prop) :
    Prop :=
  ∀ m m', P m m' → (x m).Matches Q (x' m')

namespace Run

section Rules

variable {P Q R : Machine → Machine → Prop}

theorem simulates_pure (a : α) : Simulates P (pure a) (pure a) P :=
  fun _ _ h => .value h

theorem simulates_pending : Simulates P (pending : Run α) pending Q :=
  fun _ _ _ => .pending

theorem Simulates.bind {x x' : Run α} {f f' : α → Run β} (hx : Simulates P x x' R)
    (hf : ∀ a, Simulates R (f a) (f' a) Q) : Simulates P (x >>= f) (x' >>= f') Q := by
  intro m m' h
  rw [bind_apply, bind_apply]
  have hmatches := hx m m' h
  generalize x m = o, x' m' = o' at hmatches
  cases hmatches with
  | value related => exact hf _ _ _ related
  | error same transcript => exact .error same transcript
  | pending => exact .pending

theorem Simulates.imp {x x' : Run α} {Q' : Machine → Machine → Prop} (hx : Simulates P x x' Q)
    (hQ : ∀ m m', Q m m' → Q' m m') : Simulates P x x' Q' :=
  fun m m' h => (hx m m' h).imp hQ

theorem Simulates.closing {close : Environment → Environment} {x x' : Run α}
    (hx : Simulates P x x' fun m m' =>
      Q { m with env := close m.env } { m' with env := close m'.env }) :
    Simulates P (closing close x) (closing close x') Q := by
  intro m m' h
  unfold Run.closing
  have hmatches := hx m m' h
  generalize x m = o, x' m' = o' at hmatches
  cases hmatches with
  | value related => exact .value related
  | error same transcript => exact .error same transcript
  | pending => exact .pending

theorem simulates_modifyEnv {f f' : Environment → Environment}
    (h : ∀ m m', P m m' → Q { m with env := f m.env } { m' with env := f' m'.env }) :
    Simulates P (modifyEnv f) (modifyEnv f') Q :=
  fun m m' hm => .value (h m m' hm)

theorem Immediate.simulates_of {x : Run α} (h : Immediate x)
    (hP : ∀ m m', P m m' → m'.transcript = m.transcript) : Simulates P x x P := by
  intro m m' hm
  cases h with
  | value a => exact .value hm
  | error e => exact .error (.refl e) (hP m m' hm)

/-- The rule for loops: what holds between the machines before every round holds behind the loop. -/
theorem Simulates.loop {guard guard' : Run Bool} {body body' : Run Flow} {step step' : Run Unit}
    (hguard : Simulates P guard guard' P) (hbody : Simulates P body body' P)
    (hstep : Simulates P step step' P) :
    ∀ fuel : Nat, Simulates P (loop guard body step fuel) (loop guard' body' step' fuel) P
  | 0 => simulates_pending
  | fuel + 1 => by
    rw [Run.loop, Run.loop]
    refine hguard.bind fun b => ?_
    cases b with
    | false => exact simulates_pure _
    | true =>
      refine hbody.bind fun flow => ?_
      cases flow with
      | normal => exact hstep.bind fun _ => Simulates.loop hguard hbody hstep fuel
      | brk => exact simulates_pure _
      | ret v => exact simulates_pure _

end Rules

end Run

/-! ## Machines with the same variables -/

/-- The machines have recorded the same events, and they hold the same variables, the first under their
names and the second under the names of their symbols. -/
structure Machine.Renames (fresh : Nat → String) (G : StaticScope) (Δ : List StaticScope)
    (m m' : Machine) : Prop where
  env : m.env.Renames fresh G Δ m'.env
  transcript : m'.transcript = m.transcript

namespace Run

variable {G : StaticScope} {Δ : List StaticScope}

theorem Immediate.simulates {x : Run α} (h : Immediate x) :
    Simulates (Machine.Renames fresh G Δ) x x (Machine.Renames fresh G Δ) :=
  h.simulates_of fun _ _ hm => hm.transcript

/-- The same value, or errors that differ in a name only. -/
theorem simulates_orFail (a? : Option α) {e e' : RuntimeError} (he : e.SameButName e') :
    Simulates (Machine.Renames fresh G Δ) (orFail a? e) (orFail a? e')
      (Machine.Renames fresh G Δ) := by
  intro m m' hm
  cases a? with
  | some a => exact .value hm
  | none => exact .error he hm.transcript

theorem simulates_record {e : Event} :
    Simulates (Machine.Renames fresh G Δ) (record e) (record e) (Machine.Renames fresh G Δ) :=
  fun _ _ hm => .value ⟨hm.env, congrArg (Transcript.record · e) hm.transcript⟩

theorem simulates_write (sink : Sink) (text : String) (pos : Position) :
    Simulates (Machine.Renames fresh G Δ) (write sink text pos) (write sink text pos)
      (Machine.Renames fresh G Δ) := by
  intro m m' hm
  unfold write
  rw [hm.transcript]
  cases sink.write? m.transcript text with
  | some reason => exact .error (.refl _) hm.transcript
  | none => exact .value ⟨hm.env, rfl⟩

theorem simulates_print (sink : Sink) (args : List Value) (pos : Position) :
    Simulates (Machine.Renames fresh G Δ) (print sink args pos) (print sink args pos)
      (Machine.Renames fresh G Δ) := by
  unfold print
  split
  · split
    · exact (simulates_write sink _ pos).bind fun _ => simulates_pure _
    · exact (Immediate.error _).simulates
  · exact (Immediate.error _).simulates

/-- What runs in a scope of its own leaves the scopes around it as they were. -/
theorem Simulates.inScope {x x' : Run α} (hΔ : 2 ≤ Δ.length)
    (hx : Simulates (Machine.Renames fresh G ([] :: Δ)) x x'
      fun m m' => ∃ S, m.Renames fresh G (S :: Δ) m') :
    Simulates (Machine.Renames fresh G Δ) (inScope x) (inScope x') (Machine.Renames fresh G Δ) := by
  have hne : Δ ≠ [] := List.ne_nil_of_length_pos (Nat.lt_of_lt_of_le Nat.two_pos hΔ)
  refine (simulates_modifyEnv ?_).bind fun _ => Simulates.closing (hx.imp ?_)
  · intro m m' hm
    exact ⟨hm.env.pushScope hΔ, hm.transcript⟩
  · intro m m' ⟨S, hm⟩
    exact ⟨hm.env.popScope hne, hm.transcript⟩

/-! ## Variables -/

section Variables

variable {name : String} {k : Nat}

theorem readVar_renamed (hd : DistinctSymbols Δ) (hk : Checker.symbolOf? Δ name = some k)
    (pos : Position) :
    Simulates (Machine.Renames fresh G Δ) (readVar name pos) (readVar (fresh k) pos)
      (Machine.Renames fresh G Δ) := by
  intro m m' hm
  have hvalue : m'.env.value? (fresh k) = m.env.value? name :=
    congrArg (Option.map Slot.value) (hm.env.lookup? hd hk)
  rw [readVar, readVar, env_bind_apply, env_bind_apply, hvalue]
  exact simulates_orFail _ (.unknownVariable ..) m m' hm

theorem assignVar_renamed (hfresh : Function.Injective fresh) (hG : (G.map Prod.snd).Nodup)
    (hd : DistinctSymbols Δ) (hk : Checker.symbolOf? Δ name = some k) (v : Value) (pos : Position) :
    Simulates (Machine.Renames fresh G Δ) (assignVar name v pos) (assignVar (fresh k) v pos)
      (Machine.Renames fresh G Δ) := by
  intro m m' hm
  have htype : m'.env.type? (fresh k) = m.env.type? name :=
    congrArg (Option.map Slot.type) (hm.env.lookup? hd hk)
  rw [assignVar, assignVar, env_bind_apply, env_bind_apply, htype]
  have hassign : ∀ stored : Value, Simulates (Machine.Renames fresh G Δ)
      (modifyEnv fun e => e.assign name stored) (modifyEnv fun e => e.assign (fresh k) stored)
      (Machine.Renames fresh G Δ) := by
    intro stored
    refine simulates_modifyEnv fun m₁ m₁' h₁ => ⟨?_, h₁.transcript⟩
    exact h₁.env.assign hfresh hd hG hk stored
  refine ((simulates_orFail _ (.unknownVariable ..)).bind fun type => ?_) m m' hm
  refine (coerce_plain v type pos).immediate.simulates.bind fun stored => ?_
  exact (hassign stored).bind fun _ => simulates_pure stored

/-- Declaring a local variable, whose symbol is new. -/
theorem define_renamed (hfresh : Function.Injective fresh) {c c₁ : Checker} (hc : c.Valid)
    (hd : c.Distinct) (hlen : 2 ≤ c.scopes.length) (hdeclares : c.Declares name c₁) (type : Ty)
    (v : Value) :
    Simulates (Machine.Renames fresh G c.scopes) (define name type v)
      (define (c₁.nameOf fresh name) type v) (Machine.Renames fresh G c₁.scopes) := by
  have hd₁ : DistinctSymbols c₁.scopes := hdeclares.distinct hc hd
  obtain ⟨S, outer, hs⟩ := hc.scopes_eq
  rw [hdeclares.nameOf hc, hdeclares.cons hs]
  rw [hdeclares.cons hs] at hd₁
  rw [hs] at hlen ⊢
  have houter : outer ≠ [] := List.ne_nil_of_length_pos (Nat.lt_of_succ_lt_succ hlen)
  have hnew : c.symbols.length ∉ S.map Prod.snd := (List.nodup_cons.mp hd₁.head).1
  refine simulates_modifyEnv fun m m' hm => ⟨?_, hm.transcript⟩
  exact hm.env.define hfresh houter hnew name type v

end Variables

/-! ## Expressions -/

/-- The two meanings of calls do the same, wherever the call stands. -/
def CallsRename (fresh : Nat → String) (G : StaticScope) (call call' : Call) : Prop :=
  ∀ name args pos Δ, Simulates (Machine.Renames fresh G Δ) (call name args pos)
    (call' name args pos) (Machine.Renames fresh G Δ)

/-- What evaluation relies on: names of symbols that differ, globals with different symbols, and calls
that do the same on both sides. -/
structure Renaming (fresh : Nat → String) (G : StaticScope) (call call' : Call) : Prop where
  injective : Function.Injective fresh
  globals : (G.map Prod.snd).Nodup
  calls : CallsRename fresh G call call'

variable {call call' : Call} {c : Checker} {sigs : Signatures}

mutual

theorem eval_renamed (h : Renaming fresh G call call') (hc : c.Valid) (hd : c.Distinct) :
    ∀ {e : Expr} {t : Ty}, HasType sigs c.view e t →
      Simulates (Machine.Renames fresh G c.scopes) (eval call e) (eval call' (e.renamed fresh c))
        (Machine.Renames fresh G c.scopes)
  | _, _, .literal value pos => by
    rw [Expr.renamed, eval, eval]
    exact simulates_pure _
  | _, _, .var bound => by
    obtain ⟨k, hk⟩ := Checker.symbol_of_type? hc bound
    rw [Expr.renamed, Checker.nameOf_of_symbol hk, eval, eval]
    exact readVar_renamed hd hk _
  | _, _, .assign typed _ bound _ => by
    obtain ⟨k, hk⟩ := Checker.symbol_of_type? hc bound
    rw [Expr.renamed, Checker.nameOf_of_symbol hk, eval, eval]
    refine (eval_renamed h hc hd typed).bind fun v => ?_
    exact assignVar_renamed h.injective h.globals hd hk v _
  | _, _, .unary typed _ => by
    rw [Expr.renamed, eval, eval]
    exact (eval_renamed h hc hd typed).bind fun v => (unary_plain _ v _).immediate.simulates
  | .binary op left right pos, _, .binary leftTyped rightTyped _ _ => by
    have hleft := eval_renamed h hc hd leftTyped
    have hright := eval_renamed h hc hd rightTyped
    rw [Expr.renamed]
    -- the second operand of `&&` and `||` is evaluated only if the first does not decide
    have hsecond : Simulates (Machine.Renames fresh G c.scopes)
        (do let b ← eval call right; return Value.ofBool (← truth b right.pos))
        (do let b ← eval call' (right.renamed fresh c); return Value.ofBool (← truth b right.pos))
        (Machine.Renames fresh G c.scopes) :=
      hright.bind fun b => (truth_plain b _).immediate.simulates.bind fun _ => simulates_pure _
    cases op with
    | and =>
      rw [eval, eval, Expr.pos_renamed, Expr.pos_renamed]
      refine hleft.bind fun a => (truth_plain a _).immediate.simulates.bind fun p => ?_
      cases p with
      | true => exact hsecond
      | false => exact simulates_pure _
    | or =>
      rw [eval, eval, Expr.pos_renamed, Expr.pos_renamed]
      refine hleft.bind fun a => (truth_plain a _).immediate.simulates.bind fun p => ?_
      cases p with
      | true => exact simulates_pure _
      | false => exact hsecond
    | _ =>
      rw [eval, eval]
      · exact hleft.bind fun a => hright.bind fun b => (binary_plain _ a b pos).immediate.simulates
      all_goals exact fun h => nomatch h
  | _, _, .print formatTyped argsTyped => by
    rw [Expr.renamed, Expr.renamedAll, eval, eval, evalAll, evalAll]
    refine ((eval_renamed h hc hd formatTyped).bind fun v => ?_).bind fun vs => h.calls _ vs _ _
    exact (evalAll_renamed h hc hd argsTyped).bind fun vs => simulates_pure _
  | _, _, .call _ _ argsTyped _ => by
    rw [Expr.renamed, eval, eval]
    exact (evalAll_renamed h hc hd argsTyped).bind fun vs => h.calls _ vs _ _

theorem evalAll_renamed (h : Renaming fresh G call call') (hc : c.Valid) (hd : c.Distinct) :
    ∀ {es : List Expr} {ts : List Ty}, HasTypes sigs c.view es ts →
      Simulates (Machine.Renames fresh G c.scopes) (evalAll call es)
        (evalAll call' (Expr.renamedAll fresh c es)) (Machine.Renames fresh G c.scopes)
  | _, _, .nil => by
    rw [Expr.renamedAll, evalAll, evalAll]
    exact simulates_pure _
  | _, _, .cons typed _ rest => by
    rw [Expr.renamedAll, evalAll, evalAll]
    refine (eval_renamed h hc hd typed).bind fun v => ?_
    exact (evalAll_renamed h hc hd rest).bind fun vs => simulates_pure _

end

section Parts

variable (h : Renaming fresh G call call') (hc : c.Valid) (hd : c.Distinct)

include h hc hd

theorem condition_renamed {e : Expr} (ok : IsIntegral sigs c.view e) :
    Simulates (Machine.Renames fresh G c.scopes) (condition call e)
      (condition call' (e.renamed fresh c)) (Machine.Renames fresh G c.scopes) := by
  obtain ⟨t, typed, -⟩ := ok
  unfold condition
  rw [Expr.pos_renamed]
  exact (eval_renamed h hc hd typed).bind fun v => (truth_plain v _).immediate.simulates

theorem guard_renamed {e? : Option Expr} (ok : ∀ e ∈ e?, IsIntegral sigs c.view e) :
    Simulates (Machine.Renames fresh G c.scopes) (guard call e?)
      (guard call' (e?.map (Expr.renamed fresh c))) (Machine.Renames fresh G c.scopes) := by
  cases e? with
  | none => exact simulates_pure true
  | some e => exact condition_renamed h hc hd (ok e rfl)

theorem effect_renamed {e? : Option Expr} (ok : ∀ e ∈ e?, HasSomeType sigs c.view e) :
    Simulates (Machine.Renames fresh G c.scopes) (effect call e?)
      (effect call' (e?.map (Expr.renamed fresh c))) (Machine.Renames fresh G c.scopes) := by
  cases e? with
  | none => exact simulates_pure ()
  | some e =>
    obtain ⟨t, typed⟩ := ok e rfl
    exact (eval_renamed h hc hd typed).bind fun _ => simulates_pure ()

/-- A declaration does the same on both sides, if declaring the variable does. -/
theorem declare_simulates {d : VarDecl} (ok : d.Ok sigs c.view) {Q : Machine → Machine → Prop}
    (hdefine : ∀ v, Simulates (Machine.Renames fresh G c.scopes) (define d.name d.type v)
      (define (d.renamed fresh c).name d.type v) Q) :
    Simulates (Machine.Renames fresh G c.scopes) (declare call d)
      (declare call' (d.renamed fresh c)) Q := by
  unfold declare VarDecl.renamed
  cases hinit : d.init with
  | none => exact hdefine _
  | some e =>
    obtain ⟨t, typed, -⟩ := ok.init e hinit
    show Simulates _ _ (do
      let v ← eval call' (e.renamed fresh c)
      let stored ← coerce v d.type (e.renamed fresh c).pos
      define (d.renamed fresh c).name d.type stored) Q
    rw [Expr.pos_renamed]
    refine (eval_renamed h hc hd typed).bind fun v => ?_
    exact (coerce_plain v d.type e.pos).immediate.simulates.bind fun stored => hdefine stored

end Parts

/-! ## Statements -/

end Run

/-- The static scopes at some point of a statement list that starts in the state `c` and ends with the
names `Γ` in scope. -/
structure Checker.Amid (c : Checker) (Γ : TypeScopes) (Δ : List StaticScope) : Prop where
  outer : ∃ S, Δ = S :: c.scopes.tail
  kept : Γ = c.view → Δ = c.scopes

theorem Checker.Amid.refl {c : Checker} (hc : c.Valid) (Γ : TypeScopes) : c.Amid Γ c.scopes := by
  obtain ⟨S, outer, hs⟩ := hc.scopes_eq
  exact ⟨⟨S, by rw [hs]; rfl⟩, fun _ => rfl⟩

/-- A point behind the first statement is one of the whole list. -/
theorem Checker.Amid.of_stmt {c : Checker} {returns : Ty} {l r : Bool} {s : Stmt}
    {Γ₁ Γ : TypeScopes} (hin : c.Inside returns l)
    (head : Stmt.Ok c.signatures returns l c.view s Γ₁) (htail : TypeScopes.Extends Γ₁ Γ)
    (Δ : List StaticScope) (h : ((Check.stmt r s).after c).Amid Γ Δ) : c.Amid Γ Δ := by
  obtain ⟨-, hwalk⟩ := Check.stmt_walked hin r head
  obtain ⟨⟨S, hS⟩, hkept⟩ := h
  constructor
  · rw [Check.stmt_tail hin r head] at hS
    exact ⟨S, hS⟩
  · intro hΓ
    -- the names come back to what they were, so the statement declares nothing
    subst hΓ
    have hΓ₁ : Γ₁ = c.view := head.extends.antisymm htail
    subst hΓ₁
    exact (hkept hwalk.view.symm).trans (Check.stmt_alike hin r head).scopes

/-- A statement that declares nothing starts and ends with the same names in scope. -/
theorem Check.Stands.simulates {c c₁ : Checker} {returns : Ty} {l r : Bool} {s : Stmt}
    (h : Check.Stands c c₁ returns l s) {x x' : Run α}
    (hx : Run.Simulates (Machine.Renames fresh G c₁.scopes) x x'
      (Machine.Renames fresh G ((Check.stmt r s).after c₁).scopes)) :
    Run.Simulates (Machine.Renames fresh G c.scopes) x x' (Machine.Renames fresh G c.scopes) := by
  rw [(Check.stmt_alike h.inside r h.ok).scopes, h.alike.scopes] at hx
  exact hx

namespace Run

section Statements

variable {returns : Ty} {l : Bool} {Γ : TypeScopes}

/-- Inside a function the declared variable is a local one. -/
theorem declare_renamed (h : Renaming fresh G call call') (hin : c.Inside returns l) {d : VarDecl}
    (ok : d.Ok c.signatures c.view) :
    Simulates (Machine.Renames fresh G c.scopes) (declare call d) (declare call' (d.renamed fresh c))
      (Machine.Renames fresh G ((Check.varDecl d).after c).scopes) := by
  refine declare_simulates h hin.valid hin.distinct ok fun v => ?_
  have hdeclares := Check.varDecl_declares hin.valid ok
  exact define_renamed h.injective hin.valid hin.distinct hin.scopes_length hdeclares d.type v

theorem forInit_renamed (h : Renaming fresh G call call') (hin : c.Inside returns l)
    {init : Option ForInit} (ok : ForInit.Ok c.signatures c.view init Γ) :
    Simulates (Machine.Renames fresh G c.scopes) (forInit call init)
      (forInit call' (init.map (ForInit.renamed fresh c)))
      (Machine.Renames fresh G ((Check.forInit init).after c).scopes) := by
  cases ok with
  | none => exact simulates_pure ()
  | eval typed =>
    obtain ⟨t, typed⟩ := typed
    have hscopes := (Check.expr_accepts hin.valid typed).2.2.2.scopes
    show Simulates _ _ _ (Machine.Renames fresh G ((Check.expr _).after c).scopes)
    rw [show ((Check.expr _).after c).scopes = c.scopes from hscopes]
    exact (eval_renamed h hin.valid hin.distinct typed).bind fun _ => simulates_pure ()
  | declare ok => exact declare_renamed h hin ok

/-- Which group a switch starts with depends on the labels alone. -/
theorem startOf?_renamed (key : Int64) (groups : List CaseGroup) (c : Checker) (r : Bool) :
    startOf? key (CaseGroup.renamedAll fresh c r groups) = startOf? key groups := by
  have hfind : ∀ (p : Option CaseLabel → Bool) (groups : List CaseGroup),
      groups.findIdx? (fun g => p g.label) = (groups.map CaseGroup.label).findIdx? p := by
    intro p groups
    rw [List.findIdx?_map]
    rfl
  unfold startOf?
  rw [hfind (fun label => label.map CaseLabel.integer == some key),
    hfind (fun label => label.map CaseLabel.integer == some key), hfind Option.isNone,
    hfind Option.isNone, CaseGroup.labels_renamed]

mutual

/-- A statement does the same under the names of its symbols. -/
theorem exec_renamed (h : Renaming fresh G call call') (fuel : Nat) :
    ∀ (s : Stmt) {c : Checker} {l : Bool} {Γ : TypeScopes} (r : Bool), c.Inside returns l →
      Stmt.Ok c.signatures returns l c.view s Γ →
      Simulates (Machine.Renames fresh G c.scopes) (exec call fuel s)
        (exec call' fuel (s.renamed fresh c r))
        (Machine.Renames fresh G ((Check.stmt r s).after c).scopes)
  | .declare d, c, _, _, r, hin, .declare ok => by
    rw [Stmt.renamed, exec, exec]
    exact (declare_renamed h hin ok).bind fun _ => simulates_pure _
  | .eval e pos, c, _, _, r, hin, .eval typed => by
    rw [(Check.stmt_alike hin r (.eval typed)).scopes, Stmt.renamed, exec, exec]
    obtain ⟨t, typed⟩ := typed
    exact (eval_renamed h hin.valid hin.distinct typed).bind fun _ => simulates_pure _
  | .block body pos, c, _, _, r, hin, .block bodyOk => by
    rw [(Check.stmt_alike hin r (.block bodyOk)).scopes, Stmt.renamed, exec, exec]
    refine Simulates.inScope hin.scopes_length ?_
    refine (execAll_renamed h fuel body r hin.pushScope bodyOk).imp ?_
    rintro m m' ⟨Δ, ⟨⟨S, rfl⟩, -⟩, hm⟩
    exact ⟨S, hm⟩
  | .branch cond onTrue none pos, c, _, _, r, hin, .branch condOk onTrueOk => by
    rw [(Check.stmt_alike hin r (.branch condOk onTrueOk)).scopes, Stmt.renamed, exec, exec]
    have hTrue := Check.branch_stands hin condOk onTrueOk
    refine (condition_renamed h hin.valid hin.distinct condOk).bind fun b => ?_
    cases b with
    | true => exact hTrue.simulates (exec_renamed h fuel onTrue r hTrue.inside hTrue.ok)
    | false => exact simulates_pure _
  | .branch cond onTrue (some onFalse) pos, c, _, _, r, hin,
      .branchElse condOk onTrueOk onFalseOk => by
    rw [(Check.stmt_alike hin r (.branchElse condOk onTrueOk onFalseOk)).scopes, Stmt.renamed, exec,
      exec]
    have hTrue := Check.branch_stands hin condOk onTrueOk
    have hFalse := Check.branchElse_stands hin r condOk onTrueOk onFalseOk
    refine (condition_renamed h hin.valid hin.distinct condOk).bind fun b => ?_
    cases b with
    | true => exact hTrue.simulates (exec_renamed h fuel onTrue r hTrue.inside hTrue.ok)
    | false => exact hFalse.simulates (exec_renamed h fuel onFalse r hFalse.inside hFalse.ok)
  | .whileLoop cond body pos, c, _, _, r, hin, .whileLoop condOk bodyOk => by
    rw [(Check.stmt_alike hin r (.whileLoop condOk bodyOk)).scopes, Stmt.renamed, exec, exec]
    have hbody := Check.whileLoop_stands hin condOk bodyOk
    have hround := hbody.simulates (exec_renamed h fuel body r hbody.inside hbody.ok)
    exact (condition_renamed h hin.valid hin.distinct condOk).loop hround (simulates_pure ()) fuel
  | .forLoop init cond step body pos, c, _, _, r, hin, .forLoop initOk condOk stepOk bodyOk => by
    rw [(Check.stmt_alike hin r (.forLoop initOk condOk stepOk bodyOk)).scopes, Stmt.renamed, exec,
      exec]
    have hinit := forInit_renamed h hin.pushScope initOk
    have houter := Check.forInit_tail hin.pushScope initOk
    have hstands := Check.forLoop_stands hin initOk condOk stepOk bodyOk
    generalize (Check.forInit init).after c.pushScope = c₁ at hinit houter hstands ⊢
    have hguard := guard_renamed h hstands.inside.valid hstands.inside.distinct hstands.condOk
    have hstep := effect_renamed h hstands.stepInside.valid hstands.stepInside.distinct hstands.stepOk
    rw [hstands.stepAlike.scopes] at hstep
    have hround := hstands.body.simulates
      (exec_renamed h fuel body r hstands.body.inside hstands.body.ok)
    -- the header is executed in a scope of its own, which the rounds share
    refine Simulates.inScope hin.scopes_length (hinit.bind fun _ => ?_)
    refine (hguard.loop hround hstep fuel).imp fun m m' hm => ?_
    obtain ⟨S, outer, hS⟩ := hstands.inside.valid.scopes_eq
    rw [hS] at houter hm
    have houter : outer = c.scopes := houter
    exact ⟨S, houter ▸ hm⟩
  | .switch e groups pos, c, _, _, r, hin, .switch typed integral labelsOk groupsOk => by
    rw [(Check.stmt_alike hin r (.switch typed integral labelsOk groupsOk)).scopes, Stmt.renamed,
      exec, exec, Expr.pos_renamed]
    obtain ⟨h₁, hin₁, groupsOk⟩ := Check.switch_stands hin typed integral labelsOk groupsOk rfl
    refine (eval_renamed h hin.valid hin.distinct typed).bind fun v => ?_
    refine (orFail_immediate _ _).simulates.bind fun key => ?_
    rw [startOf?_renamed]
    cases startOf? key groups with
    | none => exact simulates_pure _
    | some start =>
      have hfrom := execFrom_renamed h fuel start groups r hin₁ groupsOk
      rw [h₁.scopes] at hfrom
      exact hfrom
  | .ret (some e) pos, c, _, _, r, hin, .ret notVoid fits => by
    rw [(Check.stmt_alike hin r (.ret notVoid fits)).scopes, Stmt.renamed, Option.map_some, exec, exec]
    obtain ⟨t, typed, -⟩ := fits
    exact (eval_renamed h hin.valid hin.distinct typed).bind fun v => simulates_pure _
  | .ret none pos, c, _, _, r, hin, .retVoid isVoid => by
    rw [(Check.stmt_alike hin r (.retVoid isVoid)).scopes, Stmt.renamed, Option.map_none, exec, exec]
    exact simulates_pure _
  | .brk pos, c, _, _, r, hin, .brk => by
    rw [(Check.stmt_alike hin r .brk).scopes, Stmt.renamed, exec, exec]
    exact simulates_pure _

/-- Statements in a row. They may be left before the end, with fewer variables in scope. -/
theorem execAll_renamed (h : Renaming fresh G call call') (fuel : Nat) :
    ∀ (body : List Stmt) {c : Checker} {l : Bool} {Γ : TypeScopes} (r : Bool), c.Inside returns l →
      Stmt.ListOk c.signatures returns l c.view body Γ →
      Simulates (Machine.Renames fresh G c.scopes) (execAll call fuel body)
        (execAll call' fuel (Stmt.renamedAll fresh c r body))
        fun m m' => ∃ Δ, c.Amid Γ Δ ∧ m.Renames fresh G Δ m'
  | [], c, _, _, r, hin, .nil => by
    rw [Stmt.renamedAll, execAll, execAll]
    exact (simulates_pure _).imp fun m m' hm => ⟨_, .refl hin.valid _, hm⟩
  | s :: rest, c, _, Γ, r, hin, .cons head tail => by
    rw [Stmt.renamedAll, execAll, execAll]
    obtain ⟨hs, hwalk⟩ := Check.stmt_walked hin r head
    have hin₁ := Check.stmt_inside hin r head
    -- names that are in scope after the first statement are among those of the whole body
    have hamid : ∀ Δ, ((Check.stmt r s).after c).Amid Γ Δ → c.Amid Γ Δ :=
      Checker.Amid.of_stmt hin head tail.extends
    rw [← hwalk.view, ← hs.signatures] at tail
    refine (exec_renamed h fuel s r hin head).bind fun flow => ?_
    have hleave : ∀ flow : Flow, Simulates
        (Machine.Renames fresh G ((Check.stmt r s).after c).scopes) (pure flow) (pure flow)
        fun m m' => ∃ Δ, c.Amid Γ Δ ∧ m.Renames fresh G Δ m' := by
      intro flow
      exact (simulates_pure flow).imp fun m m' hm => ⟨_, hamid _ (.refl hin₁.valid _), hm⟩
    cases flow with
    | normal =>
      refine (execAll_renamed h fuel rest _ hin₁ tail).imp ?_
      rintro m m' ⟨Δ, hΔ, hm⟩
      exact ⟨Δ, hamid Δ hΔ, hm⟩
    | brk => exact hleave .brk
    | ret v => exact hleave (.ret v)

/-- Case groups declare nothing outside of blocks, wherever they are left. -/
theorem execFrom_renamed (h : Renaming fresh G call call') (fuel : Nat) :
    ∀ (start : Nat) (groups : List CaseGroup) {c : Checker} (r : Bool), c.Inside returns true →
      CaseGroup.ListOk c.signatures returns c.view groups →
      Simulates (Machine.Renames fresh G c.scopes) (execFrom call fuel start groups)
        (execFrom call' fuel start (CaseGroup.renamedAll fresh c r groups))
        (Machine.Renames fresh G c.scopes)
  | _, [], c, r, hin, .nil => by
    rw [CaseGroup.renamedAll, execFrom, execFrom]
    exact simulates_pure _
  | start + 1, .mk label body pos :: rest, c, r, hin, .cons bodyOk tail => by
    -- a group that is skipped is still checked, which leaves the same names in scope
    obtain ⟨h₁, hin₁⟩ := Check.stmts_inside hin r bodyOk
    rw [← h₁.view, ← h₁.signatures] at tail
    have hrest := execFrom_renamed h fuel start rest r hin₁ tail
    rw [h₁.scopes] at hrest
    rw [CaseGroup.renamedAll, execFrom, execFrom]
    exact hrest
  | 0, .mk label body pos :: rest, c, r, hin, .cons bodyOk tail => by
    obtain ⟨h₁, hin₁⟩ := Check.stmts_inside hin r bodyOk
    rw [← h₁.view, ← h₁.signatures] at tail
    have hrest := execFrom_renamed h fuel 0 rest r hin₁ tail
    rw [h₁.scopes] at hrest
    rw [CaseGroup.renamedAll, execFrom, execFrom]
    have hbody : Simulates (Machine.Renames fresh G c.scopes) (execAll call fuel body)
        (execAll call' fuel (Stmt.renamedAll fresh c r body)) (Machine.Renames fresh G c.scopes) := by
      refine (execAll_renamed h fuel body r hin bodyOk).imp ?_
      rintro m m' ⟨Δ, hΔ, hm⟩
      -- a group declares nothing, so leaving it early makes no difference
      rw [hΔ.kept rfl] at hm
      exact hm
    refine hbody.bind fun flow => ?_
    cases flow with
    | normal => exact hrest
    | brk => exact simulates_pure _
    | ret v => exact simulates_pure _

end

end Statements

end Run

end Primer
