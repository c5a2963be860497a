import Primer.Proofs.Soundness.Point
import Primer.Proofs.Soundness.Program
import Primer.Proofs.Typing.Complete

/-!
# Every point of a run is well typed

Wherever a run of a program that keeps the static rules gets to, the piece that is about to be
evaluated keeps the rules in the names that the checker has in scope there, and the variables of the
machine agree with these names.

- `Task.Ok` and `Point.Ok` state this for one point.
- `Point.Enters.ok`: a step from a point of this kind leads to one.
- `Program.Reaches.ok`: so all points of a run are of this kind.
-/

namespace Primer

/-- The piece keeps the static rules in the names in scope. -/
def Task.Ok (c : Checker) : Task → Prop
  | .expr e => HasSomeType c.signatures c.view e
  | .exprs es => ∃ ts, HasTypes c.signatures c.view es ts
  | .declare d => d.Ok c.signatures c.view
  | .stmt s => ∃ returns inLoop Γ, c.InFunction returns ∧ (c.breakable != 0) = inLoop ∧
      Stmt.Ok c.signatures returns inLoop c.view s Γ
  | .stmts body => ∃ returns inLoop Γ, c.InFunction returns ∧ (c.breakable != 0) = inLoop ∧
      Stmt.ListOk c.signatures returns inLoop c.view body Γ
  | .loop cond step body => ∃ returns, c.InFunction returns ∧
      (∀ e ∈ cond, IsIntegral c.signatures c.view e) ∧
      (∀ e ∈ step, HasSomeType c.signatures c.view e) ∧
      Stmt.Ok c.signatures returns true c.view body c.view
  | .groups _ gs => ∃ returns, c.InFunction returns ∧ (c.breakable != 0) = true ∧
      CaseGroup.ListOk c.signatures returns c.view gs

/-- The point is well typed, when the globals in `I` are initialised. -/
structure Point.Ok (sigs : Signatures) (G I : TypeScope) (x : Point) : Prop where
  valid : x.checker.Valid
  signatures : x.checker.signatures = sigs
  agrees : x.machine.env.Agrees G I x.checker.view
  task : x.task.Ok x.checker

theorem Context.Gives.satisfies {α : Type} {ctx : Context} {x : Call → Nat → Run α} {m m' : Machine}
    {a : α} {Q : α → Machine → Prop} {E : RuntimeError → Machine → Prop} (h : ctx.Gives x m a m')
    (hx : ∀ fuel, (x (ctx.calls fuel) fuel m).Satisfies Q E) : Q a m' := by
  obtain ⟨fuel, h⟩ := h
  have hfuel := hx fuel
  rw [h] at hfuel
  exact hfuel

/-! ## States of the checker -/

namespace Checker

/-- The state in which an item of a program is checked that keeps the rules. -/
theorem atItem_ok {p : Program} (hp : p.Ok) {G : TypeScope}
    (hitems : Item.ListOk p.signatures [] p.items G) {before rest : List Item}
    (hi : p.items = before ++ rest) :
    ∃ g, (atItem p before).AtItems ∧ (atItem p before).signatures = p.signatures ∧
      (atItem p before).view = [g] ∧ Item.ListOk p.signatures [] before g ∧
      Item.ListOk p.signatures g rest G := by
  rw [hi] at hitems
  obtain ⟨g, hbefore, hrest⟩ := hitems.split
  have hsigs := registered_signatures hp.registered_errors
  have hbefore' : Item.ListOk (registered p).signatures [] before g := hsigs ▸ hbefore
  obtain ⟨hs, -, hview⟩ := Check.items_accepts (registered_atItems p) (registered_view p) hbefore'
  exact ⟨g, hs.atItems, hs.signatures.trans hsigs, hview, hbefore, hrest⟩

/-- The state in which the body of a function is checked. -/
theorem enterFunction_ok {p : Program} (hp : p.Ok) {G : TypeScope}
    (hitems : Item.ListOk p.signatures [] p.items G) {before rest : List Item} {f : FunctionDef}
    (hi : p.items = before ++ .function f :: rest) :
    ∃ g, TypeScope.Within g G ∧ f.Ok p.signatures g ∧
      ((atItem p before).enterFunction f).view = [f.paramScope, g] ∧
      ((atItem p before).enterFunction f).Valid ∧
      ((atItem p before).enterFunction f).signatures = p.signatures ∧
      Task.Ok ((atItem p before).enterFunction f) (.stmts f.body) := by
  obtain ⟨g, hat, hsigs, hview, -, hrest⟩ := atItem_ok hp hitems hi
  cases hrest with
  | function ok tail =>
    have ok' : f.Ok (atItem p before).signatures g := hsigs ▸ ok
    obtain ⟨-, hview'⟩ := Check.enterFunction_accepts hat hview ok'
    obtain ⟨hsigs', hbreak⟩ := Check.enterFunction_step hat f
    obtain ⟨Γ, hbody⟩ := ok.body
    refine ⟨g, tail.within, ok, hview', enterFunction_valid hat.valid f, hsigs'.trans hsigs,
      f.returns, false, Γ, ⟨rfl, by rw [hview']; exact Nat.le_refl 2⟩, by rw [hbreak]; rfl, ?_⟩
    rw [hview', hsigs', hsigs]
    exact hbody

end Checker

/-- A piece keeps the rules in every state with the same names in scope. -/
theorem Task.Ok.of_step {c c' : Checker} {task : Task} (hs : c.Step c') (hview : c'.view = c.view)
    (h : task.Ok c) : task.Ok c' := by
  have hin : ∀ {returns : Ty}, c.InFunction returns → c'.InFunction returns := fun hf =>
    hf.of_step hs (congrArg List.length hview)
  cases task with
  | stmt s =>
    obtain ⟨returns, inLoop, Γ, hf, hb, ok⟩ := h
    refine ⟨returns, inLoop, Γ, hin hf, by rw [hs.breakable]; exact hb, ?_⟩
    rw [hview, hs.signatures]
    exact ok
  | stmts body =>
    obtain ⟨returns, inLoop, Γ, hf, hb, ok⟩ := h
    refine ⟨returns, inLoop, Γ, hin hf, by rw [hs.breakable]; exact hb, ?_⟩
    rw [hview, hs.signatures]
    exact ok
  | loop cond step body =>
    obtain ⟨returns, hf, hcond, hstep, ok⟩ := h
    refine ⟨returns, hin hf, ?_⟩
    rw [hview, hs.signatures]
    exact ⟨hcond, hstep, ok⟩
  | groups start gs =>
    obtain ⟨returns, hf, hb, ok⟩ := h
    refine ⟨returns, hin hf, by rw [hs.breakable]; exact hb, ?_⟩
    rw [hview, hs.signatures]
    exact ok
  -- expressions and declarations depend on the signatures and the names in scope only
  | _ =>
    simp only [Task.Ok, hview, hs.signatures] at h ⊢
    exact h

/-! ## Steps -/

namespace Point

variable {p : Program} {ctx : Context} {G I : TypeScope} {c c' : Checker} {r r' : Bool}
  {m m' : Machine} {task task' : Task} {y : Point}

/-- A part that is evaluated first. -/
theorem Ok.part {sigs : Signatures} (h : Ok sigs G I ⟨c, r, task, m⟩) (ht : task'.Ok c) :
    Ok sigs G I ⟨c, r', task', m⟩ :=
  ⟨h.valid, h.signatures, h.agrees, ht⟩

/-- A part that is evaluated after others. -/
theorem Ok.onwards {sigs : Signatures} (h : Ok sigs G I ⟨c, r, task, m⟩) (hs : c.Step c')
    {Γ : TypeScopes} (hview : c'.view = Γ) (hm : Keeps G I Γ m m') (ht : task'.Ok c') :
    Ok sigs G I ⟨c', r', task', m'⟩ := by
  subst hview
  exact ⟨hs.valid h.valid, hs.signatures.trans h.signatures, hm.agrees, ht⟩

/-- A part that is evaluated after others, which declare nothing. -/
theorem Ok.next {sigs : Signatures} (h : Ok sigs G I ⟨c, r, task, m⟩) (hs : c.Step c')
    (hview : c'.view = c.view) (hm : Keeps G I c.view m m') (ht : task'.Ok c) :
    Ok sigs G I ⟨c', r', task', m'⟩ :=
  h.onwards hs hview hm (ht.of_step hs hview)

section

variable (hp : p.Ok) (hitems : Item.ListOk p.signatures [] p.items G) (hctx : ctx.Ok G p.signatures)

include hp hitems in
/-- The body of a function that is called with arguments that fit. -/
theorem body_ok {f : FunctionDef} {vs : List Value} {pos : Position} {before rest : List Item}
    (item : p.items = before ++ .function f :: rest)
    (hargs : List.Forall₂ (fun param (v : Value) => Ty.accepts param v.type = true)
      f.type.params vs)
    (hm : m.env.Sound G I) (entered : ctx.enter f vs pos m = .value () m') :
    Ok p.signatures G I ⟨(Checker.atItem p before).enterFunction f, true, .stmts f.body, m'⟩ := by
  obtain ⟨g, hg, hf, hview, hvalid, hsigs, hbody⟩ := Checker.enterFunction_ok hp hitems item
  have henter : (ctx.enter f vs pos m).Satisfies _ _ := Context.enter_sound hg hf hargs hm
  rw [entered] at henter
  refine ⟨hvalid, hsigs, ?_, hbody⟩
  show m'.env.Agrees G I (Checker.view _)
  rw [hview]
  exact henter.1

include hctx in
theorem calls_sound_at (h : Ok p.signatures G I ⟨c, r, task, m⟩) (fuel : Nat) :
    (ctx.calls fuel).Sound G I c.signatures :=
  h.signatures ▸ Context.calls_sound hctx fuel

include hp hitems hctx in
theorem Enters.expr_ok {e : Expr} (h : Ok p.signatures G I ⟨c, r, .expr e, m⟩)
    (hs : Enters p ctx ⟨c, r, .expr e, m⟩ y) : y.Ok p.signatures G I := by
  have hcalls := calls_sound_at hctx h
  obtain ⟨t, typed⟩ : HasSomeType c.signatures c.view e := h.task
  cases hs with
  | assigned =>
    cases typed with
    | assign typed _ _ _ => exact h.part ⟨_, typed⟩
  | operand =>
    cases typed with
    | unary typed _ => exact h.part ⟨_, typed⟩
  | left =>
    cases typed with
    | binary leftTyped _ _ _ => exact h.part ⟨_, leftTyped⟩
  | right first _ =>
    cases typed with
    | binary leftTyped rightTyped leftIntegral _ =>
      -- the right operand is checked after the left one, and evaluated after it
      obtain ⟨hstep, -, -, hsame⟩ := Check.value_accepts h.valid leftTyped
        (Check.ne_void_of_isIntegral leftIntegral)
      obtain ⟨-, hkeeps⟩ := first.satisfies fun fuel => Run.eval_sound (hcalls fuel) leftTyped h.agrees
      exact h.next hstep hsame.view hkeeps ⟨_, rightTyped⟩
  | args =>
    cases typed with
    -- the format of `print` is one of its arguments
    | print formatTyped argsTyped => exact h.part ⟨_, .cons formatTyped (by decide) argsTyped⟩
    | call _ _ argsTyped _ => exact h.part ⟨_, argsTyped⟩
  | @call _ _ _ _ _ _ m₁ m₂ vs f before rest evaluated notPrint meant entered item =>
    cases typed with
    | print _ _ => exact absurd rfl notPrint
    | @call _ _ _ ft ts _ declared argsTyped fit =>
      obtain ⟨hvs, hkeeps⟩ := evaluated.satisfies fun fuel =>
        Run.evalAll_sound (hcalls fuel) argsTyped h.agrees
      -- what the static rules know by the name is the function that is called
      have hsig : f.type = ft := by
        have hdeclared := hctx.declared
        rw [h.signatures, ← hdeclared, meant] at declared
        exact Option.some.inj declared
      have hargs : List.Forall₂ (fun param (v : Value) => Ty.accepts param v.type = true)
          f.type.params vs := by
        rw [hsig]
        rw [← hvs, List.forall₂_map_right_iff] at fit
        exact fit
      exact body_ok hp hitems item hargs hkeeps.agrees.sound entered

include hctx in
theorem Enters.exprs_ok {es : List Expr} (h : Ok p.signatures G I ⟨c, r, .exprs es, m⟩)
    (hs : Enters p ctx ⟨c, r, .exprs es, m⟩ y) : y.Ok p.signatures G I := by
  have hcalls := calls_sound_at hctx h
  obtain ⟨ts, typed⟩ : ∃ ts, HasTypes c.signatures c.view es ts := h.task
  cases hs with
  | first =>
    cases typed with
    | cons typed _ _ => exact h.part ⟨_, typed⟩
  | others evaluated =>
    cases typed with
    | cons typed notVoid rest =>
      obtain ⟨hstep, -, -, hsame⟩ := Check.value_accepts h.valid typed notVoid
      obtain ⟨-, hkeeps⟩ := evaluated.satisfies fun fuel => Run.eval_sound (hcalls fuel) typed h.agrees
      exact h.next hstep hsame.view hkeeps ⟨_, rest⟩

theorem Enters.declare_ok {d : VarDecl} (h : Ok p.signatures G I ⟨c, r, .declare d, m⟩)
    (hs : Enters p ctx ⟨c, r, .declare d, m⟩ y) : y.Ok p.signatures G I := by
  have hd : d.Ok c.signatures c.view := h.task
  cases hs with
  | initial init =>
    obtain ⟨t, typed, _, _⟩ := hd.init _ init
    exact h.part ⟨t, typed⟩

include hctx in
theorem Enters.loop_ok {cond step : Option Expr} {body : Stmt}
    (h : Ok p.signatures G I ⟨c, r, .loop cond step body, m⟩)
    (hs : Enters p ctx ⟨c, r, .loop cond step body, m⟩ y) : y.Ok p.signatures G I := by
  have hcalls := calls_sound_at hctx h
  obtain ⟨returns, hf, condOk, stepOk, bodyOk⟩ := h.task
  obtain ⟨hguard, -, hsame⟩ := Check.guard_accepts h.valid condOk
  -- what the parts of a round leave behind
  have hround : ∀ {m₁ : Machine}, ctx.Gives (fun call _ => Run.guard call cond) m true m₁ →
      Keeps G I c.view m m₁ := fun holds =>
    holds.satisfies fun fuel => Run.guard_sound (hcalls fuel) condOk h.agrees
  have hbody : ∀ {m₁ m₂ : Machine}, Keeps G I c.view m m₁ →
      ctx.Gives (fun call fuel => Run.exec call fuel body) m₁ .normal m₂ →
      Keeps G I c.view m m₂ := fun h₁ executed =>
    h₁.trans (executed.satisfies fun fuel =>
      Run.exec_sound (hcalls fuel) fuel bodyOk hf.nested h₁.agrees).2
  cases hs with
  | guard =>
    obtain ⟨t, typed, -⟩ := condOk _ rfl
    exact h.part ⟨t, typed⟩
  | round holds =>
    have stepOk' : ∀ e ∈ step, HasSomeType (Check.after (Check.guard cond) c).signatures
        (Check.after (Check.guard cond) c).view e := by
      rw [show (Check.after (Check.guard cond) c).view = c.view from hsame.view,
        show (Check.after (Check.guard cond) c).signatures = c.signatures from hguard.signatures]
      exact stepOk
    obtain ⟨heffect, -, hsame'⟩ := Check.effect_accepts (hguard.valid h.valid) stepOk'
    have hok : Ok p.signatures G I ⟨_, r, .loop cond step body, _⟩ :=
      h.next (hguard.trans heffect) (hsame.trans hsame').view (hround holds) h.task
    obtain ⟨hvalid, hsigs, hagrees, returns, hf, -, -, ok⟩ := hok
    exact ⟨hvalid.inLoop, hsigs, hagrees, returns, true, _, hf.inLoop, rfl, ok⟩
  | step holds executed =>
    exact h.next hguard hsame.view (hbody (hround holds) executed) (stepOk _ rfl)
  | again holds executed stepped =>
    have h₂ := hbody (hround holds) executed
    have h₃ := h₂.trans
      (stepped.satisfies fun fuel => Run.effect_sound (hcalls fuel) stepOk h₂.agrees)
    exact h.next (.refl c) rfl h₃ h.task

include hctx in
theorem Enters.groups_ok {start : Nat} {gs : List CaseGroup}
    (h : Ok p.signatures G I ⟨c, r, .groups start gs, m⟩)
    (hs : Enters p ctx ⟨c, r, .groups start gs, m⟩ y) : y.Ok p.signatures G I := by
  have hcalls := calls_sound_at hctx h
  obtain ⟨returns, hf, hb, ok⟩ := h.task
  cases ok with
  | nil => cases hs
  | cons bodyOk tail =>
    have haccepts : Check.Accepts (Check.stmts r _) c (Check.WalkedList r c _ c.view) :=
      Check.stmts_accepts h.valid hf.function hb bodyOk
    obtain ⟨hstep, -, hwalk⟩ := haccepts
    cases hs with
    | skip => exact h.next hstep hwalk.view (.refl h.agrees) ⟨returns, hf, hb, tail⟩
    | group => exact h.part ⟨returns, true, _, hf, hb, bodyOk⟩
    | fallThrough executed =>
      obtain ⟨-, Γ, -, -, hnormal, hkeeps⟩ := executed.satisfies fun fuel =>
        Run.execAll_sound (hcalls fuel) fuel bodyOk hf.nested h.agrees
      rw [hnormal rfl] at hkeeps
      exact h.next hstep hwalk.view hkeeps ⟨returns, hf, hb, tail⟩

include hctx in
theorem Enters.stmts_ok {body : List Stmt} (h : Ok p.signatures G I ⟨c, r, .stmts body, m⟩)
    (hs : Enters p ctx ⟨c, r, .stmts body, m⟩ y) : y.Ok p.signatures G I := by
  have hcalls := calls_sound_at hctx h
  obtain ⟨returns, inLoop, Γ', hf, hb, ok⟩ := h.task
  cases ok with
  | nil => cases hs
  | @cons _ _ Γ₁ _ s rest head tail =>
    cases hs with
    | head => exact h.part ⟨returns, inLoop, _, hf, hb, head⟩
    | @tail _ _ _ _ _ m' executed =>
      -- the checker and the machine both go over the first statement, and the names in scope still
      -- agree
      have haccepts : Check.Accepts (Check.stmt r s) c (Check.Walked r c s Γ₁) :=
        Check.stmt_accepts h.valid hf.function hb head
      obtain ⟨-, hkeeps⟩ := executed.satisfies fun fuel =>
        Run.exec_sound (hcalls fuel) fuel head hf.nested h.agrees
      have hstep : c.Step (Check.after (Check.stmt r s) c) := haccepts.1
      have hview : (Check.after (Check.stmt r s) c).view = Γ₁ := haccepts.2.2.view
      refine h.onwards hstep hview hkeeps ⟨returns, inLoop, Γ', ?_, ?_, ?_⟩
      · refine hf.of_step hstep ?_
        rw [hview]
        exact head.extends.length_eq
      · rw [hstep.breakable]
        exact hb
      · rw [hview, hstep.signatures]
        exact tail

include hctx in
theorem Enters.forLoop_ok {init : Option ForInit} {cond step : Option Expr} {body : Stmt}
    {pos : Position} (h : Ok p.signatures G I ⟨c, r, .stmt (.forLoop init cond step body pos), m⟩)
    (hs : Enters p ctx ⟨c, r, .stmt (.forLoop init cond step body pos), m⟩ y) :
    y.Ok p.signatures G I := by
  have hcalls := calls_sound_at hctx h
  obtain ⟨returns, inLoop, Γ, hf, hb, ok⟩ := h.task
  cases ok with
  | @forLoop _ _ Γ' _ _ _ _ _ initOk condOk stepOk bodyOk =>
    have hpush : m.pushScope.env.Agrees G I c.pushScope.view := h.agrees.pushScope hf.nested
    have hvalid : c.pushScope.Valid := h.valid.pushScope
    cases hs with
    | forDeclare =>
      cases initOk with
      | declare ok => exact ⟨hvalid, h.signatures, hpush, ok⟩
    | forEval =>
      cases initOk with
      | eval typed => exact ⟨hvalid, h.signatures, hpush, typed⟩
    | @forLoop _ _ _ _ _ _ _ _ m' initialised =>
      have hkeeps := initialised.satisfies fun fuel =>
        Run.forInit_sound (hcalls fuel) initOk (Nat.le_succ_of_le hf.nested) hpush
      have haccepts : Check.Accepts (Check.forInit init) c.pushScope fun _ c' =>
          c'.view = Γ' ∧ c'.function = c.pushScope.function :=
        Check.forInit_accepts hvalid initOk
      have hstep : c.pushScope.Step (Check.after (Check.forInit init) c.pushScope) := haccepts.1
      have hview : (Check.after (Check.forInit init) c.pushScope).view = Γ' := haccepts.2.2.1
      have hlen : (Check.after (Check.forInit init) c.pushScope).view.length =
          c.pushScope.view.length := by
        rw [hview]
        exact initOk.extends.length_eq
      -- `onwards` starts from a point, and the scope of the loop is open before anything is done in it
      have hpoint : Ok p.signatures G I ⟨c.pushScope, r, .exprs [], m.pushScope⟩ :=
        ⟨hvalid, h.signatures, hpush, [], .nil⟩
      refine hpoint.onwards hstep hview hkeeps ⟨returns, hf.pushScope.of_step hstep hlen, ?_⟩
      rw [hview, hstep.signatures]
      exact ⟨condOk, stepOk, bodyOk⟩

include hctx in
theorem Enters.switch_ok {e : Expr} {gs : List CaseGroup} {pos : Position}
    (h : Ok p.signatures G I ⟨c, r, .stmt (.switch e gs pos), m⟩)
    (hs : Enters p ctx ⟨c, r, .stmt (.switch e gs pos), m⟩ y) : y.Ok p.signatures G I := by
  have hcalls := calls_sound_at hctx h
  obtain ⟨returns, inLoop, Γ, hf, hb, ok⟩ := h.task
  cases ok with
  | @switch _ _ _ _ _ t typed integral labelsOk groupsOk =>
    cases hs with
    | scrutinee => exact h.part ⟨_, typed⟩
    | switch evaluated _ _ =>
      obtain ⟨-, hkeeps⟩ := evaluated.satisfies fun fuel => Run.eval_sound (hcalls fuel) typed h.agrees
      -- the checker goes on to the labels before it comes to the groups; the machine does not
      have haccepts : Check.Accepts
          (do let t ← Check.scrutinee e; Check.labels t [] false gs) c fun _ c' => c.Same c' := by
        refine Check.bind_accepts (Check.scrutinee_accepts h.valid typed integral) ?_
        rintro _ c₁ - ⟨rfl, h₁⟩
        have hlabels : Check.Accepts (Check.labels (some t) [] false gs) c₁ fun _ c' => c' = c₁ :=
          Check.labels_accepts (fun l hl => ⟨labelsOk.typed l hl, by simp⟩) labelsOk.distinct
            labelsOk.oneDefault
        refine hlabels.imp ?_
        rintro _ _ - rfl
        exact h₁
      obtain ⟨hstep, -, hsame⟩ := haccepts
      have hagrees := hkeeps.agrees
      rw [← hsame.view] at hagrees
      rw [← hsame.view, ← hstep.signatures] at groupsOk
      exact ⟨(hstep.valid h.valid).inLoop, hstep.signatures.trans h.signatures, hagrees, returns,
        (hf.of_same hsame).inLoop, rfl, groupsOk⟩

include hctx in
theorem Enters.stmt_ok {s : Stmt} (h : Ok p.signatures G I ⟨c, r, .stmt s, m⟩)
    (hs : Enters p ctx ⟨c, r, .stmt s, m⟩ y) : y.Ok p.signatures G I := by
  have hcalls := calls_sound_at hctx h
  obtain ⟨returns, inLoop, Γ, hf, hb, ok⟩ := h.task
  cases ok with
  | declare ok =>
    cases hs with
    | declare => exact h.part ok
  | eval typed =>
    cases hs with
    | eval => exact h.part typed
  | block bodyOk =>
    cases hs with
    | block =>
      exact ⟨h.valid.pushScope, h.signatures, h.agrees.pushScope hf.nested, returns, inLoop, _,
        hf.pushScope, hb, bodyOk⟩
  | branch condOk onTrueOk =>
    have hcond := condOk
    obtain ⟨t, typed, -⟩ := condOk
    obtain ⟨hstep, -, hsame⟩ := Check.condition_accepts h.valid hcond
    cases hs with
    | condition => exact h.part ⟨t, typed⟩
    | onTrue holds =>
      have hkeeps := holds.satisfies fun fuel => Run.condition_sound (hcalls fuel) hcond h.agrees
      exact h.next hstep hsame.view hkeeps ⟨returns, inLoop, _, hf, hb, onTrueOk⟩
  | @branchElse _ _ e s s' pos condOk onTrueOk onFalseOk =>
    have hcond := condOk
    obtain ⟨t, typed, -⟩ := condOk
    obtain ⟨hstep, -, hsame⟩ := Check.condition_accepts h.valid hcond
    cases hs with
    | condition => exact h.part ⟨t, typed⟩
    | onTrue holds =>
      have hkeeps := holds.satisfies fun fuel => Run.condition_sound (hcalls fuel) hcond h.agrees
      exact h.next hstep hsame.view hkeeps ⟨returns, inLoop, _, hf, hb, onTrueOk⟩
    | onFalse fails =>
      have hkeeps := fails.satisfies fun fuel => Run.condition_sound (hcalls fuel) hcond h.agrees
      -- the first branch declares nothing, so it leaves the names in scope as they are
      rw [← hsame.view, ← hstep.signatures, ← hb, ← hstep.breakable] at onTrueOk
      have haccepts : Check.Accepts (Check.stmt r s) (Check.after (Check.condition e) c)
          (Check.Walked r _ s _) :=
        Check.stmt_accepts (hstep.valid h.valid) (Check.returns_of_step hstep hf.function) rfl onTrueOk
      exact h.next (hstep.trans haccepts.1) (haccepts.2.2.view.trans hsame.view) hkeeps
        ⟨returns, inLoop, _, hf, hb, onFalseOk⟩
  | whileLoop condOk bodyOk =>
    cases hs with
    | whileLoop => exact h.part ⟨returns, hf, by simpa using condOk, by simp, bodyOk⟩
  | forLoop _ _ _ _ => exact hs.forLoop_ok hctx h
  | switch _ _ _ _ => exact hs.switch_ok hctx h
  | ret _ fits =>
    obtain ⟨t, typed, -⟩ := fits
    cases hs with
    | returned => exact h.part ⟨t, typed⟩
  | retVoid _ => cases hs
  | brk => cases hs

include hp hitems hctx in
/-- A step from a well typed point leads to a well typed point. -/
theorem Enters.ok {x : Point} (hs : Enters p ctx x y) (h : x.Ok p.signatures G I) :
    y.Ok p.signatures G I := by
  obtain ⟨c, r, task, m⟩ := x
  cases task with
  | expr e => exact hs.expr_ok hp hitems hctx h
  | exprs es => exact hs.exprs_ok hctx h
  | declare d => exact hs.declare_ok h
  | stmt s => exact hs.stmt_ok hctx h
  | stmts body => exact hs.stmts_ok hctx h
  | loop cond step body => exact hs.loop_ok hctx h
  | groups start gs => exact hs.groups_ok hctx h

include hctx in
/-- Whatever a run does at a well typed point, it leaves slots behind that are in order, and its
errors are among those that the rules do not exclude. -/
theorem Ok.run_ok {x : Point} (h : x.Ok p.signatures G I) (fuel : Nat) :
    (x.task.run (ctx.calls fuel) fuel x.machine).Satisfies (fun _ m' => m'.env.Ok) (Stops G I) := by
  obtain ⟨c, r, task, m⟩ := x
  have hcall := calls_sound_at hctx h fuel
  cases task with
  | expr e =>
    obtain ⟨t, typed⟩ := h.task
    exact Run.discard_satisfies ((Run.eval_sound hcall typed h.agrees).imp_value
      fun _ _ h' => h'.2.agrees.sound.ok)
  | exprs es =>
    obtain ⟨ts, typed⟩ := h.task
    exact Run.discard_satisfies ((Run.evalAll_sound hcall typed h.agrees).imp_value
      fun _ _ h' => h'.2.agrees.sound.ok)
  | declare d =>
    have hd : d.Ok c.signatures c.view := h.task
    exact Run.declare_value_sound hcall hd h.agrees fun v m' hv h' =>
      h'.agrees.sound.ok.define hv hd.notVoid
  | stmt s =>
    obtain ⟨returns, inLoop, Γ, hf, -, ok⟩ := h.task
    exact Run.discard_satisfies ((Run.exec_sound hcall fuel ok hf.nested h.agrees).imp_value
      fun _ _ h' => h'.2.agrees.sound.ok)
  | stmts body =>
    obtain ⟨returns, inLoop, Γ, hf, -, ok⟩ := h.task
    refine Run.discard_satisfies ((Run.execAll_sound hcall fuel ok hf.nested h.agrees).imp_value ?_)
    exact fun _ _ ⟨_, _, _, _, _, h'⟩ => h'.agrees.sound.ok
  | loop cond step body =>
    obtain ⟨returns, hf, condOk, stepOk, bodyOk⟩ := h.task
    have hloop := Run.loop_sound (fun m => Run.guard_sound hcall condOk)
      (fun m => Run.exec_sound hcall fuel bodyOk hf.nested)
      (fun m => Run.effect_sound hcall stepOk) fuel h.agrees
    exact Run.discard_satisfies (hloop.imp_value fun _ _ h' => h'.2.agrees.sound.ok)
  | groups start gs =>
    obtain ⟨returns, hf, -, ok⟩ := h.task
    exact Run.discard_satisfies ((Run.execFrom_sound hcall fuel start ok hf.nested h.agrees).imp_value
      fun _ _ h' => h'.2.agrees.sound.ok)

end

end Point

/-! ## Runs -/

namespace Program

variable {p : Program} {ctx : Context} {G : TypeScope} {done : List Item} {x : Point}

/-- A run begins at well typed points. -/
theorem Starts.ok (hp : p.Ok) (hitems : Item.ListOk p.signatures [] p.items G)
    (hctx : ctx.Ok G p.signatures) (hs : p.Starts ctx done x) :
    ∃ I, Item.ListOk p.signatures [] done I ∧ x.Ok p.signatures G I := by
  have hcalls : ∀ fuel I, (ctx.calls fuel).Sound G I p.signatures := fun fuel I =>
    Context.calls_sound hctx fuel
  cases hs with
  | @global before rest d m item initialised =>
    obtain ⟨g, hat, hsigs, hview, hbefore, hrest⟩ := Checker.atItem_ok hp hitems item
    have hm : m.env.AtGlobals G g := initialised.satisfies fun fuel =>
      Run.declareAll_sound (hcalls fuel) hbefore hrest.within (Environment.atGlobals_empty G)
    refine ⟨g, hbefore, hat.valid, hsigs, ?_, ?_⟩
    · show m.env.Agrees G g (Checker.view _)
      rw [hview]
      exact hm.agrees
    · show d.Ok (Checker.signatures _) (Checker.view _)
      rw [hview, hsigs]
      cases hrest with
      | global ok _ => exact ok
  | @main before rest f m m' initialised meant noParams item entered =>
    have hm : m.env.AtGlobals G G := initialised.satisfies fun fuel => globals_sound hctx hitems fuel
    refine ⟨G, hitems, Point.body_ok hp hitems item ?_ hm.sound entered⟩
    rw [FunctionDef.type, List.isEmpty_iff.mp noParams]
    exact .nil

/-- Every point that a run comes to is well typed. -/
theorem Reaches.ok (hp : p.Ok) (hitems : Item.ListOk p.signatures [] p.items G)
    (hctx : ctx.Ok G p.signatures) (hr : p.Reaches ctx done x) :
    ∃ I, Item.ListOk p.signatures [] done I ∧ x.Ok p.signatures G I := by
  obtain ⟨start, hstart, hsteps⟩ := hr
  obtain ⟨I, hdone, hok⟩ := hstart.ok hp hitems hctx
  refine ⟨I, hdone, ?_⟩
  -- The initialised globals stay the same along the steps, so one `I` serves the whole way.
  induction hsteps with
  | refl => exact hok
  | tail _ hstep ih => exact hstep.ok hp hitems hctx ih

end Program

end Primer
