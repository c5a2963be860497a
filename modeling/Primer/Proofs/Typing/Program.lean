import Primer.Proofs.Typing.Statement
import Primer.Typing.Program

/-!
# Accepted programs keep the static rules

A program that is checked without an error keeps the rules, if its tree holds declarations in blocks
only.

- `Checker.registered` is the state after all functions are registered.
- `Checker.atItem` is the state in which an item is checked, and `Checker.enterFunction` the one in
  which the body of a function is.
- `Program.ok_of_check` is the statement about whole programs; `Checker.atItem_accepted` and
  `Checker.enterFunction_accepted` say the same about every item and body on the way.
-/

namespace Primer

/-! ## Registration -/

namespace Checker

/-- What registering functions keeps. -/
structure RegisterStep (c c' : Checker) : Prop where
  errors : c.errors <+: c'.errors
  scopes : c'.scopes = c.scopes
  types : c.symbols.map Symbol.type <+: c'.symbols.map Symbol.type
  function : c'.function = c.function
  breakable : c'.breakable = c.breakable
  routine : c'.routine = c.routine

theorem RegisterStep.refl (c : Checker) : c.RegisterStep c :=
  ⟨List.prefix_refl _, rfl, List.prefix_refl _, rfl, rfl, rfl⟩

theorem RegisterStep.trans {c c' c'' : Checker} (h : c.RegisterStep c') (h' : c'.RegisterStep c'') :
    c.RegisterStep c'' :=
  ⟨h.errors.trans h'.errors, h'.scopes.trans h.scopes, h.types.trans h'.types,
    h'.function.trans h.function, h'.breakable.trans h.breakable, h'.routine.trans h.routine⟩

end Checker

namespace Check

theorem register_cases (f : FunctionDef) (c : Checker) :
    (∃ v, ((register f).run c).2 = c.report v f.pos) ∨
      (isBuiltin f.name = false ∧ c.functions.lookup f.name = none ∧
        ((register f).run c).2 = c.declareFunction f) := by
  unfold register
  split
  · exact .inl ⟨_, rfl⟩
  · next hb =>
    show (∃ v, ((if (c.functions.lookup f.name).isSome = true
        then report (.functionAlreadyDefined f.name) f.pos
        else modify fun c => c.declareFunction f : Check Unit).run c).2 = c.report v f.pos) ∨ _ ∧ _ ∧
      ((if (c.functions.lookup f.name).isSome = true
        then report (.functionAlreadyDefined f.name) f.pos
        else modify fun c => c.declareFunction f : Check Unit).run c).2 = c.declareFunction f
    split
    · exact .inl ⟨_, rfl⟩
    · next hl => exact .inr ⟨by simpa using hb, Option.not_isSome_iff_eq_none.mp hl, rfl⟩

theorem register_step (f : FunctionDef) (c : Checker) :
    c.RegisterStep ((register f).run c).2 := by
  rcases register_cases f c with ⟨v, h⟩ | ⟨-, -, h⟩
  · rw [h]
    exact ⟨List.prefix_append _ _, rfl, List.prefix_refl _, rfl, rfl, rfl⟩
  · rw [h]
    exact ⟨List.prefix_refl _, rfl, by simp [Checker.declareFunction, Checker.addSymbol], rfl, rfl, rfl⟩

theorem registerAll_step : ∀ (fs : List FunctionDef) (c : Checker),
    c.RegisterStep ((fs.forM register).run c).2
  | [], c => Checker.RegisterStep.refl c
  | f :: fs, c => (register_step f c).trans (registerAll_step fs _)

/-- Functions that are registered without an error have different names, none of them taken. -/
theorem registerAll_accepted : ∀ (fs : List FunctionDef) (c : Checker),
    ((fs.forM register).run c).2.errors = [] →
      (fs.map FunctionDef.name).Nodup ∧
      (∀ f ∈ fs, isBuiltin f.name = false ∧ c.functions.lookup f.name = none) ∧
      ∀ name, ((fs.forM register).run c).2.signatures name =
        (c.signatures name).or ((fs.find? fun f => f.name == name).map FunctionDef.type)
  | [], c, _ => by
    refine ⟨List.nodup_nil, by simp, fun name => ?_⟩
    simp only [List.find?_nil, Option.map_none, Option.or_none]
    rfl
  | f :: fs, c, he => by
    have he : ((fs.forM register).run ((register f).run c).2).2.errors = [] := he
    -- errors are only added, so there was none after the first function either
    have he₁ : ((register f).run c).2.errors = [] :=
      List.prefix_nil.mp (he ▸ (registerAll_step fs _).errors)
    rcases register_cases f c with ⟨v, h⟩ | ⟨hb, hl, h⟩
    · simp [h, Checker.report] at he₁
    · obtain ⟨hnodup, hfree, hsigs⟩ := registerAll_accepted fs _ he
      -- the first function is registered before the others, so they have other names
      have hfree' : ∀ g ∈ fs, f.name ≠ g.name ∧ c.functions.lookup g.name = none := by
        intro g hg
        have := (hfree g hg).2
        rw [h, show (c.declareFunction f).functions = (f.name, _) :: c.functions from rfl,
          Lookup.lookup_cons] at this
        split at this
        · cases this
        · next hname => exact ⟨fun e => hname e.symm, this⟩
      refine ⟨?_, ?_, fun name => ?_⟩
      · refine List.nodup_cons.mpr ⟨fun hm => ?_, hnodup⟩
        obtain ⟨g, hg, hname⟩ := List.mem_map.mp hm
        exact (hfree' g hg).1 hname.symm
      · exact List.forall_mem_cons.mpr ⟨⟨hb, hl⟩, fun g hg => ⟨(hfree g hg).1, (hfree' g hg).2⟩⟩
      · refine (hsigs name).trans ?_
        rw [h, List.find?_cons, Checker.signatures, Checker.signatures,
          show (c.declareFunction f).functions = (f.name, _) :: c.functions from rfl,
          Lookup.lookup_cons]
        by_cases hname : name = f.name
        · subst hname
          simp [hl, FunctionDef.type]
        · simp only [if_neg hname, beq_eq_false_iff_ne.mpr (Ne.symm hname)]

end Check

/-! ## Functions -/

/-- The names in scope after parameters were declared. -/
def Param.declareAll (Γ : TypeScopes) (params : List Param) : TypeScopes :=
  params.foldl (fun Γ p => Γ.declare p.name p.type) Γ

theorem Param.declareAll_cons (scope : TypeScope) (Γ : TypeScopes) :
    ∀ params : List Param, Param.declareAll (scope :: Γ) params =
      ((params.map fun p => (p.name, p.type)).reverse ++ scope) :: Γ
  | [] => rfl
  | p :: params => by
    rw [Param.declareAll, List.foldl_cons]
    refine (Param.declareAll_cons ((p.name, p.type) :: scope) Γ params).trans ?_
    simp

namespace Check

theorem param_ensures {p : Param} {c : Checker} (hc : c.Valid) :
    Ensures (param p) c fun _ c' => p.type ≠ .void ∧ c.view.FreeHere p.name ∧
      c'.view = c.view.declare p.name p.type := by
  refine bind_ensures (R := fun _ c' => p.type ≠ .void ∧ c' = c)
    (reportIf_ensures fun h => ⟨by simpa using h, rfl⟩) fun _ c₁ s₁ => ?_
  refine (declare_ensures (s₁.valid hc)).imp ?_
  rintro _ c₂ _ ⟨hfree, hview, -⟩ ⟨hvoid, rfl⟩
  exact ⟨hvoid, hfree, hview⟩

theorem params_ensures : ∀ {params : List Param} {c : Checker}, c.Valid →
    Ensures (params.forM param) c fun _ c' => (∀ p ∈ params, p.type ≠ .void) ∧
      (params.map Param.name).Nodup ∧ (∀ p ∈ params, c.view.FreeHere p.name) ∧
      c'.view = Param.declareAll c.view params
  | [], c, _ => pure_ensures ⟨by simp, List.nodup_nil, by simp, rfl⟩
  | p :: params, c, hc => by
    refine bind_ensures (param_ensures hc) fun _ c₁ s₁ => ?_
    refine (params_ensures (s₁.valid hc)).imp ?_
    rintro _ c₂ _ ⟨hvoid', hnodup, hfree', hview'⟩ ⟨hvoid, hfree, hview⟩
    obtain ⟨scope, outer, hΓ⟩ : ∃ scope outer, c.view = scope :: outer :=
      List.exists_cons_of_ne_nil (by simpa [Checker.view] using hc.open_)
    -- the first parameter is in scope when the others are declared
    have hnew : ∀ q ∈ params, q.name ≠ p.name ∧ c.view.FreeHere q.name := by
      intro q hq
      have h := hfree' q hq
      rw [hview, hΓ] at h
      have h : List.lookup q.name ((p.name, p.type) :: scope) = none := h _ rfl
      rw [Lookup.lookup_cons] at h
      split at h
      · cases h
      · next hname =>
        refine ⟨hname, fun scope' hs => ?_⟩
        rw [hΓ] at hs
        cases hs
        exact h
    refine ⟨List.forall_mem_cons.mpr ⟨hvoid, hvoid'⟩, List.nodup_cons.mpr ⟨fun hm => ?_, hnodup⟩,
      List.forall_mem_cons.mpr ⟨hfree, fun q hq => (hnew q hq).2⟩, ?_⟩
    · obtain ⟨q, hq, hname⟩ := List.mem_map.mp hm
      exact (hnew q hq).1 hname
    · rw [hview', hview]
      rfl

theorem requireReturn_ensures {f : FunctionDef} {c : Checker} {current : CurrentFunction}
    (hf : c.function = some current) :
    Ensures (requireReturn f) c fun _ c' =>
      (current.returns ≠ .void → current.name ≠ mainName → current.hasReturn = true) ∧ c' = c := by
  refine get_bind_ensures ?_
  rw [hf]
  refine reportIf_ensures fun h => ⟨fun hvoid hmain => ?_, rfl⟩
  simpa [hvoid, hmain] using h

end Check

namespace Checker

/-- The state in which the body of a function is checked, from that in which the function is. -/
def enterFunction (c : Checker) (f : FunctionDef) : Checker :=
  { ((f.params.forM Check.param).run (c.enterRoutine f.name).pushScope).2 with
    function := some ⟨f.name, f.returns, false⟩ }

/-- The state after the body of a function. -/
def leaveFunction (c : Checker) (f : FunctionDef) : Checker :=
  ({ ((Check.requireReturn f).run c).2 with function := none }.popScope).leaveRoutine

theorem functionDef_run (c : Checker) (f : FunctionDef) :
    ((Check.functionDef f).run c).2 =
      (((Check.stmts true f.body).run (c.enterFunction f)).2).leaveFunction f := rfl

/-- A state between two items. -/
structure AtItems (c : Checker) : Prop where
  valid : c.Valid
  global : c.scopes.length = 1
  function : c.function = none
  breakable : c.breakable = 0

theorem AtItems.view_eq {c : Checker} (h : c.AtItems) : ∃ globals, c.view = [globals] := by
  obtain ⟨scope, hs⟩ := List.length_eq_one_iff.mp h.global
  exact ⟨c.viewScope scope, by rw [view, hs]; rfl⟩

/-- What checking an item keeps. -/
structure ItemStep (c c' : Checker) : Prop where
  errors : c.errors <+: c'.errors
  types : c.symbols.map Symbol.type <+: c'.symbols.map Symbol.type
  functions : c'.functions = c.functions
  atItems : c'.AtItems

theorem ItemStep.errors_nil {c c' : Checker} (h : c.ItemStep c') (he : c'.errors = []) :
    c.errors = [] :=
  List.prefix_nil.mp (he ▸ h.errors)

theorem ItemStep.trans {c c' c'' : Checker} (h : c.ItemStep c') (h' : c'.ItemStep c'') :
    c.ItemStep c'' :=
  ⟨h.errors.trans h'.errors, h.types.trans h'.types, h'.functions.trans h.functions, h'.atItems⟩

theorem ItemStep.signatures {c c' : Checker} (h : c.ItemStep c') :
    c'.signatures = c.signatures := by
  unfold Checker.signatures
  rw [h.functions]

theorem Step.item {c c' : Checker} (h : c.Step c') (hc : c.AtItems) : c.ItemStep c' := by
  have hv := h.valid hc.valid
  refine ⟨h.errors, h.types, h.functions, hv, ?_, ?_, h.breakable.trans hc.breakable⟩
  · have := congrArg List.length h.outer
    have := hc.global
    have := List.length_pos_iff.mpr hv.open_
    simp only [List.length_tail] at *
    omega
  · have := h.function
    rw [hc.function] at this
    simpa using this

/-- The walk from a function to its body: its parameters are declared in a scope of their own. -/
theorem enterFunction_params {c : Checker} (hc : c.Valid) (f : FunctionDef) :
    Check.Ensures (f.params.forM Check.param) (c.enterRoutine f.name).pushScope fun _ c' =>
      (∀ p ∈ f.params, p.type ≠ .void) ∧ (f.params.map Param.name).Nodup ∧
        c'.view = f.paramScope :: c.view := by
  have hv : (c.enterRoutine f.name).pushScope.Valid :=
    Valid.pushScope (c := c.enterRoutine f.name) ⟨hc.open_, hc.bound⟩
  refine (Check.params_ensures hv).imp ?_
  rintro _ c₁ _ ⟨hvoid, hnodup, -, hview⟩
  refine ⟨hvoid, hnodup, hview.trans ?_⟩
  show Param.declareAll ([] :: c.view) f.params = _
  rw [Param.declareAll_cons, List.append_nil]
  rfl

theorem enterFunction_valid {c : Checker} (hc : c.Valid) (f : FunctionDef) :
    (c.enterFunction f).Valid := by
  have hv : (c.enterRoutine f.name).pushScope.Valid :=
    Valid.pushScope (c := c.enterRoutine f.name) ⟨hc.open_, hc.bound⟩
  have := (enterFunction_params hc f).1.valid hv
  exact ⟨this.open_, this.bound⟩

/-- The function whose body is checked stays the same throughout. -/
theorem Step.current {c c' : Checker} {f : FunctionDef} (h : (c.enterFunction f).Step c') :
    ∃ current, c'.function = some current ∧ current.name = f.name ∧ current.returns = f.returns := by
  obtain ⟨current, hcur, hf⟩ := Option.map_eq_some_iff.mp (h.function.trans rfl)
  exact ⟨current, hcur, congrArg Prod.fst hf, congrArg Prod.snd hf⟩

theorem leaveFunction_scopes {c c' : Checker} {f : FunctionDef} (hc : c.AtItems)
    (hb : (c.enterFunction f).Step c') : (c'.leaveFunction f).scopes = c.scopes := by
  obtain ⟨current, hcur, -⟩ := hb.current
  have hp := (enterFunction_params hc.valid f).1
  have hr := (Check.requireReturn_ensures (f := f) hcur).1
  exact hr.outer.trans (hb.outer.trans hp.outer)

/-- Checking a function closes what it opens. -/
theorem leaveFunction_itemStep {c c' : Checker} {f : FunctionDef} (hc : c.AtItems)
    (hb : (c.enterFunction f).Step c') :
    c.ItemStep (c'.leaveFunction f) ∧ (c'.leaveFunction f).view = c.view := by
  obtain ⟨current, hcur, -⟩ := hb.current
  have hp := (enterFunction_params hc.valid f).1
  have hr := (Check.requireReturn_ensures (f := f) hcur).1
  have hscopes := leaveFunction_scopes hc hb
  have hvalid : ((Check.requireReturn f).run c').2.Valid :=
    hr.valid (hb.valid (enterFunction_valid hc.valid f))
  have hstep : c.ItemStep (c'.leaveFunction f) := by
    refine ⟨hp.errors.trans (hb.errors.trans hr.errors), hp.types.trans (hb.types.trans hr.types),
      -- what was opened in the function is closed, and what was found there stays
      hr.functions.trans (hb.functions.trans hp.functions), ⟨?_, fun scope hm b hb => ?_⟩,
      by rw [hscopes, hc.global], rfl,
      hr.breakable.trans (hb.breakable.trans (hp.breakable.trans hc.breakable))⟩
    · rw [hscopes]
      exact hc.valid.open_
    · exact hvalid.bound scope (List.mem_of_mem_tail hm) b hb
  refine ⟨hstep, ?_⟩
  unfold view
  rw [hscopes]
  exact List.map_congr_left fun scope hm =>
    viewScope_of_types hstep.types (hc.valid.bound scope hm)

theorem body_ensures {c : Checker} (hc : c.Valid) {f : FunctionDef} (hf : Stmt.ListItems f.body) :
    Check.Ensures (Check.stmts true f.body) (c.enterFunction f)
      (Check.AcceptedList f.returns true (c.enterFunction f) f.body) :=
  Check.stmts_ensures f.body (enterFunction_valid hc f) rfl hf

end Checker

namespace Check

theorem global_accepted {c : Checker} (hc : c.AtItems) (d : VarDecl) :
    c.ItemStep ((item (.global d)).run c).2 ∧ (((item (.global d)).run c).2.errors = [] →
      d.Ok c.signatures c.view ∧
        ((item (.global d)).run c).2.view = c.view.declare d.name d.type) := by
  obtain ⟨hs, hq⟩ := varDecl_ensures (d := d) hc.valid
  exact ⟨hs.item hc, fun he => ⟨(hq he).1, (hq he).2.1⟩⟩

/-- A function that is checked without an error keeps the rules, and its body is checked with the
parameters and the globals before it in scope. -/
theorem function_accepted {c : Checker} (hc : c.AtItems) {f : FunctionDef}
    (hf : Stmt.ListItems f.body) :
    c.ItemStep ((item (.function f)).run c).2 ∧ (((item (.function f)).run c).2.errors = [] →
      (∃ globals, c.view = [globals] ∧ f.Ok c.signatures globals) ∧
        ((item (.function f)).run c).2.view = c.view) := by
  obtain ⟨hp, hparams⟩ := Checker.enterFunction_params hc.valid f
  obtain ⟨hb, hbody⟩ := Checker.body_ensures hc.valid hf
  rw [show ((item (.function f)).run c).2 = _ from Checker.functionDef_run c f]
  -- the state after the body, of which only what the step says is used
  generalize hc₄ : ((stmts true f.body).run (c.enterFunction f)).2 = c₄ at hb hbody ⊢
  obtain ⟨current, hcur, hname, hreturns⟩ := hb.current
  obtain ⟨hr, hreturn⟩ := requireReturn_ensures (f := f) hcur
  obtain ⟨hstep, hviewEq⟩ := Checker.leaveFunction_itemStep hc hb
  refine ⟨hstep, fun he => ?_⟩
  have he₅ : ((requireReturn f).run c₄).2.errors = [] := he
  have he₄ := hr.errors_nil he₅
  obtain ⟨hnotVoid, hdistinct, hview⟩ := hparams (hb.errors_nil he₄)
  obtain ⟨hok, -, hfun⟩ := hbody he₄
  obtain ⟨globals, hglobals⟩ := hc.view_eq
  have hsigs : (c.enterFunction f).signatures = c.signatures := by
    unfold Checker.signatures
    rw [show (c.enterFunction f).functions = c.functions from hp.functions]
  have hbreak : (c.enterFunction f).breakable = 0 := hp.breakable.trans hc.breakable
  -- the body was checked with the parameters and the globals in front of the function in scope
  rw [show (c.enterFunction f).view = _ from hview, hglobals, hsigs, hbreak] at hok
  refine ⟨⟨globals, hglobals, hnotVoid, hdistinct, ⟨_, hok⟩, fun hvoid hmain => ?_⟩, ?_⟩
  -- a missing `return` would have been reported
  · have hret := (hreturn he₅).1 (by rwa [hreturns]) (by rwa [hname])
    rw [hcur] at hfun
    cases hfun
    simpa [noteReturn] using hret
  · exact hviewEq

/-! ## Programs -/

/-- Items that are checked without an error keep the rules. -/
theorem items_accepted : ∀ (items : List Item) {c : Checker}, c.AtItems →
    (∀ f, .function f ∈ items → Stmt.ListItems f.body) →
    c.ItemStep ((items.forM item).run c).2 ∧ (((items.forM item).run c).2.errors = [] →
      ∀ globals, c.view = [globals] → ∃ after, ((items.forM item).run c).2.view = [after] ∧
        Item.ListOk c.signatures globals items after)
  | [], c, hc, _ => by
    refine ⟨⟨List.prefix_refl _, List.prefix_refl _, rfl, hc⟩, fun _ globals hg => ?_⟩
    exact ⟨globals, hg, .nil⟩
  | i :: items, c, hc, hclosed => by
    have hrest := fun f hf => hclosed f (List.mem_cons_of_mem _ hf)
    rw [show ((i :: items).forM item).run c = (items.forM item).run ((item i).run c).2 from rfl]
    cases i with
    | global d =>
      obtain ⟨hs, hq⟩ := global_accepted hc d
      obtain ⟨hs', hq'⟩ := items_accepted items hs.atItems hrest
      refine ⟨hs.trans hs', fun he globals hg => ?_⟩
      obtain ⟨hok, hview⟩ := hq (hs'.errors_nil he)
      rw [hg] at hok hview
      obtain ⟨after, hafter, htail⟩ := hq' he _ hview
      rw [hs.signatures] at htail
      exact ⟨after, hafter, .global hok htail⟩
    | function f =>
      obtain ⟨hs, hq⟩ := function_accepted hc (hclosed f List.mem_cons_self)
      obtain ⟨hs', hq'⟩ := items_accepted items hs.atItems hrest
      refine ⟨hs.trans hs', fun he globals hg => ?_⟩
      obtain ⟨⟨globals', hg', hok⟩, hview⟩ := hq (hs'.errors_nil he)
      rw [hg] at hg' hview
      cases hg'
      obtain ⟨after, hafter, htail⟩ := hq' he _ hview
      rw [hs.signatures] at htail
      exact ⟨after, hafter, .function hok htail⟩

end Check

namespace Checker

/-- The state after all functions are registered. -/
def registered (p : Program) : Checker :=
  ((p.functions.forM Check.register).run (new p.name)).2

/-- The state in which the item after the items `before` is checked. -/
def atItem (p : Program) (before : List Item) : Checker :=
  ((before.forM Check.item).run (registered p)).2

theorem ofProgram_eq (p : Program) : ofProgram p = atItem p p.items := rfl

theorem atItem_append (p : Program) (before rest : List Item) :
    atItem p (before ++ rest) = ((rest.forM Check.item).run (atItem p before)).2 := by
  unfold atItem
  generalize registered p = c
  induction before generalizing c with
  | nil => rfl
  | cons i before ih => exact ih ((Check.item i).run c).2

theorem registered_scopes (p : Program) : (registered p).scopes = [[]] :=
  (Check.registerAll_step p.functions (new p.name)).scopes

theorem registered_atItems (p : Program) : (registered p).AtItems := by
  have h := Check.registerAll_step p.functions (new p.name)
  refine ⟨⟨?_, ?_⟩, ?_, h.function, h.breakable⟩
  all_goals rw [registered_scopes]
  all_goals simp

theorem registered_view (p : Program) : (registered p).view = [[]] := by
  rw [view, registered_scopes]
  rfl

/-- The checker knows the functions of the program from the start. -/
theorem registered_signatures {p : Program} (he : (registered p).errors = []) :
    (registered p).signatures = p.signatures := by
  funext name
  exact ((Check.registerAll_accepted p.functions (new p.name) he).2.2 name).trans rfl

/-- What is known of the state between two items of an accepted program. -/
structure ItemAccepted (p : Program) (before : List Item) (c : Checker) : Prop where
  atItems : c.AtItems
  errors : c.errors = []
  signatures : c.signatures = p.signatures
  items : ∃ globals, c.view = [globals] ∧ Item.ListOk p.signatures [] before globals

end Checker

namespace Checker

theorem atItem_accepted {p : Program} (hp : p.Closed) (he : (ofProgram p).errors = [])
    {before rest : List Item} (hi : p.items = before ++ rest) :
    ItemAccepted p before (atItem p before) := by
  have hclosed : ∀ f, .function f ∈ p.items → Stmt.ListItems f.body :=
    fun f hf => hp f (Program.mem_functions.mpr hf)
  have hbefore : ∀ f, .function f ∈ before → Stmt.ListItems f.body :=
    fun f hf => hclosed f (hi ▸ List.mem_append_left _ hf)
  have hrest : ∀ f, .function f ∈ rest → Stmt.ListItems f.body :=
    fun f hf => hclosed f (hi ▸ List.mem_append_right _ hf)
  obtain ⟨hs, hq⟩ := Check.items_accepted before (registered_atItems p) hbefore
  obtain ⟨hs', -⟩ := Check.items_accepted rest hs.atItems hrest
  have he' : (atItem p before).errors = [] := by
    refine hs'.errors_nil ?_
    rw [ofProgram_eq, hi, atItem_append] at he
    exact he
  have hsigs := registered_signatures (hs.errors_nil he')
  obtain ⟨globals, hview, hok⟩ := hq he' [] (registered_view p)
  rw [hsigs] at hok
  exact ⟨hs.atItems, he', hs.signatures.trans hsigs, globals, hview, hok⟩

end Checker

theorem errors_of_check {p : Program} {table : CrossReference} (h : check p = .ok table) :
    (Checker.ofProgram p).errors = [] := by
  simp only [check] at h
  split at h
  · next he => simpa using he
  · cases h

/-- A program that is accepted keeps the static rules. -/
theorem Program.ok_of_check {p : Program} {table : CrossReference} (hp : p.Closed)
    (h : check p = .ok table) : p.Ok := by
  have he := errors_of_check h
  obtain ⟨hs, -⟩ := Check.items_accepted p.items (Checker.registered_atItems p)
    fun f hf => hp f (Program.mem_functions.mpr hf)
  obtain ⟨hnodup, hfree, -⟩ :=
    Check.registerAll_accepted p.functions (Checker.new p.name) (hs.errors_nil he)
  obtain ⟨-, -, -, globals, -, hok⟩ :=
    Checker.atItem_accepted hp he (List.append_nil p.items).symm
  exact ⟨hnodup, fun f hf => (hfree f hf).1, globals, hok⟩

end Primer
