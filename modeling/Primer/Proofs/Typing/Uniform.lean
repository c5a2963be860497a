import Primer.Proofs.Typing.Inspection
import Primer.Proofs.Typing.Program

/-!
# Checking reads little of its state

What checking reports depends on the types of the names in scope, the signatures of the functions, the
function it is in, and whether it is inside a loop. The errors so far, the numbers of the symbols and
where they were used make no difference.

- `Checker.Agrees` relates states that are alike in what is read.
- `Checker.Together` says that two states go on alike: the same errors are added to both.
- `Check.Uniform` is a check under which states that agree go on together. There is one lemma for each
  way in which checks are put together, which also shows that the check takes a `Checker.Step`. In
  contrast to accepted trees nothing is assumed of the tree that is checked.
-/

namespace Primer

namespace Checker

/-! ## States that agree -/

/-- The states are alike in what checking reads. -/
structure Agrees (c c' : Checker) : Prop where
  view : c'.view = c.view
  functions : c'.functions = c.functions
  function : c'.function = c.function
  breakable : c'.breakable = c.breakable

theorem Agrees.refl (c : Checker) : c.Agrees c :=
  ⟨rfl, rfl, rfl, rfl⟩

theorem Agrees.symm {c c' : Checker} (h : c.Agrees c') : c'.Agrees c :=
  ⟨h.view.symm, h.functions.symm, h.function.symm, h.breakable.symm⟩

theorem Agrees.trans {c c' c'' : Checker} (h : c.Agrees c') (h' : c'.Agrees c'') : c.Agrees c'' :=
  ⟨h'.view.trans h.view, h'.functions.trans h.functions, h'.function.trans h.function,
    h'.breakable.trans h.breakable⟩

/-- The states `c` and `c'` go on to `d` and `d'`, which agree and have the same new errors. -/
structure Together (c c' d d' : Checker) : Prop where
  agrees : d.Agrees d'
  errors : ∃ added, d.errors = c.errors ++ added ∧ d'.errors = c'.errors ++ added

theorem Together.trans {c c' d d' e e' : Checker} (h : Together c c' d d') (h' : Together d d' e e') :
    Together c c' e e' := by
  obtain ⟨added, hd, hd'⟩ := h.errors
  obtain ⟨added', he, he'⟩ := h'.errors
  refine ⟨h'.agrees, added ++ added', ?_, ?_⟩
  · rw [he, hd, List.append_assoc]
  · rw [he', hd', List.append_assoc]

/-- Going on without an error. -/
theorem Together.of_errors {c c' d d' : Checker} (hagrees : d.Agrees d') (hd : d.errors = c.errors)
    (hd' : d'.errors = c'.errors) : Together c c' d d' :=
  ⟨hagrees, [], by rw [hd, List.append_nil], by rw [hd', List.append_nil]⟩

theorem Agrees.report {c c' : Checker} (h : c.Agrees c') (violation : Violation) (pos : Position) :
    Together c c' (c.report violation pos) (c'.report violation pos) :=
  ⟨⟨h.view, h.functions, h.function, h.breakable⟩, [⟨violation, pos⟩], rfl, rfl⟩

theorem report_step (c : Checker) (violation : Violation) (pos : Position) :
    c.Step (c.report violation pos) :=
  ⟨List.prefix_append _ _, List.prefix_refl _, rfl, rfl, rfl, rfl, rfl, rfl,
    fun h => ⟨h.open_, h.bound⟩⟩

/-- Uses are recorded where nothing is read. -/
theorem Agrees.recordUse {c c' : Checker} (h : c.Agrees c') (symbol symbol' line : Nat) :
    Together c c' (c.recordUse symbol line) (c'.recordUse symbol' line) := by
  have hview : (c'.recordUse symbol' line).view = (c.recordUse symbol line).view := by
    rw [(recordUse_same c' symbol' line).view, (recordUse_same c symbol line).view, h.view]
  exact .of_errors ⟨hview, h.functions, h.function, h.breakable⟩ rfl rfl

theorem declare_agrees {c c' : Checker} (h : c.Agrees c') (hc : c.Valid) (hc' : c'.Valid)
    (name : String) (kind : SymbolKind) (type : Ty) (pos : Position) :
    Together c c' (c.declare name kind type pos) (c'.declare name kind type pos) := by
  -- whether a name is taken shows in the types of the names in scope
  have hhere : c'.declaresHere name = c.declaresHere name := by
    rw [Bool.eq_iff_iff, ← not_iff_not, Bool.not_eq_true, Bool.not_eq_true, ← freeHere_iff,
      ← freeHere_iff, h.view]
  cases hfree : c.declaresHere name with
  | true =>
    rw [declare, if_pos hfree, declare, if_pos (hhere.trans hfree)]
    exact h.report _ pos
  | false =>
    have hview := declare_view hc kind type pos hfree
    have hview' := declare_view hc' kind type pos (hhere.trans hfree)
    -- declaring a free name reports nothing and stays in the function
    have herrors : ∀ {d : Checker}, d.declaresHere name = false →
        (d.declare name kind type pos).errors = d.errors ∧
        (d.declare name kind type pos).function = d.function := by
      intro d hd
      rw [declare_of_free kind type pos hd]
      cases hs : d.scopes <;> simp [bind, addSymbol, hs]
    have hstep := declare_step c name kind type pos
    have hstep' := declare_step c' name kind type pos
    refine .of_errors ⟨?_, ?_, ?_, ?_⟩ (herrors hfree).1 (herrors (hhere.trans hfree)).1
    · rw [hview, hview', h.view]
    · rw [hstep.functions, hstep'.functions, h.functions]
    · rw [(herrors hfree).2, (herrors (hhere.trans hfree)).2, h.function]
    · rw [hstep.breakable, hstep'.breakable, h.breakable]

end Checker

/-! ## Uniform checks -/

namespace Check

open Checker

variable {α β : Type}

/-- From states that agree the check gives the same result, and they go on together. -/
structure Uniform (x : Check α) : Prop where
  step : ∀ {c : Checker}, c.Valid → c.Step (x.after c)
  agrees : ∀ {c c' : Checker}, c.Valid → c'.Valid → c.Agrees c' →
    (x.run c').1 = (x.run c).1 ∧ Together c c' (x.after c) (x.after c')

theorem Uniform.valid {x : Check α} (hx : Uniform x) {c : Checker} (hc : c.Valid) :
    (x.after c).Valid :=
  (hx.step hc).valid hc

theorem uniform_pure (a : α) : Uniform (pure a) where
  step _ := Step.refl _
  agrees _ _ h := ⟨rfl, .of_errors h rfl rfl⟩

theorem Uniform.bind {x : Check α} {f : α → Check β} (hx : Uniform x) (hf : ∀ a, Uniform (f a)) :
    Uniform (x >>= f) where
  step hc := (hx.step hc).trans ((hf _).step (hx.valid hc))
  agrees {c c'} hc hc' h := by
    obtain ⟨hresult, hfirst⟩ := hx.agrees hc hc' h
    obtain ⟨hresult', hsecond⟩ :=
      (hf (x.run c).1).agrees (hx.valid hc) (hx.valid hc') hfirst.agrees
    show ((f (x.run c').1).run (x.after c')).1 = ((f (x.run c).1).run (x.after c)).1 ∧
      Together c c' ((f (x.run c).1).after (x.after c)) ((f (x.run c').1).after (x.after c'))
    rw [hresult]
    exact ⟨hresult', hfirst.trans hsecond⟩

/-- A check that goes on with something it reads. -/
theorem uniform_get {f : Checker → Check β} (hread : ∀ {c c' : Checker}, c.Agrees c' → f c' = f c)
    (hf : ∀ c, Uniform (f c)) : Uniform (get >>= f) where
  step {c} hc := (hf c).step hc
  agrees {c c'} hc hc' h := by
    show ((f c').run c').1 = ((f c).run c).1 ∧ Together c c' ((f c).after c) ((f c').after c')
    rw [hread h]
    exact (hf c).agrees hc hc' h

theorem uniform_modify {f : Checker → Checker} (hstep : ∀ c : Checker, c.Step (f c))
    (h : ∀ {c c' : Checker}, c.Valid → c'.Valid → c.Agrees c' → Together c c' (f c) (f c')) :
    Uniform (modify f) where
  step {c} _ := hstep c
  agrees hc hc' hagrees := ⟨rfl, h hc hc' hagrees⟩

theorem uniform_report (violation : Violation) (pos : Position) : Uniform (report violation pos) :=
  uniform_modify (fun c => c.report_step violation pos) fun _ _ h => h.report violation pos

theorem uniform_reportIf (condition : Bool) (violation : Violation) (pos : Position) :
    Uniform (reportIf condition violation pos) := by
  unfold reportIf
  split
  · exact uniform_report violation pos
  · exact uniform_pure ()

theorem uniform_declare (name : String) (kind : SymbolKind) (type : Ty) (pos : Position) :
    Uniform (modify fun c => c.declare name kind type pos) :=
  uniform_modify (fun c => c.declare_step name kind type pos) fun hc hc' h =>
    declare_agrees h hc hc' name kind type pos

theorem Uniform.inScope {x : Check α} (hx : Uniform x) : Uniform (inScope x) where
  step hc := (inScope_ensures (Q := fun _ _ => True) ⟨hx.step hc.pushScope, fun _ => trivial⟩).1
  agrees {c c'} hc hc' h := by
    obtain ⟨hresult, hinside⟩ := hx.agrees hc.pushScope hc'.pushScope
      ⟨congrArg (List.cons []) h.view, h.functions, h.function, h.breakable⟩
    have hagrees := hinside.agrees
    have hview : (x.after c'.pushScope).popScope.view = (x.after c.pushScope).popScope.view := by
      rw [popScope_view, popScope_view, hagrees.view]
    exact ⟨hresult, ⟨hview, hagrees.functions, hagrees.function, hagrees.breakable⟩, hinside.errors⟩

theorem Uniform.insideLoop {x : Check α} (hx : Uniform x) : Uniform (insideLoop x) where
  step hc := (insideLoop_ensures (Q := fun _ _ => True) ⟨hx.step hc.inLoop, fun _ => trivial⟩).1
  agrees {c c'} hc hc' h := by
    have hloop : c.inLoop.Agrees c'.inLoop :=
      ⟨h.view, h.functions, h.function, congrArg (· + 1) h.breakable⟩
    obtain ⟨hresult, hinside⟩ := hx.agrees hc.inLoop hc'.inLoop hloop
    have hagrees := hinside.agrees
    exact ⟨hresult, ⟨hagrees.view, hagrees.functions, hagrees.function,
      congrArg (· - 1) hagrees.breakable⟩, hinside.errors⟩

/-! ## Names -/

/-- A variable is looked up in what the static rules see. -/
theorem resolve_cases {c : Checker} (hc : c.Valid) (name : String) (pos : Position) :
    (∃ t symbol, c.view.type? name = some t ∧
      (resolve name pos).run c = (some t, c.recordUse symbol pos.line)) ∨
    (c.view.type? name = none ∧
      (resolve name pos).run c = (none, c.report (.unknownVariable name) pos)) := by
  rw [view_type? hc]
  unfold resolve
  rw [get_bind_run]
  cases hs : symbolOf? c.scopes name with
  | none => exact .inr ⟨rfl, rfl⟩
  | some symbol =>
    obtain ⟨t, ht⟩ := Option.isSome_iff_exists.mp (typeOf?_isSome hc hs)
    refine .inl ⟨t, symbol, ht, ?_⟩
    show (c.typeOf? symbol, _) = _
    rw [ht]

theorem uniform_resolve (name : String) (pos : Position) : Uniform (resolve name pos) where
  step {c} hc := by
    unfold after
    rcases resolve_cases hc name pos with ⟨t, symbol, -, hrun⟩ | ⟨-, hrun⟩
    · rw [hrun]
      exact c.recordUse_step symbol pos.line
    · rw [hrun]
      exact c.report_step _ pos
  agrees {c c'} hc hc' h := by
    unfold after
    -- Both states see the same types, so both find the variable or neither does.
    rcases resolve_cases hc name pos with ⟨t, symbol, ht, hrun⟩ | ⟨ht, hrun⟩
    · rcases resolve_cases hc' name pos with ⟨t', symbol', ht', hrun'⟩ | ⟨ht', -⟩
      · rw [h.view, ht] at ht'
        cases ht'
        rw [hrun, hrun']
        exact ⟨rfl, h.recordUse symbol symbol' pos.line⟩
      · rw [h.view, ht] at ht'
        cases ht'
    · rcases resolve_cases hc' name pos with ⟨t', symbol', ht', -⟩ | ⟨-, hrun'⟩
      · rw [h.view, ht] at ht'
        cases ht'
      · rw [hrun, hrun']
        exact ⟨rfl, h.report _ pos⟩

theorem uniform_resolveFunction (name : String) (pos : Position) :
    Uniform (resolveFunction name pos) := by
  refine uniform_get (fun h => by rw [h.functions]) fun c => ?_
  cases c.functions.lookup name with
  | none => exact (uniform_report _ pos).bind fun _ => uniform_pure _
  | some signature =>
    have hrecord : Uniform (modify fun c => c.recordUse signature.symbol pos.line) :=
      uniform_modify (fun c => c.recordUse_step _ _) fun _ _ h => h.recordUse _ _ _
    exact hrecord.bind fun _ => uniform_pure _

theorem Refuses.uniform {x : Check α} (h : Refuses x) : Uniform x := by
  induction h with
  | pure a => exact uniform_pure a
  | report _ pos => exact uniform_report _ pos
  | bind _ _ hfirst hnext => exact hfirst.bind hnext

theorem Inspects.uniform {x : Check α} (h : Inspects x) : Uniform x := by
  induction h with
  | refuses h => exact h.uniform
  | resolve name pos => exact uniform_resolve name pos
  | resolveFunction name pos => exact uniform_resolveFunction name pos
  | bind _ _ hfirst hnext => exact hfirst.bind hnext

/-! ## Statements -/

theorem uniform_varDecl (d : VarDecl) : Uniform (varDecl d) := by
  have hdeclare := uniform_declare d.name .variable_ d.type d.pos
  unfold varDecl
  refine (uniform_reportIf _ _ d.pos).bind fun _ => ?_
  cases d.init with
  | none => exact hdeclare
  | some e =>
    refine (value_inspects e).uniform.bind fun found => ?_
    show Uniform (if d.type ≠ .void then _ else _)
    split
    · exact (requireType_refuses _ _ _).uniform.bind fun _ => hdeclare
    · exact hdeclare

theorem uniform_forInit : ∀ init : Option ForInit, Uniform (forInit init)
  | none => uniform_pure ()
  | some (.declare d) => uniform_varDecl d
  | some (.eval e) => (expr_inspects e).uniform.bind fun _ => uniform_pure ()

theorem uniform_markReturn : Uniform markReturn := by
  refine uniform_modify (fun c => ?_) fun {c c'} _ _ h => ?_
  · refine ⟨List.prefix_refl _, List.prefix_refl _, rfl, rfl, ?_, rfl, rfl, rfl,
      fun hc => ⟨hc.open_, hc.bound⟩⟩
    cases c.function with
    | none => rfl
    | some f => rfl
  · exact .of_errors ⟨h.view, h.functions, congrArg (Option.map _) h.function, h.breakable⟩ rfl rfl

theorem uniform_ret (e? : Option Expr) (pos : Position) (reachable : Bool) :
    Uniform (ret e? pos reachable) := by
  cases e? with
  | none =>
    refine uniform_get (fun h => by rw [h.function]) fun c => ?_
    cases c.function with
    | none => exact uniform_pure ()
    | some f => exact uniform_reportIf _ _ _
  | some e =>
    refine (value_inspects e).uniform.bind fun found => ?_
    refine uniform_get (fun h => by rw [h.function]) fun c => ?_
    cases c.function with
    | none => exact uniform_pure ()
    | some f =>
      have hvalue := (requireType_refuses f.returns found e.pos).uniform
      show Uniform (if f.returns = .void then _ else _)
      split
      · exact uniform_report _ _
      · split
        · exact uniform_markReturn.bind fun _ => hvalue
        · exact hvalue

mutual

theorem uniform_stmt : ∀ (s : Stmt) (reachable : Bool), Uniform (stmt reachable s)
  | .declare d, reachable => by
    rw [stmt]
    exact (uniform_varDecl d).bind fun _ => uniform_pure _
  | .eval e pos, reachable => by
    rw [stmt]
    exact (expr_inspects e).uniform.bind fun _ => uniform_pure _
  | .block body pos, reachable => by
    rw [stmt]
    exact (uniform_stmts body reachable).inScope
  | .branch cond onTrue none pos, reachable => by
    rw [stmt]
    refine (condition_inspects cond).uniform.bind fun _ => ?_
    exact (uniform_stmt onTrue reachable).bind fun _ => uniform_pure _
  | .branch cond onTrue (some onFalse) pos, reachable => by
    rw [stmt]
    refine (condition_inspects cond).uniform.bind fun _ => ?_
    refine (uniform_stmt onTrue reachable).bind fun _ => ?_
    exact (uniform_stmt onFalse reachable).bind fun _ => uniform_pure _
  | .whileLoop cond body pos, reachable => by
    rw [stmt]
    refine (condition_inspects cond).uniform.bind fun _ => ?_
    exact (uniform_stmt body reachable).insideLoop.bind fun _ => uniform_pure _
  | .forLoop init cond step body pos, reachable => by
    rw [stmt]
    refine Uniform.inScope ((uniform_forInit init).bind fun _ => ?_)
    have hbody := (effect_inspects step).uniform.bind fun _ =>
      (uniform_stmt body reachable).insideLoop.bind fun _ => uniform_pure Exit.continues
    cases cond with
    | none => exact hbody
    | some e => exact (condition_inspects e).uniform.bind fun _ => hbody
  | .switch e cases pos, reachable => by
    rw [stmt]
    refine (scrutinee_inspects e).uniform.bind fun type => ?_
    refine (labels_refuses type cases [] false).uniform.bind fun _ => ?_
    exact (uniform_groups cases reachable).insideLoop.bind fun _ => uniform_pure _
  | .ret value pos, reachable => by
    rw [stmt]
    exact (uniform_ret value pos reachable).bind fun _ => uniform_pure _
  | .brk pos, reachable => by
    rw [stmt]
    refine uniform_get (fun h => by rw [h.breakable]) fun c => ?_
    exact (uniform_reportIf (c.breakable == 0) .breakOutsideLoop pos).bind fun _ => uniform_pure _

theorem uniform_stmts : ∀ (body : List Stmt) (reachable : Bool), Uniform (stmts reachable body)
  | [], reachable => by
    rw [stmts]
    exact uniform_pure _
  | s :: rest, reachable => by
    rw [stmts]
    refine (uniform_stmt s reachable).bind fun first => ?_
    exact (uniform_stmts rest _).bind fun others => uniform_pure _

theorem uniform_groups : ∀ (cases : List CaseGroup) (reachable : Bool), Uniform (groups reachable cases)
  | [], reachable => by
    rw [groups]
    exact uniform_pure _
  | .mk label body pos :: rest, reachable => by
    rw [groups]
    exact (uniform_stmts body reachable).bind fun _ => uniform_groups rest reachable

end

/-! ## Functions -/

theorem uniform_params : ∀ params : List Param, Uniform (params.forM param)
  | [] => uniform_pure ()
  | p :: params => by
    refine Uniform.bind ?_ fun _ => uniform_params params
    exact (uniform_reportIf _ _ _).bind fun _ => uniform_declare p.name .parameter p.type p.pos

theorem uniform_requireReturn (f : FunctionDef) : Uniform (requireReturn f) := by
  refine uniform_get (fun h => by rw [h.function]) fun c => ?_
  cases c.function with
  | none => exact uniform_pure ()
  | some current => exact uniform_reportIf _ _ _

end Check

end Primer
