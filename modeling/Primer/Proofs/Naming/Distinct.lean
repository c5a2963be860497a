import Primer.Proofs.Naming.Accepted

/-!
# Renamed programs declare every name once

The checker adds one symbol for each declaration that it walks over. So a renamed program declares the
names of its symbols in the order of their numbers, without a gap, and no name twice.

- `Stmt.numbers_renamed`, `Item.Walk.numbers_renamed`: what is declared along the walk.
- `Program.Ok.declared_nodup` is the statement for programs.
-/

namespace Primer

variable {fresh : Nat → String}

theorem VarDecl.numbers_renamed {c : Checker} (hc : c.Valid) {d : VarDecl}
    (ok : d.Ok c.signatures c.view) :
    c.Numbers fresh [(d.renamed fresh c).name] ((Check.varDecl d).after c) := by
  have hdeclares := Check.varDecl_declares hc ok
  show c.Numbers fresh [((Check.varDecl d).after c).nameOf fresh d.name] _
  rw [hdeclares.nameOf hc]
  exact .of_declares hdeclares

theorem ForInit.numbers_renamed {c : Checker} (hc : c.Valid) {init : Option ForInit} {Γ : TypeScopes}
    (ok : ForInit.Ok c.signatures c.view init Γ) :
    c.Numbers fresh (ForInit.declared (init.map (ForInit.renamed fresh c)))
      ((Check.forInit init).after c) := by
  cases ok with
  | none => exact .nil rfl
  | eval typed =>
    obtain ⟨t, typed⟩ := typed
    exact .nil (Check.expr_accepts hc typed).2.2.2.symbols_length
  | declare ok => exact VarDecl.numbers_renamed hc ok

theorem Check.reportIf_symbols (condition : Bool) (violation : Violation) (pos : Position)
    (c : Checker) : ((Check.reportIf condition violation pos).after c).symbols = c.symbols := by
  cases condition <;> rfl

/-! ## Statements -/

section Statements

variable {returns : Ty}

mutual

theorem Stmt.numbers_renamed : ∀ (s : Stmt) {c : Checker} {l : Bool} {Γ : TypeScopes} (r : Bool),
    c.Inside returns l → Stmt.Ok c.signatures returns l c.view s Γ →
      c.Numbers fresh (s.renamed fresh c r).declared ((Check.stmt r s).after c)
  | .declare d, c, _, _, r, hin, .declare ok => by
    rw [Stmt.renamed, Stmt.declared]
    exact VarDecl.numbers_renamed hin.valid ok
  | .eval e pos, c, _, _, r, hin, .eval typed => by
    obtain ⟨t, typed⟩ := typed
    rw [Stmt.renamed, Stmt.declared]
    exact .nil (Check.expr_accepts hin.valid typed).2.2.2.symbols_length
  | .block body pos, c, _, _, r, hin, .block bodyOk => by
    rw [Stmt.renamed, Stmt.declared, Check.stmt]
    -- a scope that is opened or closed gives no symbols away
    exact (Stmt.listNumbers_renamed body r hin.pushScope bodyOk).congr rfl rfl
  | .branch cond onTrue none pos, c, _, _, r, hin, .branch condOk onTrueOk => by
    have hcond : c.Numbers fresh [] ((Check.condition cond).after c) :=
      (Check.condition_accepts hin.valid condOk).numbers
    have hTrue := Check.branch_stands hin condOk onTrueOk
    rw [Stmt.renamed, Stmt.declared, Check.stmt]
    exact hcond.append (Stmt.numbers_renamed onTrue r hTrue.inside hTrue.ok)
  | .branch cond onTrue (some onFalse) pos, c, _, _, r, hin,
      .branchElse condOk onTrueOk onFalseOk => by
    have hcond : c.Numbers fresh [] ((Check.condition cond).after c) :=
      (Check.condition_accepts hin.valid condOk).numbers
    have hTrue := Check.branch_stands hin condOk onTrueOk
    have hFalse := Check.branchElse_stands hin r condOk onTrueOk onFalseOk
    rw [Stmt.renamed, Stmt.declared, Check.stmt]
    have hfirst := hcond.append (Stmt.numbers_renamed onTrue r hTrue.inside hTrue.ok)
    exact hfirst.append (Stmt.numbers_renamed onFalse r hFalse.inside hFalse.ok)
  | .whileLoop cond body pos, c, _, _, r, hin, .whileLoop condOk bodyOk => by
    have hcond : c.Numbers fresh [] ((Check.condition cond).after c) :=
      (Check.condition_accepts hin.valid condOk).numbers
    have hbody := Check.whileLoop_stands hin condOk bodyOk
    rw [Stmt.renamed, Stmt.declared, Check.stmt]
    exact hcond.append ((Stmt.numbers_renamed body r hbody.inside hbody.ok).congr rfl rfl)
  | .forLoop init cond step body pos, c, _, _, r, hin, .forLoop initOk condOk stepOk bodyOk => by
    have hinit : c.pushScope.Numbers fresh _ _ := ForInit.numbers_renamed hin.pushScope.valid initOk
    have hstands := Check.forLoop_stands hin initOk condOk stepOk bodyOk
    have hguard : Checker.Numbers fresh _ [] _ :=
      (Check.guard_accepts hstands.inside.valid hstands.condOk).numbers
    have hstep : Checker.Numbers fresh _ [] _ :=
      (Check.effect_accepts hstands.stepInside.valid hstands.stepOk).numbers
    have hbody := Stmt.numbers_renamed body r hstands.body.inside hstands.body.ok
    rw [Stmt.renamed, Stmt.declared, Check.stmt]
    -- the symbols of `init` come first; condition and step declare none
    refine (hinit.append (hguard.append (hstep.append (hbody.congr rfl rfl)))).congr rfl ?_
    cases cond <;> rfl
  | .switch e groups pos, c, _, _, r, hin, .switch typed integral labelsOk groupsOk => by
    have hhead : Checker.Numbers fresh c [] _ :=
      (Check.switchHead_accepts hin.valid typed integral labelsOk).numbers
    obtain ⟨-, hin₁, groupsOk⟩ := Check.switch_stands hin typed integral labelsOk groupsOk rfl
    rw [Stmt.renamed, Stmt.declared, Check.stmt]
    exact hhead.append ((CaseGroup.listNumbers_renamed groups r hin₁ groupsOk).congr rfl rfl)
  | .ret e? pos, c, _, _, r, hin, ok => by
    have haccepts : Check.Accepts (Check.ret e? pos r) c _ :=
      Check.ret_accepts hin.valid hin.function.function ok
    rw [Stmt.renamed, Stmt.declared, Check.stmt]
    exact .nil haccepts.2.2.2.2.1
  | .brk pos, c, _, _, r, hin, .brk => by
    rw [Stmt.renamed, Stmt.declared, Check.stmt]
    exact .nil (congrArg List.length (Check.reportIf_symbols (c.breakable == 0) _ pos c))

theorem Stmt.listNumbers_renamed : ∀ (body : List Stmt) {c : Checker} {l : Bool} {Γ : TypeScopes}
    (r : Bool), c.Inside returns l → Stmt.ListOk c.signatures returns l c.view body Γ →
      c.Numbers fresh (Stmt.listDeclared (Stmt.renamedAll fresh c r body))
        ((Check.stmts r body).after c)
  | [], c, _, _, r, hin, .nil => by
    rw [Stmt.renamedAll, Stmt.listDeclared]
    exact .nil rfl
  | s :: rest, c, _, _, r, hin, .cons head tail => by
    obtain ⟨hs, hwalk⟩ := Check.stmt_walked hin r head
    rw [← hwalk.view, ← hs.signatures] at tail
    rw [Stmt.renamedAll, Stmt.listDeclared, Check.stmts]
    have hhead := Stmt.numbers_renamed s r hin head
    exact hhead.append (Stmt.listNumbers_renamed rest _ (Check.stmt_inside hin r head) tail)

theorem CaseGroup.listNumbers_renamed : ∀ (groups : List CaseGroup) {c : Checker} (r : Bool),
    c.Inside returns true → CaseGroup.ListOk c.signatures returns c.view groups →
      c.Numbers fresh (CaseGroup.listDeclared (CaseGroup.renamedAll fresh c r groups))
        ((Check.groups r groups).after c)
  | [], c, r, hin, .nil => by
    rw [CaseGroup.renamedAll, CaseGroup.listDeclared]
    exact .nil rfl
  | .mk label body pos :: rest, c, r, hin, .cons bodyOk tail => by
    obtain ⟨h₁, hin₁⟩ := Check.stmts_inside hin r bodyOk
    rw [← h₁.view, ← h₁.signatures] at tail
    rw [CaseGroup.renamedAll, CaseGroup.listDeclared, Check.groups]
    have hbody := Stmt.listNumbers_renamed body r hin bodyOk
    exact hbody.append (CaseGroup.listNumbers_renamed rest r hin₁ tail)

end

end Statements

/-! ## Programs -/

theorem Checker.leaveFunction_symbols (c : Checker) (f : FunctionDef) :
    (c.leaveFunction f).symbols = c.symbols := by
  show ((Check.requireReturn f).run c).2.symbols = c.symbols
  unfold Check.requireReturn
  rw [Check.get_bind_run]
  cases c.function with
  | none => rfl
  | some current => exact Check.reportIf_symbols ..

theorem FunctionDef.numbers_renamed {sigs : Signatures} {c : Checker} {g : TypeScope}
    {f : FunctionDef} (top : c.AtTop sigs) (view : c.view = [g]) (ok : f.Ok sigs g) :
    c.Numbers fresh (f.renamed fresh c).declared ((Check.functionDef f).after c) := by
  obtain ⟨hin, hsigs, hview⟩ := top.enterFunction view ok
  obtain ⟨Γ, hbody⟩ := ok.body
  rw [← hsigs, ← hview] at hbody
  have hparams : Checker.Numbers fresh _ ((f.renamed fresh c).params.map Param.name) _ :=
    Param.numbers_renamed (Check.paramsOk_of_ok top.atItems ok)
  have hstmts : Checker.Numbers fresh _ (Stmt.listDeclared (f.renamed fresh c).body) _ :=
    Stmt.listNumbers_renamed f.body true hin hbody
  refine (hparams.append (hstmts.congr rfl rfl)).congr rfl ?_
  rw [Check.after, Checker.functionDef_run, Checker.leaveFunction_symbols]
  rfl

/-- The items of a program declare the names of the symbols that the walk over them adds. -/
theorem Item.Walk.numbers_renamed {sigs : Signatures} {c c' : Checker} {items : List Item}
    (h : Item.Walk sigs c items c') :
    c.Numbers fresh ((Item.renamedAll fresh c items).flatMap Item.declared) c' := by
  induction h with
  | nil top => exact .nil rfl
  | @global c c' d rest top ok tail ih =>
    have ok' : d.Ok c.signatures c.view := top.signatures ▸ ok
    exact (VarDecl.numbers_renamed top.atItems.valid ok').append ih
  | function top view ok tail ih => exact (FunctionDef.numbers_renamed top view ok).append ih

/-- A renamed program declares no name twice. -/
theorem Program.Ok.declared_nodup {p : Program} (h : p.Ok) (hfresh : Function.Injective fresh) :
    (p.renamed fresh).declared.Nodup := by
  obtain ⟨c, hwalk⟩ := h.walk
  exact hwalk.numbers_renamed.nodup hfresh

end Primer
