import Primer.Proofs.Typing.Isolation

/-!
# Where statements stand in accepted trees

In a program that the checker accepts a `break` stands inside a loop or switch, and the labels of a
switch are constants of one type, all different. Nothing else is asked of the tree: it may hold a
declaration where no text can have one.

- `Stmt.Placed` says this of a statement and of all that it is made of.
- `Check.stmt_placed`: a statement that is checked without an error is placed like this.
- `Program.placed_of_check` is about the function bodies of an accepted program.
-/

namespace Primer

mutual

/-- Every `break` in the statement is inside a loop or switch, if none is around the statement, and
every switch in it has labels that keep the rules. -/
def Stmt.Placed (inLoop : Bool) : Stmt → Prop
  | .brk _ => inLoop = true
  | .block body _ => Stmt.ListPlaced inLoop body
  | .branch _ onTrue none _ => onTrue.Placed inLoop
  | .branch _ onTrue (some onFalse) _ => onTrue.Placed inLoop ∧ onFalse.Placed inLoop
  | .whileLoop _ body _ => body.Placed true
  | .forLoop _ _ _ body _ => body.Placed true
  | .switch _ groups _ => (∃ t, CaseGroup.LabelsOk t groups) ∧ CaseGroup.ListPlaced groups
  | .declare _ | .eval _ _ | .ret _ _ => True

/-- The same for the statements of a list. -/
def Stmt.ListPlaced (inLoop : Bool) : List Stmt → Prop
  | [] => True
  | s :: rest => s.Placed inLoop ∧ Stmt.ListPlaced inLoop rest

/-- The same for the statements of case groups, which a switch is around. -/
def CaseGroup.ListPlaced : List CaseGroup → Prop
  | [] => True
  | .mk _ body _ :: rest => Stmt.ListPlaced true body ∧ CaseGroup.ListPlaced rest

end

/-! ## The walk -/

namespace Check

variable {α β : Type} {c : Checker} {P Q : Prop}

/-- A part of the walk in front that has no say in `Q`. -/
theorem Uniform.ensures_behind {x : Check α} {f : α → Check β} (hx : Uniform x) (hc : c.Valid)
    (hf : ∀ a c', c'.Valid → c'.breakable = c.breakable → Ensures (f a) c' fun _ _ => Q) :
    Ensures (x >>= f) c fun _ _ => Q := by
  have hstep := hx.step hc
  have hbehind := hf (x.run c).1 (x.after c) (hstep.valid hc) hstep.breakable
  exact ⟨hstep.trans hbehind.1, hbehind.2⟩

theorem Ensures.and_behind {x : Check α} {f : α → Check β} (hc : c.Valid)
    (hx : Ensures x c fun _ _ => P)
    (hf : ∀ a c', c'.Valid → c'.breakable = c.breakable → Ensures (f a) c' fun _ _ => Q) :
    Ensures (x >>= f) c fun _ _ => P ∧ Q :=
  bind_ensures hx fun a c' hstep =>
    (hf a c' (hstep.valid hc) hstep.breakable).imp fun _ _ _ hQ hP => ⟨hP, hQ⟩

theorem Ensures.then_pure {x : Check α} (hx : Ensures x c fun _ _ => Q) (g : α → β) :
    Ensures (do return g (← x)) c fun _ _ => Q :=
  bind_ensures hx fun _ _ _ => pure_ensures id

mutual

/-- A statement that is checked without an error has every `break` and every label in its place. -/
theorem stmt_placed : ∀ (s : Stmt) (r : Bool) {c : Checker}, c.Valid →
    Ensures (stmt r s) c fun _ _ => s.Placed (c.breakable != 0)
  | .declare d, r, c, hc => by
    rw [stmt, Stmt.Placed]
    exact (uniform_varDecl d).ensures_behind hc fun _ _ _ _ => pure_ensures trivial
  | .eval e pos, r, c, hc => by
    rw [stmt, Stmt.Placed]
    exact (expr_inspects e).uniform.ensures_behind hc fun _ _ _ _ => pure_ensures trivial
  | .block body pos, r, c, hc => by
    rw [stmt, Stmt.Placed]
    exact inScope_ensures (stmts_placed body r hc.pushScope)
  | .branch cond onTrue none pos, r, c, hc => by
    rw [stmt, Stmt.Placed]
    refine (condition_inspects cond).uniform.ensures_behind hc fun _ c₁ hc₁ hbreakable => ?_
    rw [← hbreakable]
    exact (stmt_placed onTrue r hc₁).then_pure _
  | .branch cond onTrue (some onFalse) pos, r, c, hc => by
    rw [stmt, Stmt.Placed]
    refine (condition_inspects cond).uniform.ensures_behind hc fun _ c₁ hc₁ hbreakable => ?_
    rw [← hbreakable]
    refine (stmt_placed onTrue r hc₁).and_behind hc₁ fun _ c₂ hc₂ hbreakable₂ => ?_
    rw [← hbreakable₂]
    exact (stmt_placed onFalse r hc₂).then_pure _
  | .whileLoop cond body pos, r, c, hc => by
    rw [stmt, Stmt.Placed]
    refine (condition_inspects cond).uniform.ensures_behind hc fun _ c₁ hc₁ _ => ?_
    exact (insideLoop_ensures (stmt_placed body r hc₁.inLoop)).then_pure _
  | .forLoop init cond step body pos, r, c, hc => by
    rw [stmt, Stmt.Placed]
    refine inScope_ensures ((uniform_forInit init).ensures_behind hc.pushScope fun _ c₁ hc₁ _ => ?_)
    have hbody : ∀ {c₂ : Checker}, c₂.Valid → Ensures (do
        effect step
        let _ ← insideLoop (stmt r body)
        return Exit.continues) c₂ fun _ _ => body.Placed true := by
      intro c₂ hc₂
      refine (effect_inspects step).uniform.ensures_behind hc₂ fun _ c₃ hc₃ _ => ?_
      exact (insideLoop_ensures (stmt_placed body r hc₃.inLoop)).then_pure _
    cases cond with
    | none => exact hbody hc₁
    | some e =>
      exact (condition_inspects e).uniform.ensures_behind hc₁ fun _ c₂ hc₂ _ => hbody hc₂
  | .switch e cases pos, r, c, hc => by
    rw [stmt, Stmt.Placed]
    refine bind_ensures (scrutinee_ensures hc) fun type? c₁ s₁ => ?_
    refine bind_ensures labels_ensures fun _ c₂ s₂ => ?_
    have hc₂ := s₂.valid (s₁.valid hc)
    have hgroups : Ensures (insideLoop (groups r cases)) c₂ fun _ _ => CaseGroup.ListPlaced cases :=
      insideLoop_ensures (groups_placed cases r hc₂.inLoop rfl)
    refine bind_ensures hgroups fun _ c₃ _ => pure_ensures ?_
    -- the scrutinee has a type, and the labels were compared with it
    rintro hplaced ⟨-, hlabels, hnodup, hdefault⟩ ⟨t, rfl, -, hintegral, -⟩
    exact ⟨⟨t, fun label hlabel => (hlabels label hlabel).1 t rfl hintegral, hnodup, hdefault⟩, hplaced⟩
  | .ret e? pos, r, c, hc => by
    rw [stmt, Stmt.Placed]
    exact (uniform_ret e? pos r).ensures_behind hc fun _ _ _ _ => pure_ensures trivial
  | .brk pos, r, c, hc => by
    rw [stmt, Stmt.Placed]
    refine get_bind_ensures (bind_ensures (R := fun _ _ => (c.breakable != 0) = true)
      (reportIf_ensures fun h => ?_) fun _ _ _ => pure_ensures id)
    simpa using h

theorem stmts_placed : ∀ (body : List Stmt) (r : Bool) {c : Checker}, c.Valid →
    Ensures (stmts r body) c fun _ _ => Stmt.ListPlaced (c.breakable != 0) body
  | [], r, c, hc => by
    rw [stmts, Stmt.ListPlaced]
    exact pure_ensures trivial
  | s :: rest, r, c, hc => by
    rw [stmts, Stmt.ListPlaced]
    refine (stmt_placed s r hc).and_behind hc fun first c₁ hc₁ hbreakable => ?_
    rw [← hbreakable]
    exact (stmts_placed rest _ hc₁).then_pure _

theorem groups_placed : ∀ (cases : List CaseGroup) (r : Bool) {c : Checker}, c.Valid →
    (c.breakable != 0) = true → Ensures (groups r cases) c fun _ _ => CaseGroup.ListPlaced cases
  | [], r, c, hc, hin => by
    rw [groups, CaseGroup.ListPlaced]
    exact pure_ensures trivial
  | .mk label body pos :: rest, r, c, hc, hin => by
    rw [groups, CaseGroup.ListPlaced, ← hin]
    refine (stmts_placed body r hc).and_behind hc fun _ c₁ hc₁ hbreakable => ?_
    exact groups_placed rest r hc₁ (by rw [hbreakable, hin])

end

end Check

/-! ## Programs -/

namespace Checker

variable {c : Checker}

/-- No loop is around the body of a function. -/
theorem function_placed (hc : c.AtItems) (f : FunctionDef)
    (he : ((Check.functionDef f).after c).errors = []) : Stmt.ListPlaced false f.body := by
  have hvalid := enterFunction_valid hc.valid f
  obtain ⟨hstep, hplaced⟩ := Check.stmts_placed f.body true hvalid
  have hreturn := (Check.uniform_requireReturn f).step (hstep.valid hvalid)
  have hbreakable : (c.enterFunction f).breakable = 0 :=
    (enterFunction_params hc.valid f).1.breakable.trans hc.breakable
  rw [hbreakable] at hplaced
  exact hplaced (hreturn.errors_nil he)

theorem items_placed (hc : c.AtItems) (items : List Item)
    (he : ((items.forM Check.item).after c).errors = []) :
    ∀ f, .function f ∈ items → Stmt.ListPlaced false f.body := by
  induction items generalizing c with
  | nil => exact fun f hf => (nomatch hf)
  | cons i items ih =>
    have hatItems := (item_step hc i).atItems
    have he : ((items.forM Check.item).after ((Check.item i).after c)).errors = [] := he
    have hi : ((Check.item i).after c).errors = [] := by
      rw [errors_flatten hatItems items] at he
      exact (List.append_eq_nil_iff.mp he).1
    intro f hf
    rcases List.mem_cons.mp hf with rfl | hf
    · exact function_placed hc f hi
    · exact ih hatItems he f hf

end Checker

namespace Program

variable {p : Program} {table : CrossReference}

/-- In the functions of an accepted program every `break` and every label is in its place. -/
theorem placed_of_check (h : check p = .ok table) {f : FunctionDef} (hf : f ∈ p.functions) :
    Stmt.ListPlaced false f.body :=
  Checker.items_placed (Checker.registered_atItems p) p.items (errors_of_check h) f
    (mem_functions.mp hf)

/-- The functions of an accepted program have different names. -/
theorem distinct_of_check (h : check p = .ok table) : (p.functions.map FunctionDef.name).Nodup := by
  have he := errors_of_check h
  rw [p.errors_eq, List.append_eq_nil_iff] at he
  exact (Check.registerAll_accepted p.functions (Checker.new p.name) he.1).1

end Program

end Primer
