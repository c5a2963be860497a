import Primer.Proofs.Typing.Inspection
import Primer.Proofs.Typing.Program

/-!
# What the checker says about control

The checker says of each statement how control leaves it, and it notes in the function whether a
`return` with a value was met that control can reach. Both depend on the shape of the statement only.
They are the same whatever the state of the checker is, and whether or not it finds errors.

- `Check.stmt_exit`, `Check.stmts_exit`: the exits that the checker gives.
- `Check.Walks` says what a walk over code does to the function being checked, and that it reports no
  missing `return`, which is left to the end of the function. `Check.stmts_walks` is the walk over a body.
- `FunctionDef.LacksReturn`: control meets no `return` with a value in the body, though one is needed;
  `Checker.ofProgram_blames`: a missing `return` is reported for such functions only.
-/

namespace Primer

/-! ## Exits -/

namespace Check

mutual

/-- The checker answers with the exit of the statement. -/
theorem stmt_exit : ∀ (s : Stmt) (r : Bool) (c : Checker), ((stmt r s).run c).1 = s.exit
  | .declare d, r, c => by
    rw [stmt, Stmt.exit]
    rfl
  | .eval e pos, r, c => by
    rw [stmt, Stmt.exit]
    rfl
  | .block body pos, r, c => by
    rw [stmt, Stmt.exit]
    exact stmts_exit body r c.pushScope
  | .branch cond onTrue none pos, r, c => by
    rw [stmt, Stmt.exit]
    rfl
  | .branch cond onTrue (some onFalse) pos, r, c => by
    rw [stmt, Stmt.exit]
    exact congr (congrArg Exit.join (stmt_exit onTrue r _)) (stmt_exit onFalse r _)
  | .whileLoop cond body pos, r, c => by
    rw [stmt, Stmt.exit]
    rfl
  | .forLoop init cond step body pos, r, c => by
    rw [stmt, Stmt.exit]
    cases cond <;> rfl
  | .switch e groups pos, r, c => by
    rw [stmt, Stmt.exit]
    rfl
  | .ret e? pos, r, c => by
    rw [stmt, Stmt.exit]
    rfl
  | .brk pos, r, c => by
    rw [stmt, Stmt.exit]
    rfl

theorem stmts_exit : ∀ (body : List Stmt) (r : Bool) (c : Checker),
    ((stmts r body).run c).1 = Stmt.listExit body
  | [], r, c => by
    rw [stmts, Stmt.listExit]
    rfl
  | s :: rest, r, c => by
    rw [stmts, Stmt.listExit]
    exact congr (congrArg Exit.andThen (stmt_exit s r c)) (stmts_exit rest _ _)

end

end Check

/-! ## Walks over code -/

/-- A function whose check met a `return` with a value that control can reach, if `met` holds. Such a
`return` counts for functions with a value only. -/
def CurrentFunction.noted (met : Bool) (f : CurrentFunction) : CurrentFunction :=
  { f with hasReturn := f.hasReturn || (met && f.returns != .void) }

theorem CurrentFunction.noted_false (f : CurrentFunction) : f.noted false = f := by
  simp [noted]

theorem CurrentFunction.noted_noted (a b : Bool) (f : CurrentFunction) :
    (f.noted a).noted b = f.noted (a || b) := by
  simp only [noted, Bool.and_or_distrib_right, Bool.or_assoc]

theorem CurrentFunction.noted_of_void {f : CurrentFunction} (h : f.returns = .void) (met : Bool) :
    f.noted met = f := by
  unfold noted
  rw [h, bne_self_eq_false, Bool.and_false, Bool.or_false, ← h]

namespace Checker

/-- Errors are added, and all that are added satisfy `P`. -/
def Finds (P : SemanticError → Prop) (c c' : Checker) : Prop :=
  ∃ found, c'.errors = c.errors ++ found ∧ ∀ e ∈ found, P e

variable {P Q : SemanticError → Prop} {c c' c'' : Checker} {a b : Bool}

theorem Finds.refl (c : Checker) : c.Finds P c :=
  ⟨[], (List.append_nil _).symm, fun _ he => (nomatch he)⟩

theorem Finds.trans (h : c.Finds P c') (h' : c'.Finds P c'') : c.Finds P c'' := by
  obtain ⟨found, herrors, hfound⟩ := h
  obtain ⟨found', herrors', hfound'⟩ := h'
  refine ⟨found ++ found', ?_, fun e he => ?_⟩
  · rw [herrors', herrors, List.append_assoc]
  · exact (List.mem_append.mp he).elim (hfound e) (hfound' e)

theorem Finds.imp (h : c.Finds P c') (hPQ : ∀ e, P e → Q e) : c.Finds Q c' := by
  obtain ⟨found, herrors, hfound⟩ := h
  exact ⟨found, herrors, fun e he => hPQ e (hfound e he)⟩

theorem report_finds {v : Violation} {pos : Position} (h : P ⟨v, pos⟩) :
    c.Finds P (c.report v pos) :=
  ⟨[⟨v, pos⟩], rfl, fun e he => by rwa [List.mem_singleton.mp he]⟩

/-- The states before and after a walk over code, in which control can reach a `return` with a value, if
`met` holds. -/
structure Walked (met : Bool) (c c' : Checker) : Prop where
  function : c'.function = c.function.map (CurrentFunction.noted met)
  errors : c.Finds (fun e => e.violation.isMissingReturn = false) c'

theorem Walked.of_function (hfunction : c'.function = c.function)
    (herrors : c.Finds (fun e => e.violation.isMissingReturn = false) c') : c.Walked false c' := by
  refine ⟨?_, herrors⟩
  rw [hfunction]
  cases c.function with
  | none => rfl
  | some f => rw [Option.map_some, CurrentFunction.noted_false]

theorem Walked.trans (h : c.Walked a c') (h' : c'.Walked b c'') : c.Walked (a || b) c'' := by
  refine ⟨?_, h.errors.trans h'.errors⟩
  rw [h'.function, h.function, Option.map_map]
  exact congrArg (c.function.map ·) (funext (CurrentFunction.noted_noted a b))

end Checker

namespace Check

variable {α β : Type} {a b : Bool}

/-- The computation walks over code in which control can reach a `return` with a value, if `met`
holds. -/
def Walks (met : Bool) (x : Check α) : Prop :=
  ∀ c : Checker, c.Walked met (x.run c).2

theorem pure_walks (v : α) : Walks false (pure v) :=
  fun c => .of_function rfl (.refl c)

/-- Two walks in a row, of which the second may use what the first always gives. -/
theorem Walks.bind_of {x : Check α} {f : α → Check β} {v : α} (hx : Walks a x)
    (hv : ∀ c, (x.run c).1 = v) (hf : Walks b (f v)) : Walks (a || b) (x >>= f) := by
  intro c
  have hwalked := (hx c).trans (hf (x.run c).2)
  rwa [← hv c] at hwalked

theorem Walks.bind {x : Check α} {f : α → Check β} (hx : Walks a x) (hf : ∀ v, Walks b (f v)) :
    Walks (a || b) (x >>= f) :=
  fun c => (hx c).trans (hf (x.run c).1 (x.run c).2)

/-- A part without a `return` in front. -/
theorem Walks.andThen {x : Check α} {f : α → Check β} (hx : Walks false x) (hf : ∀ v, Walks b (f v)) :
    Walks b (x >>= f) :=
  Bool.false_or b ▸ hx.bind hf

/-- A part without a `return` at the end. -/
theorem Walks.finish {x : Check α} {f : α → Check β} (hx : Walks a x) (hf : ∀ v, Walks false (f v)) :
    Walks a (x >>= f) :=
  Bool.or_false a ▸ hx.bind hf

theorem get_walks : Walks false get := fun c => .of_function rfl (.refl c)

theorem modify_walks {g : Checker → Checker} (hfunction : ∀ c, (g c).function = c.function)
    (herrors : ∀ c, (g c).errors = c.errors) : Walks false (modify g) := by
  intro c
  refine .of_function (hfunction c) ⟨[], ?_, fun _ he => (nomatch he)⟩
  rw [List.append_nil]
  exact herrors c

theorem report_walks {v : Violation} (h : v.isMissingReturn = false) (pos : Position) :
    Walks false (report v pos) :=
  fun _ => .of_function rfl (Checker.report_finds h)

theorem Walks.inScope {x : Check α} (hx : Walks a x) : Walks a (inScope x) := by
  refine Walks.andThen (modify_walks (fun _ => rfl) fun _ => rfl) fun _ => ?_
  refine hx.finish fun v => Walks.andThen (modify_walks (fun _ => rfl) fun _ => rfl) fun _ => ?_
  exact pure_walks v

theorem Walks.insideLoop {x : Check α} (hx : Walks a x) : Walks a (insideLoop x) := by
  refine Walks.andThen (modify_walks (fun _ => rfl) fun _ => rfl) fun _ => ?_
  refine hx.finish fun v => Walks.andThen (modify_walks (fun _ => rfl) fun _ => rfl) fun _ => ?_
  exact pure_walks v

/-! ## Expressions -/

theorem recordUse_walks (symbol line : Nat) : Walks false (modify fun c => c.recordUse symbol line) :=
  modify_walks (fun _ => rfl) fun _ => rfl

theorem resolve_walks (name : String) (pos : Position) : Walks false (resolve name pos) := by
  refine get_walks.andThen fun c => ?_
  cases Checker.symbolOf? c.scopes name with
  | some symbol => exact (recordUse_walks symbol pos.line).andThen fun _ => pure_walks _
  | none => exact (report_walks rfl pos).andThen fun _ => pure_walks _

theorem resolveFunction_walks (name : String) (pos : Position) :
    Walks false (resolveFunction name pos) := by
  refine get_walks.andThen fun c => ?_
  cases c.functions.lookup name with
  | some signature => exact (recordUse_walks signature.symbol pos.line).andThen fun _ => pure_walks _
  | none => exact (report_walks rfl pos).andThen fun _ => pure_walks _

theorem Refuses.walks {x : Check α} (h : Refuses x) : Walks false x := by
  induction h with
  | pure a => exact pure_walks a
  | report other pos => exact report_walks other pos
  | bind _ _ hfirst hnext => exact hfirst.andThen hnext

/-- There is no `return` in an expression. -/
theorem Inspects.walks {x : Check α} (h : Inspects x) : Walks false x := by
  induction h with
  | refuses h => exact h.walks
  | resolve name pos => exact resolve_walks name pos
  | resolveFunction name pos => exact resolveFunction_walks name pos
  | bind _ _ hfirst hnext => exact hfirst.andThen hnext

/-! ## Statements -/

theorem declare_walks (name : String) (kind : SymbolKind) (type : Ty) (pos : Position) :
    Walks false (modify fun c => c.declare name kind type pos) := by
  intro c
  show c.Walked false (c.declare name kind type pos)
  unfold Checker.declare
  split
  · exact .of_function rfl (Checker.report_finds rfl)
  · unfold Checker.bind
    split
    · exact .of_function rfl (.refl c)
    · exact .of_function rfl (.refl c)

theorem varDecl_walks (d : VarDecl) : Walks false (varDecl d) := by
  refine (reportIf_refuses _ rfl _).walks.andThen fun _ => ?_
  cases d.init with
  | none => exact declare_walks _ _ _ _
  | some e =>
    refine (value_inspects e).walks.andThen fun found => ?_
    split
    · exact (requireType_refuses _ _ _).walks.andThen fun _ => declare_walks _ _ _ _
    · exact declare_walks _ _ _ _

theorem forInit_walks : ∀ init : Option ForInit, Walks false (forInit init)
  | some (.declare d) => varDecl_walks d
  | some (.eval e) => (expr_inspects e).walks.andThen fun _ => pure_walks _
  | none => pure_walks _

theorem markReturn_walks {c : Checker} {f : CurrentFunction} (hf : c.function = some f)
    (hreturns : f.returns ≠ .void) : c.Walked true (markReturn.run c).2 := by
  refine ⟨?_, .refl c⟩
  show c.function.map (fun f => { f with hasReturn := true }) = _
  rw [hf, Option.map_some, Option.map_some]
  simp [CurrentFunction.noted, hreturns]

/-- A `return` with a value counts, if control can reach it. -/
theorem ret_walks (e? : Option Expr) (pos : Position) (reachable : Bool) :
    Walks (reachable && e?.isSome) (ret e? pos reachable) := by
  cases e? with
  | none =>
    rw [Option.isSome_none, Bool.and_false]
    refine get_walks.andThen fun c => ?_
    cases c.function with
    | some f => exact (reportIf_refuses _ rfl pos).walks
    | none => exact pure_walks _
  | some e =>
    rw [Option.isSome_some, Bool.and_true]
    refine (value_inspects e).walks.andThen fun found => ?_
    -- whether the `return` is marked depends on the state, so there is no walk for this part
    intro c
    rw [get_bind_run]
    cases hf : c.function with
    | none =>
      refine ⟨?_, .refl c⟩
      show c.function = c.function.map _
      rw [hf]
      rfl
    | some f =>
      by_cases hvoid : f.returns = .void
      · show c.Walked reachable ((if f.returns = .void then report (.unexpectedReturnValue f.name) pos
          else _ : Check Unit).run c).2
        rw [if_pos hvoid]
        refine ⟨?_, Checker.report_finds rfl⟩
        show c.function = c.function.map _
        rw [hf, Option.map_some, CurrentFunction.noted_of_void hvoid]
      · show c.Walked reachable ((if f.returns = .void then report (.unexpectedReturnValue f.name) pos
          else _ : Check Unit).run c).2
        rw [if_neg hvoid]
        cases reachable with
        | true =>
          have hrequire := (requireType_refuses f.returns found e.pos).walks (markReturn.run c).2
          exact Bool.or_false true ▸ (markReturn_walks hf hvoid).trans hrequire
        | false => exact (requireType_refuses f.returns found e.pos).walks c

mutual

/-- The walk over a statement. -/
theorem stmt_walks : ∀ (s : Stmt) (r : Bool), Walks (r && s.returnsValue) (stmt r s)
  | .declare d, r => by
    rw [stmt, Stmt.returnsValue, Bool.and_false]
    exact (varDecl_walks d).andThen fun _ => pure_walks _
  | .eval e pos, r => by
    rw [stmt, Stmt.returnsValue, Bool.and_false]
    exact (expr_inspects e).walks.andThen fun _ => pure_walks _
  | .block body pos, r => by
    rw [stmt, Stmt.returnsValue]
    exact (stmts_walks body r).inScope
  | .branch cond onTrue none pos, r => by
    rw [stmt, Stmt.returnsValue]
    refine (condition_inspects cond).walks.andThen fun _ => ?_
    exact (stmt_walks onTrue r).finish fun _ => pure_walks _
  | .branch cond onTrue (some onFalse) pos, r => by
    rw [stmt, Stmt.returnsValue, Bool.and_or_distrib_left]
    refine (condition_inspects cond).walks.andThen fun _ => (stmt_walks onTrue r).bind fun _ => ?_
    exact (stmt_walks onFalse r).finish fun _ => pure_walks _
  | .whileLoop cond body pos, r => by
    rw [stmt, Stmt.returnsValue]
    refine (condition_inspects cond).walks.andThen fun _ => ?_
    exact (stmt_walks body r).insideLoop.finish fun _ => pure_walks _
  | .forLoop init cond step body pos, r => by
    rw [stmt, Stmt.returnsValue]
    refine ((forInit_walks init).andThen fun _ => ?_).inScope
    have hbody : Walks (r && body.returnsValue) (do
        effect step
        let _ ← insideLoop (stmt r body)
        return Exit.continues) :=
      (effect_inspects step).walks.andThen fun _ =>
        (stmt_walks body r).insideLoop.finish fun _ => pure_walks _
    cases cond with
    | some e => exact (condition_inspects e).walks.andThen fun _ => hbody
    | none => exact hbody
  | .switch e cases pos, r => by
    rw [stmt, Stmt.returnsValue]
    refine (scrutinee_inspects e).walks.andThen fun type => ?_
    refine (labels_refuses type cases [] false).walks.andThen fun _ => ?_
    exact (groups_walks cases r).insideLoop.finish fun _ => pure_walks _
  | .ret none pos, r => by
    rw [stmt, Stmt.returnsValue]
    exact (ret_walks none pos r).finish fun _ => pure_walks _
  | .ret (some e) pos, r => by
    rw [stmt, Stmt.returnsValue]
    exact (ret_walks (some e) pos r).finish fun _ => pure_walks _
  | .brk pos, r => by
    rw [stmt, Stmt.returnsValue, Bool.and_false]
    exact get_walks.andThen fun c => (reportIf_refuses _ rfl pos).walks.andThen fun _ => pure_walks _

theorem stmts_walks : ∀ (body : List Stmt) (r : Bool),
    Walks (r && Stmt.listReturnsValue body) (stmts r body)
  | [], r => by
    rw [stmts, Stmt.listReturnsValue, Bool.and_false]
    exact pure_walks _
  | s :: rest, r => by
    rw [stmts, Stmt.listReturnsValue, Bool.and_or_distrib_left, ← Bool.and_assoc]
    -- the rest is reachable or not by the exit of the first statement, which no state can change
    refine (stmt_walks s r).bind_of (stmt_exit s r) ?_
    exact (stmts_walks rest _).finish fun _ => pure_walks _

theorem groups_walks : ∀ (cases : List CaseGroup) (r : Bool),
    Walks (r && CaseGroup.listReturnsValue cases) (groups r cases)
  | [], r => by
    rw [groups, CaseGroup.listReturnsValue, Bool.and_false]
    exact pure_walks _
  | .mk label body pos :: rest, r => by
    rw [groups, CaseGroup.listReturnsValue, Bool.and_or_distrib_left]
    exact (stmts_walks body r).bind fun _ => groups_walks rest r

end

/-! ## Programs -/

theorem register_walks (f : FunctionDef) : Walks false (register f) := by
  unfold register
  split
  · exact report_walks rfl _
  · refine get_walks.andThen fun c => ?_
    split
    · exact report_walks rfl _
    · exact modify_walks (fun _ => rfl) fun _ => rfl

theorem param_walks (p : Param) : Walks false (param p) :=
  (reportIf_refuses _ rfl _).walks.andThen fun _ => declare_walks _ _ _ _

theorem forM_walks {g : α → Check Unit} (h : ∀ v, Walks false (g v)) :
    ∀ l : List α, Walks false (l.forM g)
  | [] => pure_walks _
  | v :: l => (h v).andThen fun _ => forM_walks h l

end Check

/-- The function has to return a value, and control meets no `return` with one in its body. -/
structure FunctionDef.LacksReturn (f : FunctionDef) : Prop where
  returns : f.returns ≠ .void
  notMain : f.name ≠ mainName
  body : Stmt.listReturnsValue f.body = false

namespace Checker

/-- What is known of a function when its body has been checked. -/
theorem function_after_body (c : Checker) (f : FunctionDef) :
    ((Check.stmts true f.body).run (c.enterFunction f)).2.function =
      some ⟨f.name, f.returns, Stmt.listReturnsValue f.body && f.returns != .void⟩ :=
  (Check.stmts_walks f.body true (c.enterFunction f)).function

/-- If the error is about a missing `return`, then it points at one of the functions, which lacks one. -/
def Blames (fs : List FunctionDef) (e : SemanticError) : Prop :=
  e.violation.isMissingReturn = true →
    ∃ f ∈ fs, f.LacksReturn ∧ e = ⟨.missingReturn f.name f.returns, f.pos⟩

theorem Blames.of_other {e : SemanticError} (h : e.violation.isMissingReturn = false)
    (fs : List FunctionDef) : Blames fs e := by
  intro hmissing
  rw [h] at hmissing
  cases hmissing

theorem Blames.mono {fs fs' : List FunctionDef} {e : SemanticError} (h : Blames fs e)
    (hsub : fs ⊆ fs') : Blames fs' e := by
  intro hmissing
  obtain ⟨f, hf, hblamed⟩ := h hmissing
  exact ⟨f, hsub hf, hblamed⟩

theorem requireReturn_finds {c : Checker} {f : FunctionDef}
    (h : c.function = some ⟨f.name, f.returns, Stmt.listReturnsValue f.body && f.returns != .void⟩) :
    c.Finds (Blames [f]) ((Check.requireReturn f).run c).2 := by
  unfold Check.requireReturn
  rw [Check.get_bind_run, h]
  show c.Finds _ ((Check.reportIf _ _ _).run c).2
  cases hlacks : f.returns != .void && f.name != mainName &&
      !(Stmt.listReturnsValue f.body && f.returns != .void) with
  | true =>
    refine report_finds fun _ => ⟨f, List.mem_singleton_self f, ?_, rfl⟩
    simp only [Bool.and_eq_true, bne_iff_ne, Bool.not_eq_true'] at hlacks
    obtain ⟨⟨hvoid, hmain⟩, hbody⟩ := hlacks
    -- the function has a value, so each `return` that was met has been noted
    rw [bne_iff_ne.mpr hvoid, Bool.and_true] at hbody
    exact ⟨hvoid, hmain, hbody⟩
  | false => exact .refl c

theorem functionDef_finds (c : Checker) (f : FunctionDef) :
    c.Finds (Blames [f]) ((Check.functionDef f).run c).2 := by
  have hparams := (Check.forM_walks Check.param_walks f.params (c.enterRoutine f.name).pushScope).errors
  have hbody := (Check.stmts_walks f.body true (c.enterFunction f)).errors
  have hother : c.Finds (fun e => e.violation.isMissingReturn = false)
      ((Check.stmts true f.body).run (c.enterFunction f)).2 := hparams.trans hbody
  rw [functionDef_run]
  exact (hother.imp fun _ he => .of_other he [f]).trans (requireReturn_finds (c.function_after_body f))

theorem items_finds : ∀ (items : List Item) (c : Checker),
    c.Finds (Blames (Item.functions items)) ((items.forM Check.item).run c).2
  | [], c => .refl c
  | .global d :: items, c => by
    have hglobal := (Check.varDecl_walks d c).errors
    exact (hglobal.imp fun _ he => .of_other he _).trans (items_finds items _)
  | .function f :: items, c => by
    have hfirst : c.Finds (Blames (f :: Item.functions items)) ((Check.functionDef f).run c).2 :=
      (functionDef_finds c f).imp fun _ he => he.mono (List.cons_subset_cons f (List.nil_subset _))
    exact hfirst.trans ((items_finds items _).imp fun _ he => he.mono (List.subset_cons_self f _))

/-- A missing `return` is reported for functions of the program that lack one. -/
theorem ofProgram_blames {p : Program} {e : SemanticError} (he : e ∈ (Checker.ofProgram p).errors) :
    Blames p.functions e := by
  have hregister := (Check.forM_walks Check.register_walks p.functions (.new p.name)).errors
  have hother := hregister.imp fun _ he => Blames.of_other he p.functions
  obtain ⟨found, herrors, hfound⟩ := hother.trans (items_finds p.items _)
  have hall : (Checker.ofProgram p).errors = found := herrors
  exact hfound e (hall ▸ he)

end Checker

end Primer
