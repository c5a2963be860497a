import Primer.Interpreter
import Primer.Proofs.Flow.Exit
import Primer.Proofs.Flow.Walk
import Primer.Proofs.Soundness.Point

/-!
# Unreachable code is not executed

The checker takes what follows a statement that does not continue for unreachable, and a `return` there
does not count for its function. Execution agrees with both.

- `Point.Enters.reachable`: a run that starts at a point that the checker takes for reachable stays at
  such points.
- `Stmt.refill` puts other statements in the place of the unreachable ones; `Context.execAll_refill`:
  this makes no difference to what is executed.
- `Context.call_lacksReturn`: a function that lacks a `return` with a value never comes to a value.
- `reachability_sound` puts them together.
-/

namespace Primer

/-! ## Points of a run -/

/-- What is entered from a point that is taken for reachable is taken for reachable. -/
theorem Point.Enters.reachable {p : Program} {ctx : Context} {x y : Point} (h : Enters p ctx x y)
    (hx : x.reachable = true) : y.reachable = true := by
  cases h with
  -- a function is checked from a reachable point on, wherever it is called
  | call evaluated notPrint meant entered item => rfl
  | @tail c r s rest m m' executed =>
    obtain ⟨fuel, hexec⟩ := executed
    have hr : r = true := hx
    show (r && ((Check.stmt r s).run c).1 == .continues) = true
    rw [hr, Check.stmt_exit, Run.exit_of_normal hexec]
    rfl
  | _ => exact hx

theorem Point.reachable_of_enters {p : Program} {ctx : Context} {x y : Point}
    (h : Relation.ReflTransGen (Point.Enters p ctx) x y) (hx : x.reachable = true) :
    y.reachable = true := by
  induction h with
  | refl => exact hx
  | tail _ henters ih => exact henters.reachable ih

/-! ## Other code in the place of unreachable code -/

mutual

/-- The statement with `code` in the place of what follows a statement that does not continue. -/
def Stmt.refill (code : List Stmt) : Stmt → Stmt
  | .declare d => .declare d
  | .eval e pos => .eval e pos
  | .block body pos => .block (Stmt.listRefill code body) pos
  | .branch cond onTrue none pos => .branch cond (onTrue.refill code) none pos
  | .branch cond onTrue (some onFalse) pos =>
    .branch cond (onTrue.refill code) (some (onFalse.refill code)) pos
  | .whileLoop cond body pos => .whileLoop cond (body.refill code) pos
  | .forLoop init cond step body pos => .forLoop init cond step (body.refill code) pos
  | .switch e groups pos => .switch e (CaseGroup.listRefill code groups) pos
  | .ret value pos => .ret value pos
  | .brk pos => .brk pos

/-- The statements with `code` in the place of what follows one that does not continue. -/
def Stmt.listRefill (code : List Stmt) : List Stmt → List Stmt
  | [] => []
  | s :: rest => s.refill code :: if s.exit = .continues then Stmt.listRefill code rest else code

/-- The case groups with their statements refilled. -/
def CaseGroup.listRefill (code : List Stmt) : List CaseGroup → List CaseGroup
  | [] => []
  | .mk label body pos :: rest => .mk label (Stmt.listRefill code body) pos :: CaseGroup.listRefill code rest

end

/-- The function with its body refilled. -/
def FunctionDef.refill (code : List Stmt) (f : FunctionDef) : FunctionDef :=
  { f with body := Stmt.listRefill code f.body }

/-- The context with the bodies of all functions refilled. -/
def Context.refill (code : List Stmt) (ctx : Context) : Context :=
  { ctx with functions := ctx.functions.map (FunctionDef.refill code) }

theorem CaseGroup.map_label_listRefill (code : List Stmt) : ∀ groups : List CaseGroup,
    (listRefill code groups).map CaseGroup.label = groups.map CaseGroup.label
  | [] => by rw [listRefill]
  | .mk label body pos :: rest => by
    rw [listRefill, List.map_cons, List.map_cons, map_label_listRefill code rest]
    rfl

namespace Run

variable {call : Call} {fuel : Nat}

/-- Where a switch starts depends on its labels. -/
theorem startOf?_congr {groups groups' : List CaseGroup}
    (h : groups'.map CaseGroup.label = groups.map CaseGroup.label) (key : Int64) :
    startOf? key groups' = startOf? key groups := by
  have hfind : ∀ (q : Option CaseLabel → Bool) (gs : List CaseGroup),
      gs.findIdx? (fun g => q g.label) = (gs.map CaseGroup.label).findIdx? q :=
    fun q gs => List.findIdx?_map.symm
  unfold startOf?
  rw [hfind fun l => l.map CaseLabel.integer == some key, hfind Option.isNone, h, ← hfind, ← hfind]

mutual

theorem exec_refill (code : List Stmt) : ∀ s : Stmt, exec call fuel (s.refill code) = exec call fuel s
  | .declare d => by rw [Stmt.refill]
  | .eval e pos => by rw [Stmt.refill]
  | .block body pos => by
    rw [Stmt.refill, exec, exec, execAll_listRefill code body]
  | .branch cond onTrue none pos => by
    rw [Stmt.refill, exec, exec, exec_refill code onTrue]
  | .branch cond onTrue (some onFalse) pos => by
    rw [Stmt.refill, exec, exec, exec_refill code onTrue, exec_refill code onFalse]
  | .whileLoop cond body pos => by
    rw [Stmt.refill, exec, exec, exec_refill code body]
  | .forLoop init cond step body pos => by
    rw [Stmt.refill, exec, exec, exec_refill code body]
  | .switch e groups pos => by
    rw [Stmt.refill, exec, exec]
    refine bind_congr fun v => bind_congr fun key => ?_
    -- refilling changes bodies and not labels, so the switch starts at the same group
    rw [startOf?_congr (CaseGroup.map_label_listRefill code groups)]
    cases startOf? key groups with
    | none => rfl
    | some start => exact execFrom_listRefill code start groups
  | .ret value pos => by rw [Stmt.refill]
  | .brk pos => by rw [Stmt.refill]

theorem execAll_listRefill (code : List Stmt) :
    ∀ body : List Stmt, execAll call fuel (Stmt.listRefill code body) = execAll call fuel body
  | [] => by rw [Stmt.listRefill]
  | s :: rest => by
    rw [Stmt.listRefill, execAll, execAll, exec_refill code s]
    split
    · rw [execAll_listRefill code rest]
    · next hexit =>
      -- the first statement is not left normally, so neither of the two continuations is taken
      funext m
      rw [bind_apply, bind_apply]
      cases hs : exec call fuel s m with
      | value flow m' =>
        cases flow with
        | normal => exact absurd (exit_of_normal hs) hexit
        | brk => rfl
        | ret v => rfl
      | error e m' => rfl
      | pending => rfl

theorem execFrom_listRefill (code : List Stmt) : ∀ (start : Nat) (groups : List CaseGroup),
    execFrom call fuel start (CaseGroup.listRefill code groups) = execFrom call fuel start groups
  | start, [] => by rw [CaseGroup.listRefill]
  | start + 1, .mk label body pos :: rest => by
    rw [CaseGroup.listRefill, execFrom, execFrom, execFrom_listRefill code start rest]
  | 0, .mk label body pos :: rest => by
    rw [CaseGroup.listRefill, execFrom, execFrom, execAll_listRefill code body,
      execFrom_listRefill code 0 rest]

end

end Run

namespace Context

variable (ctx : Context)

theorem function?_refill (code : List Stmt) (name : String) :
    (ctx.refill code).function? name = (ctx.function? name).map (FunctionDef.refill code) :=
  List.find?_map

theorem calls_refill {code : List Stmt} {fuel : Nat}
    (h : ∀ f args pos, (ctx.refill code).call fuel (f.refill code) args pos = ctx.call fuel f args pos) :
    (ctx.refill code).calls fuel = ctx.calls fuel := by
  funext name args pos
  unfold calls dispatch
  rw [function?_refill]
  split
  · rfl
  · cases ctx.function? name with
    | none => rfl
    | some f => exact h f args pos

theorem call_refill (code : List Stmt) : ∀ (fuel : Nat) (f : FunctionDef) (args : List Value)
    (pos : Position), (ctx.refill code).call fuel (f.refill code) args pos = ctx.call fuel f args pos
  | 0, _, _, _ => rfl
  | fuel + 1, f, args, pos => by
    have hbody : Run.execAll ((ctx.refill code).calls fuel) (fuel + 1) (f.refill code).body =
        Run.execAll (ctx.calls fuel) (fuel + 1) f.body := by
      rw [ctx.calls_refill (call_refill code fuel)]
      exact Run.execAll_listRefill code f.body
    rw [call_succ, call_succ, hbody]
    rfl

/-- Code that is taken for unreachable, in the statements and in the functions they call, may be
replaced by any other code. -/
theorem execAll_refill (code : List Stmt) (fuel rounds : Nat) (body : List Stmt) :
    Run.execAll ((ctx.refill code).calls fuel) rounds (Stmt.listRefill code body) =
      Run.execAll (ctx.calls fuel) rounds body := by
  rw [ctx.calls_refill (ctx.call_refill code fuel), Run.execAll_listRefill]

end Context

/-! ## Functions that lack a `return` -/

/-- A call that needs a value gets one from a `return` only. -/
theorem Run.result_eq_value {f : FunctionDef} {flow : Flow} {pos : Position} {m m' : Machine} {v : Value}
    (h : result f flow pos m = .value v m') (hreturns : f.returns ≠ .void) (hmain : f.name ≠ mainName) :
    ∃ w, flow = .ret w ∧ w ≠ .void := by
  unfold result at h
  rw [if_neg hreturns] at h
  cases flow with
  | normal =>
    simp only [if_neg hmain] at h
    cases h
  | brk =>
    simp only [if_neg hmain] at h
    cases h
  | ret w =>
    refine ⟨w, rfl, ?_⟩
    rintro rfl
    -- a `return` without a value gives `void`, which no other type accepts
    have hcoerce : Value.void.coerce? f.returns = none := by
      cases hf : f.returns with
      | void => exact absurd hf hreturns
      | _ => rfl
    simp only [coerce, hcoerce] at h
    cases h

/-- A function that lacks a `return` with a value never comes to a value. -/
theorem Context.call_lacksReturn (ctx : Context) {f : FunctionDef} (h : f.LacksReturn) {fuel : Nat}
    {args : List Value} {pos : Position} {m m' : Machine} {v : Value} :
    ctx.call fuel f args pos m ≠ .value v m' := by
  intro hcall
  cases fuel with
  | zero => cases hcall
  | succ fuel =>
    rw [call_succ] at hcall
    obtain ⟨_, m₁, -, hcall⟩ := Run.bind_eq_value hcall
    obtain ⟨flow, m₂, hbody, hresult⟩ := Run.bind_eq_value hcall
    obtain ⟨w, rfl, hw⟩ := Run.result_eq_value hresult h.returns h.notMain
    obtain ⟨m₃, hbody⟩ := Run.closing_eq_value hbody
    -- the body holds no `return` with a value that counts, and one without a value gives `void`
    rcases Run.execAll_yields f.body m₁ (.ret w) m₃ hbody with hreturns | hvoid
    · rw [h.body] at hreturns
      cases hreturns
    · exact hw hvoid

/-- The reachability analysis of the checker is sound, in whatever state the checker is and whatever it
reports:

- a statement or a statement list for which it gives another exit than `continues` is never left
  normally, whatever calls mean, on any machine and with any fuel;
- a run that works on a piece of the program that the checker takes for reachable goes on to such pieces
  only;
- any code may stand in the place of code that follows a statement that does not continue, in the
  statements that are executed and in all functions that they call;
- a function with a value, other than `main`, in which the checker has met no `return` that counts, never
  comes to a value, whatever the context, the arguments and the machine are;
- so every missing `return` that is reported for a program is one of such a function. -/
theorem reachability_sound :
    (∀ (r : Bool) (c : Checker) (s : Stmt), ((Check.stmt r s).run c).1 ≠ .continues →
      ∀ (call : Call) (fuel : Nat) (m m' : Machine), Run.exec call fuel s m ≠ .value .normal m') ∧
    (∀ (r : Bool) (c : Checker) (body : List Stmt), ((Check.stmts r body).run c).1 ≠ .continues →
      ∀ (call : Call) (fuel : Nat) (m m' : Machine), Run.execAll call fuel body m ≠ .value .normal m') ∧
    (∀ (p : Program) (ctx : Context) (x y : Point), Relation.ReflTransGen (Point.Enters p ctx) x y →
      x.reachable = true → y.reachable = true) ∧
    (∀ (code : List Stmt) (ctx : Context) (fuel rounds : Nat) (body : List Stmt),
      Run.execAll ((ctx.refill code).calls fuel) rounds (Stmt.listRefill code body) =
        Run.execAll (ctx.calls fuel) rounds body) ∧
    (∀ (c : Checker) (f : FunctionDef), f.returns ≠ .void → f.name ≠ mainName →
      ((Check.stmts true f.body).run (c.enterFunction f)).2.function.map CurrentFunction.hasReturn =
        some false →
      ∀ (ctx : Context) (fuel : Nat) (args : List Value) (pos : Position) (m m' : Machine) (v : Value),
        ctx.call fuel f args pos m ≠ .value v m') ∧
    ∀ (p : Program) (name : String) (returns : Ty) (pos : Position),
      ⟨.missingReturn name returns, pos⟩ ∈ (Checker.ofProgram p).errors →
      ∃ f ∈ p.functions, f.name = name ∧ f.returns = returns ∧ f.pos = pos ∧
        ∀ (ctx : Context) (fuel : Nat) (args : List Value) (pos : Position) (m m' : Machine) (v : Value),
          ctx.call fuel f args pos m ≠ .value v m' := by
  refine ⟨?_, ?_, ?_, ?_, ?_, ?_⟩
  · intro r c s hexit call fuel m m' hnormal
    rw [Check.stmt_exit] at hexit
    exact hexit (Run.exit_of_normal hnormal)
  · intro r c body hexit call fuel m m' hnormal
    rw [Check.stmts_exit] at hexit
    exact hexit (Run.listExit_of_normal hnormal)
  · intro p ctx x y hxy
    exact Point.reachable_of_enters hxy
  · intro code ctx fuel rounds body
    exact ctx.execAll_refill code fuel rounds body
  · intro c f hreturns hmain hmet ctx fuel args pos m m' v
    rw [Checker.function_after_body, Option.map_some, Option.some.injEq,
      bne_iff_ne.mpr hreturns, Bool.and_true] at hmet
    exact ctx.call_lacksReturn ⟨hreturns, hmain, hmet⟩
  · intro p name returns pos herror
    obtain ⟨f, hf, hlacks, herror⟩ := Checker.ofProgram_blames herror rfl
    cases herror
    exact ⟨f, hf, rfl, rfl, rfl, fun ctx fuel args pos m m' v => ctx.call_lacksReturn hlacks⟩

/-- A function whose only `return` with a value stands behind a `break`. -/
def hiddenReturn : String :=
  "Program p; int f(int n) \x7b while (n) \x7b n = n - 1; if (n) \x7b n = 0; break; return n; \x7d \x7d \x7d"

/-- Its missing `return` is reported, and rightly so; and the list that a `break` begins is not left
normally. -/
theorem hiddenReturn_unreachable :
    (∃ p f, parseSource hiddenReturn = .ok p ∧
      (Checker.ofProgram p).errors = [⟨.missingReturn "f" .int, ⟨1, 12⟩⟩] ∧ f ∈ p.functions ∧
      ∀ (ctx : Context) (fuel : Nat) (args : List Value) (pos : Position) (m m' : Machine) (v : Value),
        ctx.call fuel f args pos m ≠ .value v m') ∧
    ∀ (call : Call) (fuel : Nat) (m m' : Machine),
      Run.execAll call fuel [.brk .start, .ret none .start] m ≠ .value .normal m' := by
  obtain ⟨-, hlists, -, -, -, hmissing⟩ := reachability_sound
  constructor
  · have herrors : (parseSource hiddenReturn).toOption.map (fun p => (Checker.ofProgram p).errors) =
        some [⟨.missingReturn "f" .int, ⟨1, 12⟩⟩] := by decide +kernel
    cases hp : parseSource hiddenReturn with
    | error e =>
      rw [hp] at herrors
      cases herrors
    | ok p =>
      rw [hp] at herrors
      have herrors : (Checker.ofProgram p).errors = [⟨.missingReturn "f" .int, ⟨1, 12⟩⟩] :=
        Option.some.inj herrors
      have hmem := List.mem_singleton_self (⟨.missingReturn "f" .int, ⟨1, 12⟩⟩ : SemanticError)
      rw [← herrors] at hmem
      obtain ⟨f, hf, -, -, -, hcall⟩ := hmissing p "f" .int ⟨1, 12⟩ hmem
      exact ⟨p, f, rfl, herrors, hf, hcall⟩
  · exact hlists true (.new "p") _ (by decide)

end Primer
