import Primer.Proofs.Flow.Exit
import Primer.Proofs.Flow.Placement
import Primer.Proofs.Flow.Walk
import Primer.Proofs.Soundness.Program

/-!
# Bodies that always return

In an accepted program a `break` stands inside a loop or switch, so no function body is left by one. A
body that the checker says always returns is left by a `return`, if it is left at all, and a call of its
function never lacks a value.

- `Stmt.ListPlaced.hasBreak`: where every `break` is in its place, none leaves a function.
- `FunctionDef.AlwaysReturns`: the body of the function is left by a `return` only.
- `Program.run_failsWith`: no run lacks the value of a function whose body always returns.
- `check_definite_return` is the statement about accepted programs, whether or not they come from a text.
-/

namespace Primer

/-! ## No `break` leaves a function -/

mutual

/-- Outside of loops and switches there is no `break`. -/
theorem Stmt.Placed.hasBreak : ∀ {s : Stmt}, s.Placed false → s.hasBreak = false
  | .block _ _, h => by
    rw [Stmt.Placed] at h
    rw [Stmt.hasBreak]
    exact h.hasBreak
  | .branch _ _ none _, h => by
    rw [Stmt.Placed] at h
    rw [Stmt.hasBreak]
    exact h.hasBreak
  | .branch _ _ (some _) _, h => by
    rw [Stmt.Placed] at h
    rw [Stmt.hasBreak, h.1.hasBreak, h.2.hasBreak]
    rfl
  | .brk _, h => by
    rw [Stmt.Placed] at h
    cases h
  | .declare _, _ => by rw [Stmt.hasBreak]
  | .eval _ _, _ => by rw [Stmt.hasBreak]
  | .whileLoop _ _ _, _ => by rw [Stmt.hasBreak]
  | .forLoop _ _ _ _ _, _ => by rw [Stmt.hasBreak]
  | .switch _ _ _, _ => by rw [Stmt.hasBreak]
  | .ret _ _, _ => by rw [Stmt.hasBreak]

theorem Stmt.ListPlaced.hasBreak : ∀ {body : List Stmt},
    Stmt.ListPlaced false body → Stmt.listHasBreak body = false
  | [], _ => by rw [Stmt.listHasBreak]
  | _ :: _, h => by
    rw [Stmt.ListPlaced] at h
    rw [Stmt.listHasBreak, h.1.hasBreak, h.2.hasBreak]
    rfl

end

/-- The body of a function is left by a `return`, if it is left at all. -/
def FunctionDef.AlwaysReturns (f : FunctionDef) : Prop :=
  ∀ (call : Call) (fuel : Nat), (Run.execAll call fuel f.body).Yields fun flow => ∃ v, flow = .ret v

theorem FunctionDef.alwaysReturns {f : FunctionDef} (hbreak : Stmt.listHasBreak f.body = false)
    (hexit : Stmt.listExit f.body = .returns) : f.AlwaysReturns := by
  intro call fuel m flow m' h
  have hleaves := Run.execAll_yields f.body m flow m' h
  cases flow with
  | normal =>
    rw [Stmt.ListLeaves, Flow.Allowed, hexit] at hleaves
    cases hleaves
  | brk =>
    rw [Stmt.ListLeaves, Flow.Allowed, hbreak] at hleaves
    cases hleaves
  | ret v => exact ⟨v, rfl⟩

/-! ## No value is missing -/

/-- The error says that a call of the function of this name has no value. -/
def RuntimeError.lacksValueOf (name : String) : RuntimeError → Bool
  | .missingReturnValue n _ => n == name
  | _ => false

theorem RuntimeError.lacksValueOf_covers (name : String) :
    Covers fun e => e.lacksValueOf name = false where
  plain e h := by
    cases e with
    | missingReturnValue n pos => cases h
    | _ => rfl
  unknownVariable _ _ := rfl
  output _ _ := rfl
  stackOverflow _ _ := rfl
  argumentCount _ _ _ _ := rfl

namespace Program

variable {p : Program} {f : FunctionDef}

/-- The only function of the name is the one whose body always returns. -/
theorem call_failsWith (hdistinct : (p.functions.map FunctionDef.name).Nodup) (hf : f ∈ p.functions)
    (hreturns : f.AlwaysReturns) (maxDepth : Nat) (sink : Sink) (fuel : Nat) {g : FunctionDef}
    (hg : g ∈ p.functions) (args : List Value) (pos : Position) : ((Context.ofProgram p maxDepth sink).call fuel g args pos).FailsWith
      fun e => e.lacksValueOf f.name = false := by
  refine Context.call_failsWith _ (RuntimeError.lacksValueOf_covers f.name) ?_ fuel g
    (List.mem_reverse.mpr hg) args pos
  intro g hg call fuel m flow m' h hleft
  have hg : g ∈ p.functions := List.mem_reverse.mp hg
  -- the error names the function that was called, and names are distinct in an accepted program
  by_cases hname : g.name = f.name
  · obtain rfl : g = f := by
      have hfound := (FunctionDef.find?_eq_some_iff hdistinct).mpr ⟨hg, hname⟩
      rw [(FunctionDef.find?_eq_some_iff hdistinct).mpr ⟨hf, rfl⟩] at hfound
      exact (Option.some.inj hfound).symm
    obtain ⟨v, hv⟩ := hreturns call fuel m flow m' h
    exact absurd hv (hleft v)
  · exact beq_eq_false_iff_ne.mpr hname

/-- No run lacks the value of a function whose body always returns. -/
theorem run_failsWith (hdistinct : (p.functions.map FunctionDef.name).Nodup) (hf : f ∈ p.functions)
    (hreturns : f.AlwaysReturns) {config : Config} {sink : Sink} {fuel : Nat} {e : RuntimeError}
    {m : Machine}
    (h : p.run config sink fuel = .error e m) : e.lacksValueOf f.name = false := by
  have hP := RuntimeError.lacksValueOf_covers f.name
  unfold run at h
  split at h
  · cases h
    rfl
  -- an error may come from a global, from finding `main`, or from the call of `main`
  let ctx := Context.ofProgram p config.maxDepth sink
  have hcall : ∀ g ∈ p.functions, ∀ args pos, (ctx.call fuel g args pos).FailsWith
      fun e => e.lacksValueOf f.name = false :=
    fun g hg => call_failsWith hdistinct hf hreturns config.maxDepth sink fuel hg
  have hglobals : (Run.declareAll (ctx.calls fuel) p.globals).FailsWith
      fun e => e.lacksValueOf f.name = false :=
    @Run.Congruence.declareAll _ (ctx.calls fuel) (ctx.calls fuel)
      (Run.failsWith_congruence hP.plain hP.unknownVariable)
      (ctx.calls_failsWith hP fun g hg => hcall g (List.mem_reverse.mp hg)) p.globals
  have hmain : (p.callMain ctx fuel).FailsWith fun e => e.lacksValueOf f.name = false := by
    rcases p.callMain_cases with ⟨e, he, hfail⟩ | ⟨g, hg, -, heq⟩
    · rw [hfail]
      rcases he with rfl | ⟨pos, rfl⟩
      · exact Run.fail_failsWith rfl
      · exact Run.fail_failsWith rfl
    · rw [heq]
      refine (hcall g (List.mem_of_find?_eq_some hg) [] g.pos).bind fun v => ?_
      refine (Run.failsWith_of_value fun _ => ⟨(), _, rfl⟩).bind fun _ => ?_
      exact Run.flush_failsWith hP.output _ _
  exact (hglobals.bind fun _ => hmain) _ _ _ h

end Program

/-- In an accepted program no function body is left by a `break`, whatever calls mean, on any machine
and with any fuel. A body that the checker says returns is left by a `return`, if it is left at all. So
neither a run of the program nor a call of one of its functions on any machine stops because a value of
that function is missing. -/
theorem check_definite_return {p : Program} {table : CrossReference} (h : check p = .ok table)
    {f : FunctionDef} (hf : f ∈ p.functions) :
    (∀ (call : Call) (fuel : Nat) (m m' : Machine),
      Run.execAll call fuel f.body m ≠ .value .brk m') ∧
    ∀ (r : Bool) (c : Checker), ((Check.stmts r f.body).run c).1 = .returns →
      (∀ (call : Call) (fuel : Nat) (m m' : Machine) (flow : Flow),
        Run.execAll call fuel f.body m = .value flow m' → ∃ v, flow = .ret v) ∧
      (∀ (config : Config) (sink : Sink) (fuel : Nat) (pos : Position) (m : Machine),
        p.run config sink fuel ≠ .error (.missingReturnValue f.name pos) m) ∧
      ∀ (maxDepth : Nat) (sink : Sink) (fuel : Nat) (g : FunctionDef), g ∈ p.functions →
        ∀ (args : List Value) (pos pos' : Position) (m m' : Machine),
          (Context.ofProgram p maxDepth sink).call fuel g args pos m ≠
            .error (.missingReturnValue f.name pos') m' := by
  have hdistinct := Program.distinct_of_check h
  have hbreak := (Program.placed_of_check h hf).hasBreak
  constructor
  · intro call fuel m m' hbrk
    have hleaves : Stmt.listHasBreak f.body = true := Run.execAll_yields f.body m .brk m' hbrk
    rw [hbreak] at hleaves
    cases hleaves
  · intro r c hexit
    rw [Check.stmts_exit] at hexit
    have hreturns : f.AlwaysReturns := FunctionDef.alwaysReturns hbreak hexit
    refine ⟨fun call fuel m m' flow => hreturns call fuel m flow m', ?_, ?_⟩
    · intro config sink fuel pos m hrun
      have hlacks := Program.run_failsWith hdistinct hf hreturns hrun
      simp [RuntimeError.lacksValueOf] at hlacks
    · intro maxDepth sink fuel g hg args pos pos' m m' hcall
      have hlacks :=
        Program.call_failsWith hdistinct hf hreturns maxDepth sink fuel hg args pos _ _ _ hcall
      simp [RuntimeError.lacksValueOf] at hlacks

/-- A function whose last statement returns on both sides. The `break` before it leaves the loop only. Its
first statement declares a variable as the whole branch of an `if`, which no text can do. -/
def looseDeclaration : Program where
  name := "p"
  items := [.function {
    name := "f"
    params := [⟨"n", .int, .start⟩]
    returns := .int
    body := [
      .branch (.var "n" .start) (.declare ⟨.int, "k", none, .start⟩) none .start,
      .whileLoop (.var "n" .start) (.branch (.var "k" .start) (.brk .start) none .start) .start,
      .branch (.var "n" .start) (.ret (some (.var "k" .start)) .start)
        (some (.ret (some (.literal (.int 0) .start)) .start)) .start]
    bodyPos := .start
    pos := .start }]
  pos := .start

/-- Calls of the function always find a value. -/
theorem looseDeclaration_definite_return : ∃ table f, check looseDeclaration = .ok table ∧
    f ∈ looseDeclaration.functions ∧ ((Check.stmts true f.body).run (.new "p")).1 = .returns ∧
    (∀ (call : Call) (fuel : Nat) (m m' : Machine), Run.execAll call fuel f.body m ≠ .value .brk m') ∧
    (∀ (call : Call) (fuel : Nat) (m m' : Machine) (flow : Flow),
      Run.execAll call fuel f.body m = .value flow m' → ∃ v, flow = .ret v) ∧
    ∀ (config : Config) (sink : Sink) (fuel : Nat) (pos : Position) (m : Machine),
      looseDeclaration.run config sink fuel ≠ .error (.missingReturnValue f.name pos) m := by
  have hok : (check looseDeclaration).isOk = true := by decide +kernel
  cases hcheck : check looseDeclaration with
  | error e =>
    rw [hcheck] at hok
    cases hok
  | ok table =>
    obtain ⟨f, hf⟩ : ∃ f, looseDeclaration.functions = [f] := ⟨_, rfl⟩
    have hmem : f ∈ looseDeclaration.functions := hf ▸ List.mem_singleton_self f
    have hexit : ((Check.stmts true f.body).run (.new "p")).1 = .returns := by
      cases hf
      decide +kernel
    obtain ⟨hbreak, hreturns⟩ := check_definite_return hcheck hmem
    obtain ⟨hflow, hrun, -⟩ := hreturns true (.new "p") hexit
    exact ⟨table, f, rfl, hmem, hexit, hbreak, hflow, hrun⟩

end Primer
