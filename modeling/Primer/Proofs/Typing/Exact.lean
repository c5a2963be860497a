import Primer.Proofs.Tree.RoundTrip
import Primer.Proofs.Typing.Complete

/-!
# The checker decides the static rules

The checker walks a program with a list of errors, a stack of scopes and counters, and leaves out
checks whose operands already failed; the static rules (`Program.Ok`) know nothing of this. The two
agree on every program that can be parsed: its declarations stand where the rules expect them
(`Program.Reads.closed`), so what is accepted keeps the rules (`Program.ok_of_check`), and what keeps
the rules is accepted (`Program.check_of_ok`).
-/

namespace Primer

theorem closed_of_parse {tokens : List Lexeme} {p : Program} (h : parse tokens = .ok p) : p.Closed := by
  obtain ⟨rest, hreads, -⟩ := reads_of_parse h
  exact hreads.closed

/-- A program that was parsed is accepted exactly when it keeps the static rules. -/
theorem check_accepts_iff_ok {tokens : List Lexeme} {p : Program} (h : parse tokens = .ok p) :
    (∃ table, check p = .ok table) ↔ p.Ok := by
  constructor
  · rintro ⟨table, hcheck⟩
    exact Program.ok_of_check (closed_of_parse h) hcheck
  · exact Program.check_of_ok

/-- A parameter is hidden by a variable of an inner scope, and the only `return` with a value stands
in a loop. -/
def liveReturn : String :=
  "Program p; int g = 1; int f(char x) \x7b while (g) \x7b string x = \"s\"; print(x); return g; \x7d \x7d"

/-- The same program, with the `return` behind a `break`. -/
def deadReturn : String :=
  "Program p; int g = 1; int f(char x) \x7b while (g) \x7b string x = \"s\"; break; return g; \x7d \x7d"

theorem liveReturn_ok_deadReturn_not_ok :
    (∃ tokens p, tokenize liveReturn = .ok tokens ∧ parse tokens = .ok p ∧ p.Ok) ∧
      ∃ tokens p, tokenize deadReturn = .ok tokens ∧ parse tokens = .ok p ∧ ¬ p.Ok := by
  have hlive : (parseSource liveReturn).toOption.map (fun p => (check p).isOk) = some true := by
    decide +kernel
  have hdead : (parseSource deadReturn).toOption.map (fun p => (check p).isOk) = some false := by
    decide +kernel
  constructor
  · cases hp : parseSource liveReturn with
    | error e => simp [hp, Except.toOption] at hlive
    | ok p =>
      obtain ⟨tokens, htokens, hparse⟩ := parseSource_eq_ok.mp hp
      refine ⟨tokens, p, htokens, hparse, (check_accepts_iff_ok hparse).mp ?_⟩
      cases hcheck : check p with
      | error errors => simp [hp, hcheck, Except.toOption, Except.isOk, Except.toBool] at hlive
      | ok table => exact ⟨table, rfl⟩
  · cases hp : parseSource deadReturn with
    | error e => simp [hp, Except.toOption] at hdead
    | ok p =>
      obtain ⟨tokens, htokens, hparse⟩ := parseSource_eq_ok.mp hp
      refine ⟨tokens, p, htokens, hparse, fun hok => ?_⟩
      obtain ⟨table, hcheck⟩ := (check_accepts_iff_ok hparse).mpr hok
      simp [hp, hcheck, Except.toOption, Except.isOk, Except.toBool] at hdead

end Primer
