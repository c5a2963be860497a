import Primer.Interpreter

/-!
# The stages of a source text

What it takes for a text to get through reading and through checking.
-/

namespace Primer

section

variable {ε ε' α β : Type} {x : Except ε α} {k : α → Except ε β} {f : ε → ε'} {a : α} {b : β}

/-- What a stage calls its failures does not matter to its results. -/
theorem mapError_eq_ok : x.mapError f = .ok a ↔ x = .ok a := by
  cases x with
  | error e => constructor <;> intro h <;> cases h
  | ok b => constructor <;> intro h <;> cases h <;> rfl

theorem toOption_eq_some : x.toOption = some a ↔ x = .ok a := by
  cases x with
  | error e => constructor <;> intro h <;> cases h
  | ok b => constructor <;> intro h <;> cases h <;> rfl

/-- A stage runs on the result of the stage before it. -/
theorem andThen_eq_ok : x >>= k = .ok b ↔ ∃ a, x = .ok a ∧ k a = .ok b := by
  cases x with
  | error e =>
    constructor
    · intro h
      cases h
    · rintro ⟨_, h, -⟩
      cases h
  | ok a =>
    constructor
    · exact fun h => ⟨a, rfl, h⟩
    · rintro ⟨_, h, hk⟩
      cases h
      exact hk

end

theorem parseSource_eq_ok {source : String} {p : Program} :
    parseSource source = .ok p ↔ ∃ tokens, tokenize source = .ok tokens ∧ parse tokens = .ok p := by
  unfold parseSource tokenizeSource
  simp only [andThen_eq_ok, mapError_eq_ok]

theorem checkSource_eq_ok_iff {source : String} {checked : CheckedProgram} :
    checkSource source = .ok checked ↔
      parseSource source = .ok checked.program ∧ check checked.program = .ok checked.table := by
  unfold checkSource
  simp only [andThen_eq_ok, mapError_eq_ok]
  constructor
  · rintro ⟨p, hparse, table, hcheck, hchecked⟩
    cases hchecked
    exact ⟨hparse, hcheck⟩
  · rintro ⟨hparse, hcheck⟩
    exact ⟨checked.program, hparse, checked.table, hcheck, rfl⟩

theorem checkSource_eq_ok {source : String} {checked : CheckedProgram}
    (h : checkSource source = .ok checked) :
    ∃ tokens, tokenize source = .ok tokens ∧ parse tokens = .ok checked.program ∧
      check checked.program = .ok checked.table := by
  obtain ⟨hparse, hcheck⟩ := checkSource_eq_ok_iff.mp h
  obtain ⟨tokens, htokens, hparse⟩ := parseSource_eq_ok.mp hparse
  exact ⟨tokens, htokens, hparse, hcheck⟩

end Primer
