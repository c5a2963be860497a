import Primer.Interpreter
import Primer.Proofs.Machine.Cut
import Primer.Proofs.Output.Printing

/-!
# Sinks with limited room

A sink that takes a text whole or not at all, and only as long as there is room, cuts a run short at the
first print call whose text does not fit. Up to there the run is the one with a sink that takes
everything; what it leaves behind is a prefix of that run's output, and it ends between two texts.

- `Sink.FillsUp` says how the two sinks differ.
- `Sink.FillsUp.run_cutShort` compares the runs.
- `Sink.FillsUp.bytes_le`: what the sink took never exceeds its room.
- `Program.Bounded` puts the statements about whole runs together.
-/

namespace Primer

/-- `free` takes every text, and `full` all but those that take the total past `limit` bytes. -/
structure Sink.FillsUp (free full : Sink) (limit : Nat) : Prop where
  takes : ∀ t text, free.write? t text = none
  refuses : ∀ t text, (full.write? t text).isSome ↔
    text ≠ "" ∧ limit < t.bytes + text.utf8ByteSize
  flushes : ∀ t, full.flushRefusal? t = free.flushRefusal? t

theorem Sink.bounded_fillsUp (limit : Nat) : FillsUp .unbounded (.bounded limit) limit where
  takes t text := by
    unfold write?
    split <;> rfl
  refuses t text := by
    unfold write? bounded
    by_cases hempty : text = ""
    · simp [hempty]
    · by_cases hroom : limit < t.bytes + text.utf8ByteSize <;> simp [hempty, hroom]
  flushes t := rfl

/-- A text that does not fit cuts a run short; where it is taken, it is recorded and the run goes on. -/
def Sink.refusedText (limit : Nat) : CutRule :=
  fun e t t' => ∃ reason text pos, e = .output reason pos ∧ limit < t.bytes + text.utf8ByteSize ∧
    t' = t.record (.printed text pos)

namespace Sink.FillsUp

variable {free full : Sink} {limit : Nat} (h : FillsUp free full limit)

include h

/-! ## Runs with the two sinks -/

theorem write_cuts (text : String) (pos : Position) :
    Run.Cuts (refusedText limit) (Run.write full text pos) (Run.write free text pos) := by
  refine ⟨fun m => ?_, (Run.write_steady free text pos).goesOn⟩
  cases hwrite : full.write? m.transcript text with
  | none =>
    left
    rw [Run.write, Run.write, hwrite, h.takes]
  | some reason =>
    right
    have hroom := (h.refuses m.transcript text).mp (by rw [hwrite]; rfl)
    refine ⟨.output reason pos, m, _, ?_, ⟨reason, text, pos, rfl, hroom.2, rfl⟩, ?_⟩
    · rw [Run.write, hwrite]
    · rw [Run.write, h.takes]
      exact Transcript.Before.refl _

theorem flush_cuts (pos : Position) :
    Run.Cuts (refusedText limit) (Run.flush full pos) (Run.flush free pos) := by
  have hflush : Run.flush full pos = Run.flush free pos := by
    funext m
    rw [Run.flush, Run.flush, h.flushes]
  rw [hflush]
  exact (Run.flush_steady free pos).cuts

variable (functions : List FunctionDef) (maxDepth : Nat)

theorem call_cuts : ∀ (fuel : Nat) (f : FunctionDef) (args : List Value) (pos : Position),
    Run.Cuts (refusedText limit) (Context.call ⟨functions, maxDepth, full⟩ fuel f args pos)
      (Context.call ⟨functions, maxDepth, free⟩ fuel f args pos)
  | 0, _, _, _ => Run.Steady.cuts fun _ => trivial
  | fuel + 1, f, args, pos => by
    rw [Context.call_succ, Context.call_succ]
    -- the sink has no part in entering a function
    have henter : Run.Cuts (refusedText limit) (Context.enter ⟨functions, maxDepth, full⟩ f args pos)
        (Context.enter ⟨functions, maxDepth, free⟩ f args pos) :=
      ⟨fun _ => .inl rfl, fun m => Context.enter_goesOn _ f args pos m⟩
    refine henter.bind fun _ => Context.body_cuts ?_ f pos
    exact (Run.cuts_congruence _).dispatch rfl h.write_cuts (call_cuts fuel)

variable {functions maxDepth} (p : Program) (config : Config) (fuel : Nat)

/-- The run with little room is the run with room for everything, cut short. -/
theorem run_cutShort : (p.run config full fuel).CutShort (refusedText limit) (p.run config free fuel) := by
  cases hrefusal : config.refusal? with
  | some reason =>
    left
    rw [Program.run, Program.run, hrefusal]
  | none =>
    rw [Program.run_of_stack hrefusal, Program.run_of_stack hrefusal]
    have hcall := h.call_cuts p.functions.reverse config.maxDepth fuel
    have hcalls : Run.Congruence.Calls (Run.Cuts (refusedText limit))
        ((Context.ofProgram p config.maxDepth full).calls fuel)
        ((Context.ofProgram p config.maxDepth free).calls fuel) :=
      (Run.cuts_congruence _).dispatch rfl h.write_cuts hcall
    exact (p.execute_cuts_of hcalls hcall h.flush_cuts).cut .fresh

/-! ## Room -/

variable {p config fuel} {m : Machine}

/-- What the sink took never exceeds its room. -/
theorem bytes_le (hend : (p.run config full fuel).machine? = some m) : m.transcript.bytes ≤ limit := by
  by_contra hover
  obtain ⟨-, done, x, text, pos, m₀, -, hprints, hbefore, hafter⟩ :=
    Program.prints_of_breaks (I := fun t => t.bytes ≤ limit)
      (by
        intro t e he ht
        cases e with
        | printed text pos => cases he
        | called name depth => exact ht
        | returned result => exact ht)
      (Nat.zero_le limit) hend hover
  -- a text that the sink took fits, or is empty
  cases hprints with
  | print _ _ taken =>
    have hfits : ¬ (text ≠ "" ∧ limit < m₀.transcript.bytes + text.utf8ByteSize) := by
      rw [← h.refuses m₀.transcript text, show full.write? m₀.transcript text = none from taken]
      exact Bool.false_ne_true
    by_cases hempty : text = ""
    · subst hempty
      exact hafter hbefore
    · exact hafter (Nat.le_of_not_lt fun hlt => hfits ⟨hempty, hlt⟩)

end Sink.FillsUp

namespace Transcript

theorem output_record (t : Transcript) (e : Event) : (t.record e).output = t.output ++ e.text := by
  simp [output, history, record]

theorem Before.history_eq {t t' : Transcript} {e : Event} (h : (t.record e).Before t') :
    ∃ later, t'.history = t.history ++ e :: later := by
  obtain ⟨later, hlater⟩ := before_iff_history.mp h
  refine ⟨later, ?_⟩
  rw [← hlater]
  simp [history, record]

end Transcript

/-- The transcript counts the bytes of the output. -/
theorem Program.bytes_of_run {p : Program} {config : Config} {sink : Sink} {fuel : Nat} {m : Machine}
    (hend : (p.run config sink fuel).machine? = some m) :
    m.transcript.bytes = m.transcript.output.utf8ByteSize := by
  have hrecord : ∀ {t : Transcript} (e : Event), t.bytes = t.output.utf8ByteSize →
      (t.record e).bytes = (t.record e).output.utf8ByteSize := by
    intro t e ht
    rw [Transcript.output_record, String.utf8ByteSize_append, ← ht]
    rfl
  by_contra hwrong
  obtain ⟨-, done, x, text, pos, m₀, -, -, hbefore, hafter⟩ :=
    prints_of_breaks (I := fun t => t.bytes = t.output.utf8ByteSize)
      (fun {_ e} _ ht => hrecord e ht) rfl hend hwrong
  exact hafter (hrecord _ hbefore)

/-! ## Whole runs -/

/-- The runs of a program with room for everything, with room for `limit` bytes, and with any sink. -/
structure Program.Bounded (p : Program) (config : Config) (free full : Sink) (limit : Nat) : Prop where
  /-- A run whose output fits is the same run with either sink. -/
  whole : ∀ fuel m, (p.run config free fuel).machine? = some m →
    m.transcript.output.utf8ByteSize ≤ limit → p.run config full fuel = p.run config free fuel
  /-- Any other stops at the print call whose text is the first not to fit. By then it has done what
  the run with room for everything does before that text is printed. -/
  cut : ∀ fuel m, (p.run config free fuel).machine? = some m →
    limit < m.transcript.output.utf8ByteSize → ∃ reason text pos m' later,
      p.run config full fuel = .error (.output reason pos) m' ∧
      m.transcript.history = m'.transcript.history ++ .printed text pos :: later ∧
      m'.transcript.output.utf8ByteSize ≤ limit ∧
      limit < m'.transcript.output.utf8ByteSize + text.utf8ByteSize
  /-- What is in a transcript was printed, and what was printed is in it. -/
  accounts : ∀ sink fuel m, (p.run config sink fuel).machine? = some m → p.Accounts config sink m

/-- Little room cuts runs short between two texts, and does nothing else. -/
theorem Program.bounded_of_fillsUp (p : Program) (config : Config) {free full : Sink} {limit : Nat}
    (h : Sink.FillsUp free full limit) : p.Bounded config free full limit := by
  constructor
  case whole =>
    intro fuel m hend hfits
    rcases h.run_cutShort p config fuel with hsame | ⟨e, m', t, hcut, hstop, hon⟩
    · exact hsame
    · -- the text that did not fit is part of the output, which then does not fit either
      obtain ⟨reason, text, pos, rfl, hover, rfl⟩ := hstop
      have hend' : (p.run config full fuel).machine? = some m' := by
        rw [hcut]
        rfl
      rw [bytes_of_run hend'] at hover
      obtain ⟨more, hmore⟩ := (hon.before hend).output
      have hsize : m.transcript.output.utf8ByteSize =
          m'.transcript.output.utf8ByteSize + text.utf8ByteSize + more.utf8ByteSize := by
        rw [hmore, Transcript.output_record, String.utf8ByteSize_append, String.utf8ByteSize_append]
        rfl
      omega
  case cut =>
    intro fuel m hend hover
    rcases h.run_cutShort p config fuel with hsame | ⟨e, m', t, hcut, hstop, hon⟩
    · rw [← hsame] at hend
      have hle := h.bytes_le hend
      rw [bytes_of_run hend] at hle
      omega
    · obtain ⟨reason, text, pos, rfl, hroom, rfl⟩ := hstop
      have hend' : (p.run config full fuel).machine? = some m' := by
        rw [hcut]
        rfl
      obtain ⟨later, hlater⟩ := (hon.before hend).history_eq
      have hle := h.bytes_le hend'
      rw [bytes_of_run hend'] at hle hroom
      exact ⟨reason, text, pos, m', later, hcut, hlater, hle, hroom⟩
  case accounts =>
    intro sink fuel m hend
    exact accounts_of_run hend

/-- A text that prints while its global is initialised, and twice in `main`. -/
def chatter : String :=
  "Program p; int n = f(); int f() \x7b print(\"ab\"); return 7; \x7d
   int main() \x7b print(\"cd%d\", n); print(\"e\"); return 0; \x7d"

/-- With room for four bytes the second text is refused as a whole, and the third is not tried. -/
theorem chatter_bounded : ∃ checked, checkSource chatter = .ok checked ∧
    (checked.program.run (.default .generous) .unbounded 9).machine?.map (fun m => m.transcript.output) =
      some "abcd7e" ∧
    (checked.program.run (.default .generous) (.bounded 4) 9).machine?.map (fun m => m.transcript.output) =
      some "ab" ∧
    checked.program.Bounded (.default .generous) .unbounded (.bounded 4) 4 := by
  have hrun : (checkSource chatter).toOption.map (fun checked =>
      let run := fun sink => checked.program.run (.default .generous) sink 9
      ((run .unbounded).machine?.map fun m => m.transcript.output,
        (run (.bounded 4)).machine?.map fun m => m.transcript.output)) =
      some (some "abcd7e", some "ab") := by decide +kernel
  cases h : checkSource chatter with
  | error e =>
    rw [h] at hrun
    cases hrun
  | ok checked =>
    rw [h] at hrun
    obtain ⟨hfree, hfull⟩ := Prod.mk.inj (Option.some.inj hrun)
    exact ⟨checked, rfl, hfree, hfull, Program.bounded_of_fillsUp _ _ (Sink.bounded_fillsUp 4)⟩

end Primer
