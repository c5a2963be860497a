import Primer.Proofs.Soundness.Origin

/-!
# What a run prints

The transcript of a run is an account of its print calls. Each text in it was printed by a call that the
run came to when just the events in front of it were recorded, and each call that printed has its text
there. Nothing that is recorded is taken back.

- `Point.Prints`: the point is a print call that succeeds.
- `Program.prints_of_breaks`: a property of transcripts that no other event breaks is broken by a print
  call, or it holds when the run ends.
- `Program.Reaches.before`: whatever is recorded at a point of a run is recorded when it ends.
- `Program.Accounts` puts the statements about whole runs together.
-/

namespace Primer

variable {α : Type}

/-- The point is a print call that prints `text`: its arguments are evaluated and put into the format,
and the sink takes the text. The machine is the one on which it does so. -/
inductive Point.Prints (ctx : Context) (text : String) (pos : Position) : Point → Machine → Prop where
  | print {c : Checker} {r : Bool} {args : List Expr} {fmt : String} {vs : List Value} {m m' : Machine}
    (evaluated : ctx.Gives (fun call _ => Run.evalAll call args) m (.string fmt :: vs) m')
    (formatted : format fmt vs = .ok text) (taken : ctx.sink.write? m'.transcript text = none) :
    Prints ctx text pos ⟨c, r, .expr (.call printName args pos), m⟩ m'

/-! ## Properties of transcripts -/

section Breaking

variable {I : Transcript → Prop}

/-- The computation breaks `I`: it holds of the transcript before, but not after. -/
def Run.Breaks (I : Transcript → Prop) (x : Run α) (m : Machine) : Prop :=
  I m.transcript ∧ ∃ m', (x m).machine? = some m' ∧ ¬ I m'.transcript

namespace Run

/-- A computation that leaves the transcript alone breaks nothing. -/
theorem not_breaks {x : Run α} {m : Machine}
    (h : (x m).Satisfies (fun _ m' => m'.transcript = m.transcript)
      (fun _ m' => m'.transcript = m.transcript)) : ¬ Breaks I x m := by
  rintro ⟨hm, m', hend, hm'⟩
  rw [Outcome.Satisfies.machine (P := fun m' => m'.transcript = m.transcript) h hend] at hm'
  exact hm' hm

theorem Immediate.not_breaks {x : Run α} (hx : Immediate x) (m : Machine) : ¬ Breaks I x m := by
  cases hx with
  | value a => exact Run.not_breaks rfl
  | error e => exact Run.not_breaks rfl

/-- Assignments record nothing. -/
theorem assignVar_transcript (name : String) (v : Value) (pos : Position) (m : Machine) :
    (assignVar name v pos m).Satisfies (fun _ m' => m'.transcript = m.transcript)
      (fun _ m' => m'.transcript = m.transcript) := by
  rw [assignVar, env_bind_apply]
  cases m.env.type? name with
  | none => rfl
  | some type =>
    show ((coerce v type pos >>= fun stored => modifyEnv (fun env => env.assign name stored) >>= fun _ =>
      pure stored) m).Satisfies _ _
    unfold coerce
    cases v.coerce? type with
    | none => rfl
    | some stored => rfl

/-- If events other than printing keep `I`, breaking it can be traced to a part. -/
theorem breaks_traceable (hI : ∀ {t : Transcript} {e : Event}, e.printed? = none → I t → I (t.record e)) :
    Traceable (Breaks I) where
  immediate hx _ := hx.not_breaks _
  env := not_breaks rfl
  modify := not_breaks rfl
  record := by
    rintro e m he ⟨hm, m', hend, hm'⟩
    cases hend
    exact hm' (hI he hm)
  flush := by
    intro sink pos m
    refine not_breaks ?_
    unfold flush
    split <;> rfl
  pending := not_breaks trivial
  seq := by
    rintro α β x f m ⟨hm, m', hend, hm'⟩
    rw [bind_apply] at hend
    cases hx : x m with
    | value a m₁ =>
      rw [hx] at hend
      -- it is broken by the first part or by the second, according to what holds in between
      by_cases h₁ : I m₁.transcript
      · exact .inr ⟨a, m₁, rfl, h₁, m', hend, hm'⟩
      · refine .inl ⟨hm, m₁, ?_, h₁⟩
        rw [hx]
        rfl
    | error e m₁ =>
      rw [hx] at hend
      refine .inl ⟨hm, m', ?_, hm'⟩
      rw [hx]
      exact hend
    | pending =>
      rw [hx] at hend
      cases hend
  closing := by
    rintro α close x m ⟨hm, m', hend, hm'⟩
    unfold closing at hend
    cases hx : x m with
    | value a m₁ =>
      rw [hx] at hend
      cases hend
      refine ⟨hm, m₁, ?_, hm'⟩
      rw [hx]
      rfl
    | error e m₁ =>
      rw [hx] at hend
      cases hend
      refine ⟨hm, m₁, ?_, hm'⟩
      rw [hx]
      rfl
    | pending =>
      rw [hx] at hend
      cases hend

end Run

/-- Where a property of transcripts is broken, a text is printed. -/
theorem Point.Origin.prints {ctx : Context} {x : Point} (h : x.Origin ctx (Run.Breaks I)) :
    ∃ text pos m, x.Prints ctx text pos m ∧ I m.transcript ∧
      ¬ I (m.transcript.record (.printed text pos)) := by
  cases h with
  | @read _ _ name pos m effect =>
    exact absurd effect ((Run.orFail_immediate (m.env.value? name) _).not_breaks m)
  -- variables are read and stored without a change of the transcript
  | store _ effect => exact absurd effect (Run.not_breaks (Run.assignVar_transcript _ _ _ _))
  | @print c r args pos vs m m' evaluated effect =>
    obtain ⟨hm, m'', hend, hm''⟩ := effect
    -- a property that holds before can only be broken by a text that the sink takes
    rcases Run.print_cases vs pos with ⟨e, -, hfail⟩ | ⟨fmt, rest, text, rfl, hformat, hwrite⟩
    · rw [hfail] at hend
      cases hend
      exact absurd hm hm''
    · rw [hwrite, Run.bind_apply, Run.write] at hend
      cases htaken : ctx.sink.write? m'.transcript text with
      | some reason =>
        rw [htaken] at hend
        cases hend
        exact absurd hm hm''
      | none =>
        rw [htaken] at hend
        cases hend
        exact ⟨text, pos, m', .print evaluated hformat htaken, hm, hm''⟩

theorem Program.function_mem_items {p : Program} {maxDepth : Nat} {sink : Sink} :
    ∀ f ∈ (Context.ofProgram p maxDepth sink).functions, .function f ∈ p.items := by
  intro f hf
  exact mem_functions.mp (List.mem_reverse.mp hf)

/-- A property of transcripts that no other event breaks is broken by a print call, if a run breaks
it. -/
theorem Program.prints_of_breaks {p : Program} {config : Config} {sink : Sink} {fuel : Nat} {m : Machine}
    (hI : ∀ {t : Transcript} {e : Event}, e.printed? = none → I t → I (t.record e)) (h₀ : I .empty)
    (hend : (p.run config sink fuel).machine? = some m) (hm : ¬ I m.transcript) :
    config.refusal? = none ∧ ∃ done x text pos m₀,
      p.Reaches (.ofProgram p config.maxDepth sink) done x ∧
      x.Prints (.ofProgram p config.maxDepth sink) text pos m₀ ∧ I m₀.transcript ∧
      ¬ I (m₀.transcript.record (.printed text pos)) := by
  cases hrefusal : config.refusal? with
  | some reason =>
    rw [run, hrefusal] at hend
    cases hend
    exact absurd h₀ hm
  | none =>
    rw [run_of_stack hrefusal] at hend
    obtain ⟨done, start, hstart, x, hsteps, horigin⟩ :=
      traces_of_execute (Run.breaks_traceable hI) function_mem_items ⟨h₀, m, hend, hm⟩
    obtain ⟨text, pos, m₀, hprints, hbefore, hafter⟩ := horigin.prints
    exact ⟨rfl, done, x, text, pos, m₀, ⟨start, hstart, hsteps⟩, hprints, hbefore, hafter⟩

end Breaking

/-! ## From a point to the end of the run -/

theorem Transcript.before_iff_history {t t' : Transcript} : t.Before t' ↔ t.history <+: t'.history :=
  List.reverse_prefix.symm

/-- A print call that succeeds has recorded its text. -/
theorem Point.Prints.comesTo {ctx : Context} {text : String} {pos : Position} {x : Point} {m : Machine}
    (h : x.Prints ctx text pos m) :
    x.ComesTo ctx (.value () { m with transcript := m.transcript.record (.printed text pos) }) := by
  cases h with
  | @print c r args fmt vs m₀ _ evaluated formatted taken =>
    obtain ⟨n, hargs⟩ := evaluated.eventually fun h _ => Run.evalAll_mono h args
    refine ⟨n, fun fuel hfuel => ?_⟩
    have hwrite : Run.write ctx.sink text pos m =
        .value () { m with transcript := m.transcript.record (.printed text pos) } := by
      rw [Run.write, taken]
    have hcall : ctx.calls fuel printName (.string fmt :: vs) pos m =
        .value .void { m with transcript := m.transcript.record (.printed text pos) } := by
      rw [Context.calls, Context.dispatch, if_pos rfl, Run.print, formatted]
      exact Run.bind_value hwrite
    exact Run.bind_value ((Run.bind_value (hargs fuel hfuel)).trans hcall)

namespace Program

variable {p : Program} {ctx : Context} {done : List Item} {x : Point} {fuel : Nat} {m : Machine}

/-- What a run does at a point shows when the run ends. -/
theorem Reaches.before {o : Outcome Unit} {t : Transcript} (hr : p.Reaches ctx done x)
    (hx : x.ComesTo ctx o) (ho : o.GoesOn t) (hend : (p.execute ctx fuel .fresh).machine? = some m) :
    t.Before m.transcript := by
  obtain ⟨n, hn⟩ := hr.carries hx
  have hsame := (p.execute_mono ctx (Nat.le_max_left fuel n) .fresh).eq
    (Outcome.ne_pending_of_machine? hend)
  rw [← hsame] at hend
  exact ((hn _ (Nat.le_max_right fuel n)).goesOn ho).before hend

/-- What is recorded at a point of a run is recorded when it ends. -/
theorem Reaches.transcript_before (hr : p.Reaches ctx done x)
    (hend : (p.execute ctx fuel .fresh).machine? = some m) :
    x.machine.transcript.Before m.transcript := by
  obtain ⟨o, n, hn⟩ := x.exists_comesTo ctx
  refine hr.before ⟨n, hn⟩ ?_ hend
  rw [← hn n (Nat.le_refl n)]
  exact (Task.run_steady (ctx.calls_steady n) n x.task).goesOn x.machine

end Program

/-! ## Whole runs -/

/-- Other events add nothing to the output. -/
theorem Event.join_texts (events : List Event) :
    String.join (events.map Event.text) = String.join (events.filterMap Event.printed?) := by
  induction events with
  | nil => rfl
  | cons e events ih =>
    rw [List.map_cons, List.filterMap_cons, String.join_cons, ih]
    cases e with
    | printed text pos => exact (String.join_cons ..).symm
    | called name depth => exact String.empty_append
    | returned result => exact String.empty_append

/-- What the transcript of a run that ended on `m` says of its print calls. -/
structure Program.Accounts (p : Program) (config : Config) (sink : Sink) (m : Machine) : Prop where
  /-- The output is put together from the printed texts, in order. -/
  output : m.transcript.output = String.join (m.transcript.history.filterMap Event.printed?)
  /-- A text was printed after the events `earlier`, and at `pos`, exactly if the run came to a print
  call there which printed it when these events were recorded. -/
  printed : ∀ earlier text pos, earlier ++ [.printed text pos] <+: m.transcript.history ↔
    config.refusal? = none ∧ ∃ done x m₀, p.Reaches (.ofProgram p config.maxDepth sink) done x ∧
      x.Prints (.ofProgram p config.maxDepth sink) text pos m₀ ∧ m₀.transcript.history = earlier
  /-- What was recorded at a point of the run is still there. -/
  kept : config.refusal? = none → ∀ done x, p.Reaches (.ofProgram p config.maxDepth sink) done x →
    x.machine.transcript.history <+: m.transcript.history

namespace Program

variable {p : Program} {config : Config} {sink : Sink} {fuel : Nat} {m : Machine}

/-- A text that was printed was printed by a call. -/
theorem reaches_of_printed {earlier : List Event} {text : String} {pos : Position}
    (hend : (p.run config sink fuel).machine? = some m)
    (h : earlier ++ [.printed text pos] <+: m.transcript.history) :
    config.refusal? = none ∧ ∃ done x m₀, p.Reaches (.ofProgram p config.maxDepth sink) done x ∧
      x.Prints (.ofProgram p config.maxDepth sink) text pos m₀ ∧ m₀.transcript.history = earlier := by
  -- it was not there from the beginning, and only this event brings it there
  have hsuffix : .printed text pos :: earlier.reverse <:+ m.transcript.events := by
    rw [← List.reverse_prefix, List.reverse_cons, List.reverse_reverse]
    exact h
  obtain ⟨hrefusal, done, x, text', pos', m₀, hreaches, hprints, hbefore, hafter⟩ :=
    prints_of_breaks (I := fun t => ¬ .printed text pos :: earlier.reverse <:+ t.events)
      (by
        intro t e he ht hrecord
        rcases List.suffix_cons_iff.mp hrecord with heq | hlater
        · obtain ⟨rfl, -⟩ := List.cons_eq_cons.mp heq
          cases he
        · exact ht hlater)
      (by
        intro hempty
        cases List.suffix_nil.mp hempty) hend (not_not.mpr hsuffix)
  refine ⟨hrefusal, done, x, m₀, hreaches, ?_⟩
  rcases List.suffix_cons_iff.mp (not_not.mp hafter) with heq | hlater
  · obtain ⟨hevent, hearlier⟩ := List.cons_eq_cons.mp heq
    cases hevent
    refine ⟨hprints, ?_⟩
    rw [Transcript.history, ← hearlier, List.reverse_reverse]
  · exact absurd hlater hbefore

/-- The transcript of a run is an account of its print calls, whether the run fails or not. -/
theorem accounts_of_run (hend : (p.run config sink fuel).machine? = some m) :
    p.Accounts config sink m where
  output := Event.join_texts _
  printed := by
    intro earlier text pos
    constructor
    · exact reaches_of_printed hend
    · rintro ⟨hrefusal, done, x, m₀, hreaches, hprints, rfl⟩
      rw [run_of_stack hrefusal] at hend
      have hbefore := hreaches.before hprints.comesTo (Transcript.Before.refl _) hend
      rw [Transcript.before_iff_history] at hbefore
      simpa [Transcript.history, Transcript.record] using hbefore
  kept := by
    intro hrefusal done x hreaches
    rw [run_of_stack hrefusal] at hend
    exact Transcript.before_iff_history.mp (hreaches.transcript_before hend)

end Program

end Primer
