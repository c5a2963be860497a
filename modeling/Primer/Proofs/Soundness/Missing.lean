import Primer.Proofs.Soundness.Origin

/-!
# Globals that are used too early

A function may use every global in front of it, and the initial value of a global may call a function
that stands behind it. So a run can use a global before it is initialised. This module says exactly
when a run stops for that reason.

- `Point.Uses`: the point reads the variable, or stores a value in it.
- `Point.Leads`: the run comes from the point to one that uses a variable which is not there.
- `Program.leads_of_execute`: a run that stops with an unknown variable comes to such a point.
- `checkSource_unknownVariable_iff`: the exact condition, for accepted source texts.
-/

namespace Primer

/-! ## From an error to its origin -/

/-- The point uses the variable `name`: it reads it, or stores a value in it that is evaluated by
then. The machine is the one on which it does so. -/
inductive Point.Uses (ctx : Context) (name : String) (pos : Position) : Point → Machine → Prop where
  | read {c : Checker} {r : Bool} {m : Machine} : Uses ctx name pos ⟨c, r, .expr (.var name pos), m⟩ m
  | store {c : Checker} {r : Bool} {value : Expr} {v : Value} {m m' : Machine}
    (evaluated : ctx.Gives (fun call _ => Run.eval call value) m v m') :
    Uses ctx name pos ⟨c, r, .expr (.assign name value pos), m⟩ m'

/-- The run comes from the point to one that uses the variable `name`, which is not there. -/
def Point.Leads (p : Program) (ctx : Context) (name : String) (pos : Position) (x : Point) : Prop :=
  ∃ y m, Relation.ReflTransGen (Point.Enters p ctx) x y ∧ y.Uses ctx name pos m ∧
    m.env.lookup? name = none

namespace Run

variable {α : Type} {name : String} {pos : Position} {m m' : Machine}

/-- The computation stops because the variable `name`, used at `pos`, is not there. -/
def Misses (name : String) (pos : Position) {α : Type} (x : Run α) (m : Machine) : Prop :=
  ∃ m', x m = .error (.unknownVariable name pos) m'

theorem FindsAll.not_misses {x : Run α} (hx : FindsAll x) : ¬ Misses name pos x m := by
  rintro ⟨m', h⟩
  exact nomatch hx _ _ _ h

theorem orFail_eq_error {a? : Option α} {e e' : RuntimeError} (h : orFail a? e m = .error e' m') :
    e' = e ∧ a? = none := by
  cases a? with
  | none =>
    cases h
    exact ⟨rfl, rfl⟩
  | some a => cases h

theorem assignVar_eq_error {n : String} {v : Value} {pos' : Position}
    (h : assignVar n v pos' m = .error (.unknownVariable name pos) m') :
    n = name ∧ pos' = pos ∧ m.env.lookup? name = none := by
  rcases bind_eq_error (show (orFail (m.env.type? n) (.unknownVariable n pos') >>= fun type =>
    coerce v type pos' >>= fun stored => modifyEnv (fun e => e.assign n stored) >>= fun _ =>
      pure stored) m = _ from h) with hnone | ⟨type, m₁, -, hcoerce⟩
  · obtain ⟨herr, htype⟩ := orFail_eq_error hnone
    cases herr
    exact ⟨rfl, rfl, Option.map_eq_none_iff.mp htype⟩
  · rcases bind_eq_error hcoerce with h | ⟨stored, m₂, -, h⟩
    · exact absurd ⟨_, h⟩ (coerce_plain v type pos').findsAll.not_misses
    · cases h

/-- Errors are not caught, so this one comes from a part. -/
theorem misses_traceable (name : String) (pos : Position) : Traceable (Misses name pos) where
  immediate _ hx := hx.not_misses
  env := by
    rintro m ⟨m', h⟩
    cases h
  modify := by
    rintro f m ⟨m', h⟩
    cases h
  record := by
    rintro e m - ⟨m', h⟩
    cases h
  flush := FindsAll.not_misses (flush_failsWith (fun _ _ => rfl) _ _)
  pending := by
    rintro α m ⟨m', h⟩
    cases h
  seq := by
    rintro α β x f m ⟨m', h⟩
    rcases bind_eq_error h with hx | ⟨a, m₁, hx, hf⟩
    · exact .inl ⟨m', hx⟩
    · exact .inr ⟨a, m₁, hx, m', hf⟩
  closing := by
    rintro α close x m ⟨m', h⟩
    exact closing_eq_error h

end Run

/-- Where the variable is missing, it is used. -/
theorem Point.Origin.uses {ctx : Context} {name : String} {pos : Position} {x : Point}
    (h : x.Origin ctx (Run.Misses name pos)) :
    ∃ m, x.Uses ctx name pos m ∧ m.env.lookup? name = none := by
  cases h with
  | @read _ _ n pos' m effect =>
    obtain ⟨m', hread⟩ := effect
    obtain ⟨herr, hnone⟩ := Run.orFail_eq_error (show Run.orFail (m.env.value? n) _ m = _ from hread)
    cases herr
    exact ⟨m, .read, Option.map_eq_none_iff.mp hnone⟩
  | store evaluated effect =>
    obtain ⟨m', hassign⟩ := effect
    obtain ⟨rfl, rfl, hnone⟩ := Run.assignVar_eq_error hassign
    exact ⟨_, .store evaluated, hnone⟩
  | print _ effect => exact absurd effect (Run.FindsAll.not_misses
      (Run.print_failsWith RuntimeError.isUnknownVariable_of_isPlain (fun _ _ => rfl) _ _ _))

/-- A run that stops with an unknown variable comes to a point that uses it. -/
theorem Program.leads_of_execute {p : Program} {ctx : Context} {name : String} {pos : Position}
    (hctx : ∀ f ∈ ctx.functions, .function f ∈ p.items) {fuel : Nat} {m : Machine}
    (h : p.execute ctx fuel .fresh = .error (.unknownVariable name pos) m) :
    ∃ done x, p.Starts ctx done x ∧ x.Leads p ctx name pos := by
  obtain ⟨done, x, hstart, y, hsteps, horigin⟩ :=
    traces_of_execute (Run.misses_traceable name pos) hctx ⟨m, h⟩
  obtain ⟨m', huses, hnone⟩ := horigin.uses
  exact ⟨done, x, hstart, y, m', hsteps, huses, hnone⟩

/-! ## Static conditions -/

/-- A name is no variable of the frame exactly if no scope around the global one declares it. -/
theorem Frame.Agrees.lookup?_eq_none {G : TypeScope} {n : String} {Γ : TypeScopes} {F : Frame}
    (h : Frame.Agrees G Γ F) : Frame.lookup? F n = none ↔ TypeScopes.type? Γ.dropLast n = none := by
  induction h with
  | globals => simp [Frame.lookup?, TypeScopes.type?]
  | @scope S D Γ F head tail ih =>
    have hne : Γ ≠ [] := by
      rintro rfl
      cases tail
    have hcons : TypeScopes.type? (S :: Γ).dropLast n =
        (S.lookup n).or (TypeScopes.type? Γ.dropLast n) := by
      rw [List.dropLast_cons_of_ne_nil hne, TypeScopes.type?_cons]
    rw [Frame.lookup?_cons, hcons, ← head n, Option.or_eq_none_iff, Option.or_eq_none_iff, ih,
      Option.map_eq_none_iff]

namespace Checker

/-- No scope declares the name exactly if the rules see none that does. -/
theorem type?_map_viewScope (c : Checker) (n : String) (scopes : List StaticScope) :
    TypeScopes.type? (scopes.map c.viewScope) n = none ↔ symbolOf? scopes n = none := by
  unfold TypeScopes.type? symbolOf?
  rw [List.findSome?_eq_none_iff, List.findSome?_eq_none_iff, List.forall_mem_map]
  simp only [viewScope_lookup, Option.map_eq_none_iff]

end Checker

namespace Point

variable {p : Program} {ctx : Context} {name : String} {pos : Position} {G I : TypeScope} {x : Point}
  {m : Machine}

/-- The names in scope where a variable is used: the variables agree with them, and they have a type
for it. -/
theorem Uses.agrees (hctx : ctx.Ok G p.signatures) (hx : x.Ok p.signatures G I)
    (hu : x.Uses ctx name pos m) :
    m.env.Agrees G I x.checker.view ∧ ∃ t, x.checker.view.type? name = some t := by
  cases hu with
  | read =>
    obtain ⟨t, typed⟩ := hx.task
    cases typed with
    | var declared => exact ⟨hx.agrees, t, declared⟩
  | store evaluated =>
    obtain ⟨t, typed⟩ := hx.task
    cases typed with
    | assign typed _ declared _ =>
      obtain ⟨-, hkeeps⟩ := evaluated.satisfies fun fuel =>
        Run.eval_sound (calls_sound_at hctx hx fuel) typed hx.agrees
      exact ⟨hkeeps.agrees, _, declared⟩

/-- A variable is missing exactly if it is a global that is not initialised. -/
theorem Uses.lookup?_eq_none (hctx : ctx.Ok G p.signatures) (hx : x.Ok p.signatures G I)
    (hu : x.Uses ctx name pos m) : m.env.lookup? name = none ↔
      Checker.symbolOf? x.checker.scopes.dropLast name = none ∧ I.lookup name = none := by
  obtain ⟨hagrees, -⟩ := hu.agrees hctx hx
  have hview : x.checker.view.dropLast = x.checker.scopes.dropLast.map x.checker.viewScope :=
    List.map_dropLast.symm
  rw [Environment.lookup?, Option.or_eq_none_iff, hagrees.locals.lookup?_eq_none, hview,
    Checker.type?_map_viewScope, ← hagrees.sound.globals name, Option.map_eq_none_iff]

/-- A point that uses a variable which is missing fails. -/
theorem Uses.fails (hu : x.Uses ctx name pos m) (hnone : m.env.lookup? name = none) :
    x.Fails ctx (.unknownVariable name pos) := by
  cases hu with
  | read =>
    have hvalue : m.env.value? name = none := Option.map_eq_none_iff.mpr hnone
    refine Context.errs_discard.mpr ⟨0, m, ?_⟩
    show Run.orFail (m.env.value? name) _ m = _
    rw [hvalue]
    rfl
  | store evaluated =>
    have htype : m.env.type? name = none := Option.map_eq_none_iff.mpr hnone
    obtain ⟨fuel, hv⟩ := evaluated
    refine Context.errs_discard.mpr ⟨fuel, m, (Run.bind_value hv).trans ?_⟩
    show (Run.orFail (m.env.type? name) _ >>= _) m = _
    rw [htype]
    rfl

end Point

/-! ## Source texts -/

/-- A run of an accepted source text stops with an unknown variable exactly if, while a global is
being initialised, it comes to a point that uses a global which is not initialised by then: a name
that no scope around the global one declares there, and that none of the globals in front has. -/
theorem checkSource_unknownVariable_iff {source : String} {checked : CheckedProgram}
    (h : checkSource source = .ok checked) (config : Config) (sink : Sink) (name : String)
    (pos : Position) :
    (∃ fuel m, checked.program.run config sink fuel = .error (.unknownVariable name pos) m) ↔
      config.refusal? = none ∧ ∃ done d rest x m,
        checked.program.items = done ++ .global d :: rest ∧
        checked.program.Reaches (.ofProgram checked.program config.maxDepth sink) done x ∧
        x.Uses (.ofProgram checked.program config.maxDepth sink) name pos m ∧
        Checker.symbolOf? x.checker.scopes.dropLast name = none ∧
        name ∉ (Item.globals done).map VarDecl.name := by
  have hp := ok_of_checkSource h
  generalize checked.program = p at hp ⊢
  obtain ⟨G, hitems⟩ := hp.items
  have hctx := Context.ofProgram_ok hp.distinct hitems config.maxDepth sink
  have hfunctions : ∀ f ∈ (Context.ofProgram p config.maxDepth sink).functions,
      .function f ∈ p.items := fun f hf => Program.mem_functions.mp (List.mem_reverse.mp hf)
  constructor
  · rintro ⟨fuel, m, hrun⟩
    unfold Program.run at hrun
    cases hrefusal : config.refusal? with
    | some reason =>
      rw [hrefusal] at hrun
      cases hrun
    | none =>
      rw [hrefusal] at hrun
      obtain ⟨done, start, hstart, x, m', hsteps, huses, hnone⟩ :=
        Program.leads_of_execute hfunctions hrun
      have hreaches : p.Reaches _ done x := ⟨start, hstart, hsteps⟩
      obtain ⟨I, hdone, hx⟩ := hreaches.ok hp hitems hctx
      obtain ⟨hscopes, hI⟩ := (huses.lookup?_eq_none hctx hx).mp hnone
      obtain ⟨hagrees, t, ht⟩ := huses.agrees hctx hx
      refine ⟨rfl, done, ?_⟩
      cases hstart with
      | global item _ =>
        exact ⟨_, _, x, m', item, hreaches, huses, hscopes, (hdone.lookup_eq_none.mp hI).2⟩
      | main _ _ _ _ _ =>
        -- Once `main` is called, all globals are initialised.
        have hG : G.lookup name = none := hitems.lookup_eq_none.mpr (hdone.lookup_eq_none.mp hI)
        obtain ⟨-, hsome⟩ := hagrees.uninitialised_of_lookup ht hnone
        rw [hG] at hsome
        cases hsome
  · rintro ⟨hrefusal, done, d, rest, x, m, -, hreaches, huses, hscopes, hname⟩
    obtain ⟨I, hdone, hx⟩ := hreaches.ok hp hitems hctx
    have hI : I.lookup name = none := hdone.lookup_eq_none.mpr ⟨rfl, hname⟩
    have hnone := (huses.lookup?_eq_none hctx hx).mpr ⟨hscopes, hI⟩
    obtain ⟨fuel, m', hrun⟩ := hreaches.fails (huses.fails hnone)
    refine ⟨fuel, m', ?_⟩
    unfold Program.run
    rw [hrefusal]
    exact hrun

/-- A text whose first global calls a function that uses the second one. -/
def earlyUse : String :=
  "Program p; int a = f(); int b = 1; int f() { return b; } int main() { return a; }"

/-- The error that a computation stops with. -/
def Outcome.error? {α : Type} : Outcome α → Option RuntimeError
  | .error e _ => some e
  | .value _ _ | .pending => none

theorem Outcome.eq_error {α : Type} {o : Outcome α} {e : RuntimeError} (h : o.error? = some e) :
    ∃ m, o = .error e m := by
  cases o with
  | error e' m =>
    cases h
    exact ⟨m, rfl⟩
  | value a m => cases h
  | pending => cases h

/-- The text is accepted, and its run stops. -/
theorem checkSource_earlyUse : ∃ checked, checkSource earlyUse = .ok checked ∧
    (checked.program.run (.default .generous) .unbounded 3).error? =
      some (.unknownVariable "b" ⟨1, 53⟩) := by
  have hrun : ((checkSource earlyUse).toOption.bind fun checked =>
      (checked.program.run (.default .generous) .unbounded 3).error?) =
        some (.unknownVariable "b" ⟨1, 53⟩) := by decide +kernel
  cases h : checkSource earlyUse with
  | error e =>
    rw [h] at hrun
    cases hrun
  | ok checked =>
    rw [h] at hrun
    exact ⟨checked, rfl, hrun⟩

theorem earlyUse_stops : ∃ checked, checkSource earlyUse = .ok checked ∧
    ∃ fuel m, checked.program.run (.default .generous) .unbounded fuel =
      .error (.unknownVariable "b" ⟨1, 53⟩) m := by
  obtain ⟨checked, h, hrun⟩ := checkSource_earlyUse
  exact ⟨checked, h, 3, Outcome.eq_error hrun⟩

theorem earlyUse_reaches : ∃ checked, checkSource earlyUse = .ok checked ∧
    ∃ done d rest x m, checked.program.items = done ++ .global d :: rest ∧
      checked.program.Reaches (.ofProgram checked.program Config.defaultMaxDepth .unbounded) done x ∧
      x.Uses (.ofProgram checked.program Config.defaultMaxDepth .unbounded) "b" ⟨1, 53⟩ m ∧
      Checker.symbolOf? x.checker.scopes.dropLast "b" = none ∧
      "b" ∉ (Item.globals done).map VarDecl.name := by
  obtain ⟨checked, h, hrun⟩ := checkSource_earlyUse
  have hstops := (checkSource_unknownVariable_iff h (.default .generous) .unbounded "b" ⟨1, 53⟩).mp
    ⟨3, Outcome.eq_error hrun⟩
  exact ⟨checked, h, hstops.2⟩

end Primer
