import Primer.Proofs.Machine.Steady
import Primer.Proofs.Naming.Distinct
import Primer.Proofs.Naming.Simulation
import Primer.Proofs.Soundness.Checked

/-!
# Programs under the names of their symbols

A call of a function and a call of the renamed function do the same, from whatever variables the callers
have: both open a frame of their own, and both leave the frames below it alone. So calls do the same
with any amount of fuel, and then whole runs do.

- `Context.call_renamed` is the step: one more unit of fuel.
- `Context.calls_renamed` is the statement for calls, by induction on the fuel.
- `Item.Walk.declareAll_renamed` initialises the globals, along the walk over the items.
- `Program.run_renamed` is the statement for whole runs.
- `Program.BindsAlike` puts everything together: the checker and the run bind every name to the same
  declaration, so that names do not matter once each declaration has its own.
-/

namespace Primer

variable {fresh : Nat → String} {G : StaticScope} {Δ : List StaticScope} {sigs : Signatures}

/-! ## Parameters -/

namespace Run

theorem coerceArgs_renamed (pos : Position) : ∀ (params : List Param) (args : List Value) (c : Checker),
    coerceArgs pos (Param.renamedAll fresh c params) args = coerceArgs pos params args
  | [], _, _ => rfl
  | _ :: _, [], _ => rfl
  | p :: params, v :: args, c => by
    rw [Param.renamedAll, coerceArgs, coerceArgs, coerceArgs_renamed pos params args]

/-- As many values are stored as there are parameters. -/
theorem coerceArgs_length {pos : Position} {m m' : Machine} :
    ∀ {params : List Param} {args stored : List Value}, args.length = params.length →
      coerceArgs pos params args m = .value stored m' → stored.length = params.length
  | [], [], _, _, h => by
    cases h
    rfl
  | p :: params, v :: args, stored, hlen, h => by
    rw [coerceArgs] at h
    obtain ⟨v', m₁, hv, h⟩ := bind_eq_value h
    have hm₁ := (coerce_plain v p.type pos).immediate.unchanged m
    rw [hv] at hm₁
    cases hm₁
    obtain ⟨rest, m₂, hrest, h⟩ := bind_eq_value h
    have hm₂ := (coerceArgs_plain pos params args).immediate.unchanged m
    rw [hrest] at hm₂
    cases hm₂
    cases h
    exact congrArg Nat.succ (coerceArgs_length (Nat.succ.inj hlen) hrest)

/-- Declaring the parameters of a function in the scope of its frame. -/
theorem bindParams_renamed (hfresh : Function.Injective fresh) :
    ∀ {params : List Param} {stored : List Value} {c : Checker}, Check.ParamsOk c params →
      c.Distinct → 2 ≤ c.scopes.length → stored.length = params.length →
      Simulates (Machine.Renames fresh G c.scopes) (bindParams params stored)
        (bindParams (Param.renamedAll fresh c params) stored)
        (Machine.Renames fresh G ((params.forM Check.param).after c).scopes)
  | [], [], c, _, _, _, _ => simulates_pure ()
  | p :: params, v :: stored, c, hok, hd, hlen, hstored => by
    obtain ⟨-, hdeclares, -, htail⟩ := hok.declares
    have hlen₁ : 2 ≤ ((Check.param p).after c).scopes.length := by
      rw [hdeclares.scopes, List.length_modifyHead]
      exact hlen
    rw [Param.renamedAll, bindParams, bindParams]
    refine (define_renamed hfresh hok.valid hd hlen hdeclares p.type v).bind fun _ => ?_
    exact bindParams_renamed hfresh htail (hdeclares.distinct hok.valid hd) hlen₁
      (Nat.succ.inj hstored)

end Run

/-! ## Calls -/

/-- What stays the same during the two runs: the limit, the sink, and functions that are renamed. -/
structure Context.Renames (fresh : Nat → String) (sigs : Signatures) (G : StaticScope)
    (ctx ctx' : Context) : Prop where
  functions : ∀ name,
    (∃ f f', ctx.function? name = some f ∧ ctx'.function? name = some f' ∧
      f.Renames fresh sigs G f') ∨
    ctx.function? name = none ∧ ctx'.function? name = none
  maxDepth : ctx'.maxDepth = ctx.maxDepth
  sink : ctx'.sink = ctx.sink

/-- What a call leaves behind besides its frame. -/
def Machine.RenamesGlobals (fresh : Nat → String) (G : StaticScope) (m m' : Machine) : Prop :=
  Scope.RenamesGlobals fresh G m.env.globals m'.env.globals ∧ m'.transcript = m.transcript

namespace Context

variable {ctx ctx' : Context} {c : Checker} {g : TypeScope} {scope : StaticScope} {f : FunctionDef}

section Enter

variable (hfresh : Function.Injective fresh) (top : c.AtTop sigs) (ok : f.Ok sigs g)
  (hscope : c.scopes = [scope]) (within : StaticScope.Within scope G)

include hfresh top ok hscope within

/-- A frame is opened on both sides, and the parameters are declared in it. -/
theorem openFrame_renamed {stored : List Value} (hstored : stored.length = f.params.length) :
    Run.Simulates (Machine.Renames fresh G Δ)
      (do
        Run.modifyEnv .pushFrame
        Run.record (.called f.name (← Run.env).depth)
        Run.bindParams f.params stored)
      (do
        Run.modifyEnv .pushFrame
        Run.record (.called f.name (← Run.env).depth)
        Run.bindParams (f.renamed fresh c).params stored)
      (Machine.Renames fresh G (c.enterFunction f).scopes) := by
  have hscopes : (c.enterRoutine f.name).pushScope.scopes = [[], scope] := congrArg ([] :: ·) hscope
  have hparams : Run.Simulates (Machine.Renames fresh G [[], scope]) (Run.bindParams f.params stored)
      (Run.bindParams (f.renamed fresh c).params stored)
      (Machine.Renames fresh G (c.enterFunction f).scopes) := by
    rw [← hscopes]
    refine Run.bindParams_renamed hfresh (Check.paramsOk_of_ok top.atItems ok) top.distinct ?_ hstored
    rw [hscopes]
    exact Nat.le_refl 2
  refine Run.Simulates.bind (R := Machine.Renames fresh G [[], scope]) ?_ fun _ => ?_
  · exact Run.simulates_modifyEnv fun m m' hm => ⟨hm.env.pushFrame within, hm.transcript⟩
  · -- both sides record the same depth
    intro m m' hm
    rw [Run.env_bind_apply, Run.env_bind_apply, hm.env.depth]
    exact (Run.simulates_record.bind fun _ => hparams) m m' hm

/-- A function is entered on both sides, with its parameters in scope. -/
theorem enter_renamed (h : ctx.Renames fresh sigs G ctx') (args : List Value) (pos : Position) :
    Run.Simulates (Machine.Renames fresh G Δ) (ctx.enter f args pos)
      (ctx'.enter (f.renamed fresh c) args pos)
      (Machine.Renames fresh G (c.enterFunction f).scopes) := by
  have hlength : (f.renamed fresh c).params.length = f.params.length := by
    have htype : (f.renamed fresh c).type = f.type := FunctionDef.type_renamed f c
    simpa [FunctionDef.type] using congrArg (fun t => t.params.length) htype
  intro m m' hm
  rw [enter, enter, Run.env_bind_apply, Run.env_bind_apply, h.maxDepth, hm.env.depth, hlength]
  by_cases hdepth : ctx.maxDepth ≤ m.env.depth
  · rw [if_pos hdepth, if_pos hdepth]
    exact .error (.refl _) hm.transcript
  · rw [if_neg hdepth, if_neg hdepth]
    by_cases hargs : args.length = f.params.length
    · rw [if_neg (not_not.mpr hargs), if_neg (not_not.mpr hargs)]
      show (Run.bind _ _ m).Matches _
        ((Run.coerceArgs pos (Param.renamedAll fresh _ f.params) args >>= _) m')
      rw [Run.coerceArgs_renamed]
      -- coercion is the same on both sides and touches no machine: it gives values or fails
      have hstored : ∀ stored, Run.coerceArgs pos f.params args m = .value stored m →
          stored.length = f.params.length := fun stored hs => Run.coerceArgs_length hargs hs
      have hplain := Run.coerceArgs_plain pos f.params args
      generalize Run.coerceArgs pos f.params args = x at hstored hplain
      cases hplain with
      | value stored =>
        exact openFrame_renamed hfresh top ok hscope within (hstored stored rfl) m m' hm
      | @error e _ => exact .error (.refl e) hm.transcript
    · rw [if_pos hargs, if_pos hargs]
      exact .error (.refl _) hm.transcript

end Enter

/-- One more unit of fuel: a call of a function and one of the renamed function. Their frames are closed
again, so that the variables of the callers are as before. -/
theorem call_renamed (h : ctx.Renames fresh sigs G ctx') {fuel : Nat}
    (hcalls : Run.Renaming fresh G (ctx.calls fuel) (ctx'.calls fuel)) {f' : FunctionDef}
    (hf : f.Renames fresh sigs G f') (args : List Value) (pos : Position) :
    Run.Simulates (Machine.Renames fresh G Δ) (ctx.call (fuel + 1) f args pos)
      (ctx'.call (fuel + 1) f' args pos) (Machine.Renames fresh G Δ) := by
  obtain @⟨c, g, scope, f, top, view, ok, hscope, within⟩ := hf
  -- a call gives the frames back as they were, so only the globals have to be followed through the body
  have hresumes := ctx.call_resumes (Run.execAll_steady (ctx.calls_steady fuel) (fuel + 1) f.body)
    args pos
  have hresumes' := ctx'.call_resumes (f := f.renamed fresh c)
    (Run.execAll_steady (ctx'.calls_steady fuel) (fuel + 1) _) args pos
  have hglobals : Run.Simulates (Machine.Renames fresh G Δ) (ctx.call (fuel + 1) f args pos)
      (ctx'.call (fuel + 1) (f.renamed fresh c) args pos) (Machine.RenamesGlobals fresh G) := by
    obtain ⟨hin, hsigs, hview⟩ := top.enterFunction view ok
    obtain ⟨Γ, hbody⟩ := ok.body
    rw [← hsigs, ← hview] at hbody
    rw [call_succ, call_succ]
    refine (enter_renamed hcalls.injective top ok hscope within h args pos).bind fun _ => ?_
    refine Run.Simulates.bind (R := Machine.RenamesGlobals fresh G) (Run.Simulates.closing ?_) ?_
    · refine (Run.execAll_renamed hcalls (fuel + 1) f.body true hin hbody).imp ?_
      -- the body may be left early; which of its variables are in scope then makes no difference here
      rintro m m' ⟨Δ', -, hm⟩
      exact ⟨hm.env.globals, hm.transcript⟩
    · intro flow
      exact (Run.result_immediate f flow pos).simulates_of fun _ _ hm => hm.2
  intro m m' hm
  refine ((hglobals m m' hm).and (hresumes m) (hresumes' m')).imp ?_
  rintro m₁ m₁' ⟨hm₁, hframes, hframes'⟩
  exact ⟨hm.env.of_frames hm₁.1 hframes.frames hframes'.frames, hm₁.2⟩

/-- Calls by name do the same, given that calls of functions do. -/
theorem dispatch_renamed (h : ctx.Renames fresh sigs G ctx')
    {enter enter' : FunctionDef → List Value → Position → Run Value}
    (henter : ∀ {f f'}, f.Renames fresh sigs G f' → ∀ args pos Δ, Run.Simulates
      (Machine.Renames fresh G Δ) (enter f args pos) (enter' f' args pos)
      (Machine.Renames fresh G Δ)) :
    Run.CallsRename fresh G (ctx.dispatch enter) (ctx'.dispatch enter') := by
  intro name args pos Δ
  unfold dispatch
  by_cases hname : name = printName
  · rw [if_pos hname, if_pos hname, h.sink]
    exact Run.simulates_print ctx.sink args pos
  · rw [if_neg hname, if_neg hname]
    obtain ⟨f, f', hf, hf', hrenames⟩ | ⟨hf, hf'⟩ := h.functions name
    · rw [hf, hf']
      exact henter hrenames args pos Δ
    · rw [hf, hf']
      exact (Run.Immediate.error _).simulates

/-- Calls of a function and of the renamed function do the same, with any amount of fuel. -/
theorem calls_renamed (h : ctx.Renames fresh sigs G ctx') (hfresh : Function.Injective fresh)
    (hG : (G.map Prod.snd).Nodup) :
    ∀ (fuel : Nat) {f f' : FunctionDef}, f.Renames fresh sigs G f' → ∀ args pos Δ, Run.Simulates
      (Machine.Renames fresh G Δ) (ctx.call fuel f args pos) (ctx'.call fuel f' args pos)
      (Machine.Renames fresh G Δ) := by
  intro fuel
  induction fuel with
  | zero =>
    intro f f' _ args pos Δ
    exact Run.simulates_pending
  | succ fuel ih =>
    intro f f' hf args pos Δ
    exact call_renamed h ⟨hfresh, hG, dispatch_renamed h ih⟩ hf args pos

end Context

/-! ## Globals -/

/-- The globals are initialised in the same way, one after the other. -/
theorem Item.Walk.declareAll_renamed {c c' : Checker} {items : List Item} {call call' : Call}
    (h : Item.Walk sigs c items c') (hcall : Run.Renaming fresh G call call')
    (hG : c'.scopes = [G]) :
    Run.Simulates (Machine.Renames fresh G c.scopes) (Run.declareAll call (Item.globals items))
      (Run.declareAll call' (Item.globals (Item.renamedAll fresh c items)))
      (Machine.Renames fresh G c'.scopes) := by
  induction h with
  | nil top => exact Run.simulates_pure ()
  | @global c c' d rest top ok tail ih =>
    have ok' : d.Ok c.signatures c.view := top.signatures ▸ ok
    have hdeclares := Check.varDecl_declares top.atItems.valid ok'
    obtain ⟨g, hg⟩ := top.atItems.scopes_eq
    have hg' : ((Check.varDecl d).after c).scopes = [(d.name, c.symbols.length) :: g] :=
      hdeclares.cons hg
    have hwithin := tail.within hG hg'
    -- the global is the one that the whole program knows by the name, as no two have the same name
    have hk : G.lookup d.name = some c.symbols.length :=
      hwithin d.name _ (by rw [Lookup.lookup_cons, if_pos rfl])
    refine Run.Simulates.bind (R := Machine.Renames fresh G ((Check.varDecl d).after c).scopes)
      (Run.declare_simulates hcall top.atItems.valid top.distinct ok' fun v => ?_) fun _ => ih hG
    have hname : (d.renamed fresh c).name = fresh c.symbols.length :=
      hdeclares.nameOf top.atItems.valid fresh
    rw [hname, hg, hg']
    refine Run.simulates_modifyEnv fun m m' hm => ⟨?_, hm.transcript⟩
    exact hm.env.defineGlobal hcall.injective hcall.globals hwithin hk d.type v
  | @function c c' g f rest top view ok tail ih =>
    -- a function declares nothing at the top
    have hscopes := (top.function_alike view ok).1.scopes
    have hrest := ih hG
    rw [hscopes] at hrest
    exact hrest

/-! ## Runs -/

theorem Run.simulates_flush (sink : Sink) (pos : Position) :
    Simulates (Machine.Renames fresh G Δ) (flush sink pos) (flush sink pos)
      (Machine.Renames fresh G Δ) := by
  intro m m' hm
  unfold flush
  rw [hm.transcript]
  cases sink.flushRefusal? m.transcript with
  | some reason => exact .error (.refl _) hm.transcript
  | none => exact .value hm

/-- Before anything has run there are no variables on either side. -/
theorem Machine.renames_fresh : Machine.fresh.Renames fresh G [[]] Machine.fresh :=
  ⟨⟨fun _ _ _ => rfl, .globals fun _ _ h => (nomatch h), rfl⟩, rfl⟩

namespace Program

variable {p : Program} {c : Checker}

/-- In a run of a program that keeps the rules and in one of the renamed program, calls by name mean
corresponding functions. -/
theorem context_renamed (hfresh : Function.Injective fresh) (hp : p.Ok)
    (hwalk : Item.Walk p.signatures (Checker.registered p) p.items c) (hG : c.scopes = [G])
    (maxDepth : Nat) (sink : Sink) :
    (Context.ofProgram p maxDepth sink).Renames fresh p.signatures G
      (Context.ofProgram (p.renamed fresh) maxDepth sink) := by
  refine ⟨fun name => ?_, rfl, rfl⟩
  rw [Context.function?_ofProgram hp.distinct,
    Context.function?_ofProgram (hp.renamed hfresh).distinct]
  exact FunctionDef.find?_of_renames (hwalk.functions hG) name

theorem callMain_renamed {ctx ctx' : Context} (h : ctx.Renames fresh p.signatures G ctx')
    (hfresh : Function.Injective fresh) (hG' : (G.map Prod.snd).Nodup)
    (hwalk : Item.Walk p.signatures (Checker.registered p) p.items c) (hG : c.scopes = [G])
    (fuel : Nat) :
    Run.Simulates (Machine.Renames fresh G Δ) (p.callMain ctx fuel)
      ((p.renamed fresh).callMain ctx' fuel) (Machine.Renames fresh G Δ) := by
  unfold callMain
  obtain ⟨f, f', hf, hf', hrenames⟩ | ⟨hf, hf'⟩ :=
    FunctionDef.find?_of_renames (hwalk.functions hG) mainName
  · have hf : p.function? mainName = some f := hf
    have hf' : (p.renamed fresh).function? mainName = some f' := hf'
    -- both functions named `main` have parameters or neither has
    have hempty : f'.params.isEmpty = f.params.isEmpty := by
      have htypes := congrArg (fun t => t.params.isEmpty) hrenames.type
      simpa [FunctionDef.type] using htypes
    have hpos : f'.pos = f.pos := by
      cases hrenames
      rfl
    rw [hf, hf']
    show Run.Simulates _ (if f.params.isEmpty then _ else _) (if f'.params.isEmpty then _ else _) _
    rw [hempty, hpos, h.sink]
    split
    · refine (Context.calls_renamed h hfresh hG' fuel hrenames [] f.pos Δ).bind fun v => ?_
      exact Run.simulates_record.bind fun _ => Run.simulates_flush ctx.sink f.pos
    · exact (Run.Immediate.error _).simulates
  · have hf : p.function? mainName = none := hf
    have hf' : (p.renamed fresh).function? mainName = none := hf'
    rw [hf, hf']
    exact (Run.Immediate.error _).simulates

/-- A run of a program that keeps the rules and one of the renamed program record the same events and
come to the same end. -/
theorem run_renamed (hfresh : Function.Injective fresh) (hp : p.Ok) (config : Config) (sink : Sink)
    (fuel : Nat) :
    (p.run config sink fuel).Matches (fun m m' => m'.transcript = m.transcript)
      ((p.renamed fresh).run config sink fuel) := by
  obtain ⟨c, hwalk⟩ := hp.walk
  obtain ⟨G, hG⟩ := hwalk.atTop_end.atItems.scopes_eq
  have hdistinct : DistinctSymbols c.scopes := hwalk.atTop_end.distinct
  rw [hG] at hdistinct
  unfold run
  cases config.refusal? with
  | some reason => exact .error (.refl _) rfl
  | none =>
    have hctx := context_renamed hfresh hp hwalk hG config.maxDepth sink
    have hcalls := Context.dispatch_renamed hctx (Context.calls_renamed hctx hfresh hdistinct.head fuel)
    have hglobals := hwalk.declareAll_renamed ⟨hfresh, hdistinct.head, hcalls⟩ hG
    rw [Checker.registered_scopes] at hglobals
    have hmain : Run.Simulates _ _ _ (Machine.Renames fresh G c.scopes) :=
      callMain_renamed hctx hfresh hdistinct.head hwalk hG fuel
    have hexecute := hglobals.bind fun _ => hmain
    exact (hexecute _ _ Machine.renames_fresh).imp fun _ _ hm => hm.transcript

end Program

/-! ## Names do not matter -/

/-- The checker and the run bind every name to the same declaration: the names of a program may be
replaced by those of the symbols that the checker resolves them to. -/
structure Program.BindsAlike (fresh : Nat → String) (p : Program) : Prop where
  /-- Every variable and every parameter has a name of its own. -/
  distinct : (p.renamed fresh).declared.Nodup
  accepted : ∃ table, check (p.renamed fresh) = .ok table
  /-- The events and the result are the same, or the events and the error are, where an unknown variable
  has its new name. -/
  runs : ∀ config sink fuel,
    (p.run config sink fuel).Matches (fun m m' => m'.transcript = m.transcript)
      ((p.renamed fresh).run config sink fuel)

/-- Accepted programs bind their names in the same way when they are checked and when they run. -/
theorem bindsAlike_of_checkSource {source : String} {checked : CheckedProgram}
    (h : checkSource source = .ok checked) {fresh : Nat → String}
    (hfresh : Function.Injective fresh) : checked.program.BindsAlike fresh := by
  have hp := ok_of_checkSource h
  constructor
  case distinct => exact hp.declared_nodup hfresh
  case accepted => exact Program.check_of_ok (hp.renamed hfresh)
  case runs => exact fun config sink fuel => Program.run_renamed hfresh hp config sink fuel

/-- Names with a number at the end. -/
def numberedName (k : Nat) : String :=
  "v" ++ toString k

theorem numberedName_injective : Function.Injective numberedName := by
  intro i j h
  have hdigits : (toString i).toList = (toString j).toList := by
    have hlist := congrArg String.toList h
    simp only [numberedName, String.toList_append] at hlist
    exact List.append_cancel_left hlist
  have hnumber := congrArg (fun digits => Nat.ofDigitChars 10 digits 0) hdigits
  simpa [Nat.toString_eq_ofList_toDigits] using hnumber

/-- A program that declares two names several times. Its function is called before the global that it
returns is initialised. -/
def shadowedGlobal : String :=
  "Program p; int a = f(3); int b = 1; int f(int a) \x7b int s = 0; " ++
  "for (int b = a; b > 0; b = b - 1) \x7b int a = b; s = s + a; \x7d print(\"%d\", s); return b; \x7d " ++
  "int main() \x7b return 0; \x7d"

theorem shadowedGlobal_bindsAlike : ∃ checked, checkSource shadowedGlobal = .ok checked ∧
    checked.program.BindsAlike numberedName ∧
    checked.program.declared = ["a", "b", "a", "s", "b", "a"] := by
  have hdeclared : (checkSource shadowedGlobal).toOption.map (fun c => c.program.declared) =
      some ["a", "b", "a", "s", "b", "a"] := by decide +kernel
  cases hchecked : checkSource shadowedGlobal with
  | error e =>
    rw [hchecked] at hdeclared
    cases hdeclared
  | ok checked =>
    rw [hchecked] at hdeclared
    exact ⟨checked, rfl, bindsAlike_of_checkSource hchecked numberedName_injective,
      Option.some.inj hdeclared⟩

end Primer
