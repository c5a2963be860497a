import Primer.Proofs.Soundness.Checked
import Primer.Proofs.Typing.Weakening

/-!
# The order of functions

Functions may be used before they are defined, and a run looks them up by name. So the functions of an
accepted program may be moved behind all of its globals, in any order: the program is still accepted,
and it runs as before. The globals stay in their order, in which they are initialised.

- `Program.Reorders` says that one program is another one with its functions moved.
- `Program.Ok.reorder`: it keeps the static rules, because a function may see more globals
  (`FunctionDef.Ok.widen`).
- `Program.run_reorder`: it has the same runs, because calls mean the same functions
  (`Context.call_congr`).
-/

namespace Primer

/-- `p'` has the name of `p`, the globals of `p` in their order, and after them the functions of `p` in
some order. -/
structure Program.Reorders (p p' : Program) : Prop where
  name : p'.name = p.name
  items : ∃ fs : List FunctionDef, fs.Perm p.functions ∧
    p'.items = p.globals.map .global ++ fs.map .function

namespace Program

variable {p p' : Program}

theorem Reorders.globals (h : p.Reorders p') : p'.globals = p.globals := by
  obtain ⟨fs, -, hitems⟩ := h.items
  unfold Program.globals
  rw [hitems, List.filterMap_append, List.filterMap_map, List.filterMap_map]
  simp [Program.globals]

theorem Reorders.functions (h : p.Reorders p') : p'.functions.Perm p.functions := by
  obtain ⟨fs, hperm, hitems⟩ := h.items
  have hfunctions : p'.functions = fs := by
    unfold Program.functions
    rw [hitems, List.filterMap_append, List.filterMap_map, List.filterMap_map]
    simp
  rw [hfunctions]
  exact hperm

theorem Reorders.function? (h : p.Reorders p') (hp : (p.functions.map FunctionDef.name).Nodup)
    (name : String) : p'.function? name = p.function? name :=
  FunctionDef.find?_perm hp h.functions name

end Program

/-! ## The static rules -/

namespace Item

variable {sigs : Signatures} {g g' G : TypeScope}

/-- The declarations of globals do not need the functions between them. -/
theorem ListOk.globals {items : List Item} (h : ListOk sigs g items G) :
    ListOk sigs g ((Item.globals items).map .global) G := by
  induction h with
  | nil => exact .nil
  | global ok _ ih => exact .global ok ih
  | function _ _ ih => exact ih

theorem ListOk.append {items items' : List Item} (h : ListOk sigs g items g')
    (h' : ListOk sigs g' items' G) : ListOk sigs g (items ++ items') G := by
  induction h with
  | nil => exact h'
  | global ok _ ih => exact .global ok (ih h')
  | function ok _ ih => exact .function ok (ih h')

theorem listOk_functions {fs : List FunctionDef} (h : ∀ f ∈ fs, f.Ok sigs G) :
    ListOk sigs G (fs.map .function) G := by
  induction fs with
  | nil => exact .nil
  | cons f fs ih =>
    refine .function (h f List.mem_cons_self) (ih fun f' hf' => ?_)
    exact h f' (List.mem_cons_of_mem f hf')

end Item

/-- A program with its functions moved keeps the static rules. -/
theorem Program.Ok.reorder {p p' : Program} (hp : p.Ok) (h : p.Reorders p') : p'.Ok where
  distinct := (h.functions.map FunctionDef.name).nodup_iff.mpr hp.distinct
  notBuiltin f hf := hp.notBuiltin f (h.functions.mem_iff.mp hf)
  items := by
    have hsignatures : p'.signatures = p.signatures := by
      funext name
      rw [Program.signatures, Program.signatures, h.function? hp.distinct]
    obtain ⟨fs, hperm, hitems⟩ := h.items
    obtain ⟨G, hG⟩ := hp.items
    rw [hsignatures, hitems]
    refine ⟨G, (show Item.ListOk _ _ (p.globals.map .global) G from hG.globals).append ?_⟩
    refine Item.listOk_functions fun f hf => ?_
    -- where `f` stood it saw some of the globals, and now it sees all of them
    have hmem : f ∈ p.functions := hperm.mem_iff.mp hf
    obtain ⟨g, hwithin, hf⟩ := hG.function_ok (Program.mem_functions.mp hmem)
    exact hf.widen hwithin

/-! ## Runs -/

namespace Context

variable {ctx ctx' : Context}

theorem dispatch_congr (hfunction : ∀ name, ctx'.function? name = ctx.function? name)
    (hsink : ctx'.sink = ctx.sink) (enter : FunctionDef → List Value → Position → Run Value) :
    ctx'.dispatch enter = ctx.dispatch enter := by
  funext name args pos
  unfold dispatch
  rw [hsink, hfunction]

/-- What a call does depends on the functions by their names only. -/
theorem call_congr (hfunction : ∀ name, ctx'.function? name = ctx.function? name)
    (hdepth : ctx'.maxDepth = ctx.maxDepth) (hsink : ctx'.sink = ctx.sink) :
    ∀ fuel : Nat, ctx'.call fuel = ctx.call fuel
  | 0 => rfl
  | fuel + 1 => by
    funext f args pos
    rw [call, call, hdepth, dispatch_congr hfunction hsink,
      call_congr hfunction hdepth hsink fuel]

end Context

namespace Program

variable {p p' : Program}

/-- A program with its functions moved has the same runs. -/
theorem run_reorder (hp : (p.functions.map FunctionDef.name).Nodup) (h : p.Reorders p')
    (config : Config) (sink : Sink) (fuel : Nat) :
    p'.run config sink fuel = p.run config sink fuel := by
  have hp' : (p'.functions.map FunctionDef.name).Nodup :=
    (h.functions.map FunctionDef.name).nodup_iff.mpr hp
  have hfunction : ∀ name, (Context.ofProgram p' config.maxDepth sink).function? name =
      (Context.ofProgram p config.maxDepth sink).function? name := by
    intro name
    rw [Context.function?_ofProgram hp', Context.function?_ofProgram hp, h.function? hp]
  have hcall := Context.call_congr hfunction rfl rfl fuel
  have hcalls : (Context.ofProgram p' config.maxDepth sink).calls fuel =
      (Context.ofProgram p config.maxDepth sink).calls fuel := by
    rw [Context.calls, Context.calls, hcall]
    exact Context.dispatch_congr hfunction rfl _
  unfold run execute callMain
  rw [h.globals, h.function? hp, h.name, hcalls, hcall]
  rfl

end Program

/-- If the functions of an accepted program are moved behind its globals, in any order, the program is
still accepted, and every run is the same: it prints the same, and it comes to the same end. -/
theorem reordered_of_checkSource {source : String} {checked : CheckedProgram}
    (h : checkSource source = .ok checked) {p' : Program} (hp' : checked.program.Reorders p') :
    (∃ table, check p' = .ok table) ∧ ∀ (config : Config) (sink : Sink) (fuel : Nat),
      p'.run config sink fuel = checked.program.run config sink fuel := by
  have hp : checked.program.Ok := ok_of_checkSource h
  exact ⟨Program.check_of_ok (hp.reorder hp'), fun config sink fuel =>
    Program.run_reorder hp.distinct hp' config sink fuel⟩

/-- A text in which functions and globals alternate. The first function hides a name that is a global
only behind it. -/
def alternating : String :=
  "Program p; int f() \x7b int b = 2; return b; \x7d int a = f(); int b = 7;
   int main() \x7b print(\"%d\", g(a)); return 0; \x7d int g(int x) \x7b return x * b; \x7d"

/-- The program with its functions behind its globals, the last one first. -/
def Program.functionsReversed (p : Program) : Program :=
  ⟨p.name, p.globals.map .global ++ p.functions.reverse.map .function, p.pos⟩

theorem alternating_reordered : ∃ checked, checkSource alternating = .ok checked ∧
    (checked.program.run (.default .generous) .unbounded 4).machine?.map (fun m => m.transcript.output) =
      some "14" ∧
    (∃ table, check checked.program.functionsReversed = .ok table) ∧
    ∀ (config : Config) (sink : Sink) (fuel : Nat),
      checked.program.functionsReversed.run config sink fuel = checked.program.run config sink fuel := by
  have hrun : ((checkSource alternating).toOption.bind fun checked =>
      (checked.program.run (.default .generous) .unbounded 4).machine?.map fun m => m.transcript.output) =
        some "14" := by decide +kernel
  cases h : checkSource alternating with
  | error e =>
    rw [h] at hrun
    cases hrun
  | ok checked =>
    rw [h] at hrun
    have hreorders : checked.program.Reorders checked.program.functionsReversed :=
      ⟨rfl, checked.program.functions.reverse, List.reverse_perm _, rfl⟩
    exact ⟨checked, rfl, hrun, reordered_of_checkSource h hreorders⟩

end Primer
