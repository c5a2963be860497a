import Primer.Proofs.Soundness.Call
import Primer.Proofs.Tree.Shape

/-!
# Soundness of runs

A run of a program that keeps the static rules initialises one global after the other, and then calls
`main`. While a global is initialised, the ones before it are there and no others, although a function
may see globals that come later; when `main` is called, all of them are there.

- `Item.ListOk.within`: a global that is in scope somewhere is in scope everywhere after.
- `Run.declareAll_sound` is about the initialisation of globals, `Program.callMain_sound` about the
  rest of a run.
-/

namespace Primer

variable {sigs : Signatures} {G I : TypeScope}

/-! ## Items -/

theorem TypeScope.Within.refl (G : TypeScope) : TypeScope.Within G G := fun _ _ h => h

namespace Item

/-- Globals keep their meaning: another global has another name. -/
theorem ListOk.within {g G : TypeScope} {items : List Item} (h : ListOk sigs g items G) :
    TypeScope.Within g G := by
  induction h with
  | nil => exact .refl _
  | @global g _ d _ ok _ ih =>
    intro n t ht
    refine ih n t ?_
    have hfree : g.lookup d.name = none := ok.free g rfl
    rw [Lookup.lookup_cons, if_neg, ht]
    rintro rfl
    rw [hfree] at ht
    cases ht
  | function _ _ ih => exact ih

/-- The globals are there after their declarations, and no others. -/
theorem ListOk.lookup_eq_none {n : String} : ∀ {g G : TypeScope} {items : List Item},
    ListOk sigs g items G →
      (G.lookup n = none ↔ g.lookup n = none ∧ n ∉ (Item.globals items).map VarDecl.name)
  | _, _, _, .nil => by simp [Item.globals]
  | g, _, _, @ListOk.global _ _ _ d rest _ tail => by
    have hglobals : Item.globals (.global d :: rest) = d :: Item.globals rest := rfl
    rw [tail.lookup_eq_none, Lookup.lookup_cons, hglobals]
    by_cases hn : n = d.name
    · simp [hn]
    · rw [if_neg hn]
      simp [hn]
  | _, _, _, @ListOk.function _ _ _ f rest _ tail => by
    have hglobals : Item.globals (.function f :: rest) = Item.globals rest := rfl
    rw [tail.lookup_eq_none, hglobals]

theorem ListOk.split : ∀ {before rest : List Item} {g G : TypeScope},
    ListOk sigs g (before ++ rest) G → ∃ g', ListOk sigs g before g' ∧ ListOk sigs g' rest G
  | [], _, g, _, h => ⟨g, .nil, h⟩
  | .global d :: before, rest, g, G, .global ok tail => by
    obtain ⟨g', hbefore, hrest⟩ := tail.split
    exact ⟨g', .global ok hbefore, hrest⟩
  | .function f :: before, rest, g, G, .function ok tail => by
    obtain ⟨g', hbefore, hrest⟩ := tail.split
    exact ⟨g', .function ok hbefore, hrest⟩

/-- Every function keeps the rules in the globals before it. -/
theorem ListOk.function_ok : ∀ {g G : TypeScope} {items : List Item}, ListOk sigs g items G →
    ∀ {f : FunctionDef}, .function f ∈ items → ∃ g', TypeScope.Within g' G ∧ f.Ok sigs g'
  | _, _, _, .nil, _, h => nomatch h
  | _, _, _, .global _ tail, f, h => by
    cases h with
    | tail _ h => exact tail.function_ok h
  | g, _, _, .function ok tail, f, h => by
    cases h with
    | head => exact ⟨g, tail.within, ok⟩
    | tail _ h => exact tail.function_ok h

end Item

/-! ## The context of a run -/

/-- Where no two functions have the same name, the one that is found is the one of the name. -/
theorem FunctionDef.find?_eq_some_iff {fs : List FunctionDef} (h : (fs.map FunctionDef.name).Nodup)
    {name : String} {f : FunctionDef} :
    fs.find? (fun g => g.name == name) = some f ↔ f ∈ fs ∧ f.name = name := by
  induction fs with
  | nil => simp
  | cons g fs ih =>
    obtain ⟨hg, hfs⟩ := List.nodup_cons.mp h
    rw [List.find?_cons]
    by_cases hname : g.name = name
    -- the functions behind this one have other names
    · have hother : f ∈ fs → f.name ≠ name := by
        rintro hf rfl
        exact hg (hname ▸ List.mem_map_of_mem hf)
      rw [beq_iff_eq.mpr hname, List.mem_cons]
      constructor
      · intro hfound
        cases hfound
        exact ⟨.inl rfl, hname⟩
      · rintro ⟨rfl | hf, hf'⟩
        · rfl
        · exact absurd hf' (hother hf)
    · rw [beq_eq_false_iff_ne.mpr hname, ih hfs, List.mem_cons]
      constructor
      · rintro ⟨hf, hf'⟩
        exact ⟨.inr hf, hf'⟩
      · rintro ⟨rfl | hf, hf'⟩
        · exact absurd hf' hname
        · exact ⟨hf, hf'⟩

/-- The order of functions does not matter to which one is found. -/
theorem FunctionDef.find?_perm {fs fs' : List FunctionDef} (h : (fs.map FunctionDef.name).Nodup)
    (hperm : fs'.Perm fs) (name : String) :
    fs'.find? (fun f => f.name == name) = fs.find? (fun f => f.name == name) := by
  have h' : (fs'.map FunctionDef.name).Nodup := (hperm.map FunctionDef.name).nodup_iff.mpr h
  refine Option.ext fun f => ?_
  rw [find?_eq_some_iff h', find?_eq_some_iff h, hperm.mem_iff]

/-- In a run of a program that keeps the rules, calls mean the functions that the rules know. -/
theorem Context.function?_ofProgram {p : Program} (hp : (p.functions.map FunctionDef.name).Nodup)
    (maxDepth : Nat) (sink : Sink) (name : String) :
    (Context.ofProgram p maxDepth sink).function? name = p.function? name :=
  FunctionDef.find?_perm hp p.functions.reverse_perm name

theorem Context.ofProgram_ok {p : Program} (hp : (p.functions.map FunctionDef.name).Nodup)
    (hi : Item.ListOk p.signatures [] p.items G) (maxDepth : Nat) (sink : Sink) :
    (Context.ofProgram p maxDepth sink).Ok G p.signatures := by
  refine ⟨fun name => ?_, fun f hf => ?_⟩
  · rw [function?_ofProgram hp]
    rfl
  · have hf : f ∈ p.functions := List.mem_reverse.mp hf
    exact hi.function_ok (Program.mem_functions.mp hf)

/-! ## Runs -/

/-- The state of a run between two globals: those in `I` are initialised, and no call is in
progress. -/
structure Environment.AtGlobals (G I : TypeScope) (env : Environment) : Prop where
  sound : env.Sound G I
  frames : env.frames = []

theorem Environment.atGlobals_empty (G : TypeScope) : Environment.empty.AtGlobals G [] :=
  ⟨⟨fun _ _ h => (nomatch h), Scope.agrees_nil, by simp [Environment.empty, Scope.Ok],
    by simp [Environment.empty]⟩, rfl⟩

theorem Environment.AtGlobals.agrees {env : Environment} (h : env.AtGlobals G I) :
    env.Agrees G I [I] := by
  refine ⟨h.sound, ?_⟩
  rw [Environment.locals, h.frames]
  exact .globals h.sound.within

/-- Declaring a global. -/
theorem Environment.AtGlobals.define {env : Environment} (h : env.AtGlobals G I) {name : String}
    {t : Ty} {v : Value} (hv : v.type = t) (ht : t ≠ .void)
    (hG : TypeScope.Within ((name, t) :: I) G) :
    (env.define name t v).AtGlobals G ((name, t) :: I) := by
  have hdef : env.define name t v =
      { env with globals := Scope.insert name ⟨t, v⟩ env.globals } := by
    rw [Environment.define, h.frames]
  have hok : (env.define name t v).Ok := h.sound.ok.define hv ht
  rw [hdef] at hok ⊢
  exact ⟨⟨hG, h.sound.globals.insert name t v, hok⟩, h.frames⟩

namespace Run

variable {call : Call}

/-- The initialisation of one global. -/
theorem declareGlobal_sound (hcall : call.Sound G I sigs) {d : VarDecl} (hd : d.Ok sigs [I])
    (hG : TypeScope.Within ((d.name, d.type) :: I) G) {m : Machine} (h : m.env.AtGlobals G I) :
    (declare call d m).Satisfies (fun _ m' => m'.env.AtGlobals G ((d.name, d.type) :: I))
      (Stops G I) := by
  refine declare_value_sound hcall hd h.agrees fun v m₁ hv h₁ => ?_
  have hframes : m₁.env.frames = [] := by
    have hdepth := h₁.callers.depth
    rw [h.frames] at hdepth
    exact List.eq_nil_of_length_eq_zero hdepth
  exact Environment.AtGlobals.define ⟨h₁.agrees.sound, hframes⟩ hv hd.notVoid hG

/-- The initialisation of globals in a row. An error strikes while some of them are there. -/
theorem declareAll_sound (hcall : ∀ I, call.Sound G I sigs) :
    ∀ {items : List Item} {g g' : TypeScope} {m : Machine}, Item.ListOk sigs g items g' →
      TypeScope.Within g' G → m.env.AtGlobals G g →
      (declareAll call (Item.globals items) m).Satisfies (fun _ m' => m'.env.AtGlobals G g')
        (fun e m' => ∃ I, Stops G I e m')
  | _, _, _, m, .nil, _, h => h
  | .function _ :: items, g, g', m, .function _ tail, hG, h => by
    show (declareAll call (Item.globals items) m).Satisfies _ _
    exact declareAll_sound hcall tail hG h
  | _, g, g', m, .global (d := d) ok tail, hG, h => by
    have hd : TypeScope.Within ((d.name, d.type) :: g) G := fun n t ht => hG n t (tail.within n t ht)
    show ((declare call d >>= fun _ => declareAll call (Item.globals _)) m).Satisfies _ _
    refine bind_satisfies
      ((declareGlobal_sound (hcall g) ok hd h).imp (fun _ _ h => h) fun e m' he => ⟨g, he⟩)
      fun _ m₁ h₁ => ?_
    exact declareAll_sound hcall tail hG h₁

end Run

/-- The initialisation of all globals. -/
theorem Program.globals_sound {p : Program} {ctx : Context} (hctx : ctx.Ok G p.signatures)
    (hitems : Item.ListOk p.signatures [] p.items G) (fuel : Nat) :
    (Run.declareAll (ctx.calls fuel) p.globals .fresh).Satisfies
      (fun _ m => m.env.AtGlobals G G) (fun e m => ∃ I, Stops G I e m) :=
  Run.declareAll_sound (fun _ => Context.calls_sound hctx fuel) hitems (.refl G)
    (Environment.atGlobals_empty G)

/-- What is left of a run after all globals are initialised. -/
theorem Program.callMain_sound {p : Program} {ctx : Context} (hctx : ctx.Ok G p.signatures)
    (hp : ∀ name, ctx.function? name = p.function? name) (fuel : Nat) {m : Machine}
    (h : m.env.AtGlobals G I) :
    (p.callMain ctx fuel m).Satisfies (fun _ m' => m'.env.AtGlobals G I) (Stops G I) := by
  unfold callMain
  cases hmain : p.function? mainName with
  | none => exact ⟨trivial, h.sound.ok⟩
  | some f =>
    show ((if f.params.isEmpty then _ else _ : Run Unit) m).Satisfies _ _
    split
    · next hparams =>
      have hf : f ∈ ctx.functions := List.mem_of_find?_eq_some ((hp mainName).trans hmain)
      obtain ⟨g, hg, hok⟩ := hctx.functions f hf
      have hnil : f.type.params = [] := by
        rw [FunctionDef.type, List.isEmpty_iff.mp hparams]
        rfl
      have hcall : (ctx.call fuel f [] f.pos m).Satisfies
          (fun v m' => v.type = f.returns ∧ m'.env.Sound G I ∧ m'.env.frames = m.env.frames)
          (Stops G I) := by
        -- without fuel the call is pending, and nothing is claimed
        cases fuel with
        | zero => trivial
        | succ fuel =>
          refine Context.call_sound (Context.calls_sound hctx fuel) hg hok ?_ h.sound
          rw [hnil]
          exact .nil
      refine Run.bind_satisfies hcall fun v m₁ hreturned => ?_
      obtain ⟨-, hsound, hframes⟩ := hreturned
      have hrecord : Run.record (.returned v) m₁ =
          .value () { m₁ with transcript := m₁.transcript.record (.returned v) } := rfl
      rw [Run.bind_value hrecord]
      unfold Run.flush
      split
      · exact ⟨trivial, hsound.ok⟩
      · exact ⟨hsound, hframes.trans h.frames⟩
    · exact ⟨trivial, h.sound.ok⟩

end Primer
