import Mathlib.Data.List.Nodup
import Primer.Proofs.Machine.Environment
import Primer.Proofs.Naming.Numbering

/-!
# Variables under the names of their symbols

Two environments hold the same variables, the first under their names and the second under the names
of their symbols. A name that the checker resolves to a symbol means the same variable in the first as
the name of that symbol in the second, although the first may hold several variables of the name in
different scopes.

- `Scope.Renames`, `Frame.Renames`: the scopes of a call on both sides, one for each static scope.
- `Scope.RenamesGlobals`: the globals. Those that are not initialised yet are missing on both sides.
- `Environment.Renames`: whole environments, with one lemma for each operation on them.
-/

namespace Primer

variable {fresh : Nat → String}

/-! ## Scopes -/

/-- The scopes hold the variables that `S` declares, the first under their names and the second under
the names of their symbols, and nothing else. -/
structure Scope.Renames (fresh : Nat → String) (S : StaticScope) (D D' : Scope) : Prop where
  declared : ∀ name k, S.lookup name = some k →
    ∃ slot, D.lookup name = some slot ∧ D'.lookup (fresh k) = some slot
  free : ∀ name, S.lookup name = none → D.lookup name = none
  unused : ∀ k, k ∉ S.map Prod.snd → D'.lookup (fresh k) = none

/-- The scopes hold the same of the globals `G`, the first under their names and the second under the
names of their symbols. -/
def Scope.RenamesGlobals (fresh : Nat → String) (G : StaticScope) (D D' : Scope) : Prop :=
  ∀ name k, G.lookup name = some k → D'.lookup (fresh k) = D.lookup name

namespace Scope

variable {S G : StaticScope} {D D' : Scope}

theorem renames_nil : Renames fresh [] [] [] :=
  ⟨fun _ _ h => (nomatch h), fun _ _ => rfl, fun _ _ => rfl⟩

theorem symbol_mem {name : String} {k : Nat} (h : S.lookup name = some k) : k ∈ S.map Prod.snd :=
  List.mem_map.mpr ⟨_, Lookup.mem_of_lookup h, rfl⟩

/-- Where the symbols differ, two names are the same if and only if the names of their symbols are. -/
theorem fresh_eq_iff (hfresh : Function.Injective fresh) (hd : (S.map Prod.snd).Nodup)
    {n name : String} {j k : Nat} (hj : S.lookup n = some j) (hk : S.lookup name = some k) :
    fresh j = fresh k ↔ n = name := by
  constructor
  · intro h
    have hpair : (n, j) = (name, k) :=
      List.inj_on_of_nodup_map hd (Lookup.mem_of_lookup hj) (Lookup.mem_of_lookup hk) (hfresh h)
    exact congrArg Prod.fst hpair
  · rintro rfl
    rw [Option.some.inj (hj.symm.trans hk)]

/-- Declaring a variable on both sides. -/
theorem Renames.insert (hfresh : Function.Injective fresh) (h : Renames fresh S D D') {k : Nat}
    (hk : k ∉ S.map Prod.snd) (name : String) (slot : Slot) :
    Renames fresh ((name, k) :: S) (D.insert name slot) (D'.insert (fresh k) slot) := by
  constructor
  · intro n j hj
    rw [lookup_insert, lookup_insert]
    rw [Lookup.lookup_cons] at hj
    by_cases hn : n = name
    · rw [if_pos hn] at hj
      cases hj
      exact ⟨slot, if_pos hn, if_pos rfl⟩
    · rw [if_neg hn] at hj
      -- an older variable: its symbol is not the new one
      have hne : fresh j ≠ fresh k := fun he => hk (hfresh he ▸ symbol_mem hj)
      rw [if_neg hn, if_neg hne]
      exact h.declared n j hj
  · intro n hnone
    rw [lookup_insert]
    rw [Lookup.lookup_cons] at hnone
    by_cases hn : n = name
    · rw [if_pos hn] at hnone
      exact nomatch hnone
    · rw [if_neg hn] at hnone ⊢
      exact h.free n hnone
  · intro j hj
    obtain ⟨hne, hj⟩ := not_or.mp (mt List.mem_cons.mpr hj)
    rw [lookup_insert, if_neg fun he => hne (hfresh he)]
    exact h.unused j hj

/-- Giving a variable another value on both sides. -/
theorem Renames.assign (hfresh : Function.Injective fresh) (h : Renames fresh S D D')
    (hd : (S.map Prod.snd).Nodup) {name : String} {k : Nat} (hk : S.lookup name = some k)
    (v : Value) : Renames fresh S (D.assign name v) (D'.assign (fresh k) v) := by
  constructor
  · intro n j hj
    obtain ⟨slot, hslot, hslot'⟩ := h.declared n j hj
    rw [lookup_assign, lookup_assign, hslot, hslot']
    by_cases hn : n = name
    · rw [if_pos hn, if_pos ((fresh_eq_iff hfresh hd hj hk).mpr hn)]
      exact ⟨_, rfl, rfl⟩
    · rw [if_neg hn, if_neg fun he => hn ((fresh_eq_iff hfresh hd hj hk).mp he)]
      exact ⟨slot, rfl, rfl⟩
  · intro n hnone
    rw [lookup_assign, h.free n hnone]
    split <;> rfl
  · intro j hj
    rw [lookup_assign, h.unused j hj]
    split <;> rfl

theorem RenamesGlobals.insert (hfresh : Function.Injective fresh) (h : RenamesGlobals fresh G D D')
    (hd : (G.map Prod.snd).Nodup) {name : String} {k : Nat} (hk : G.lookup name = some k)
    (slot : Slot) : RenamesGlobals fresh G (D.insert name slot) (D'.insert (fresh k) slot) := by
  intro n j hj
  rw [lookup_insert, lookup_insert, h n j hj]
  simp only [fresh_eq_iff hfresh hd hj hk]

theorem RenamesGlobals.assign (hfresh : Function.Injective fresh) (h : RenamesGlobals fresh G D D')
    (hd : (G.map Prod.snd).Nodup) {name : String} {k : Nat} (hk : G.lookup name = some k)
    (v : Value) : RenamesGlobals fresh G (D.assign name v) (D'.assign (fresh k) v) := by
  intro n j hj
  rw [lookup_assign, lookup_assign, h n j hj]
  simp only [fresh_eq_iff hfresh hd hj hk]

end Scope

/-! ## Frames -/

/-- The scopes of a frame on both sides, one for each static scope around the global one, which holds
some of the globals `G`. -/
inductive Frame.Renames (fresh : Nat → String) (G : StaticScope) :
    List StaticScope → Frame → Frame → Prop where
  | globals {g : StaticScope} (within : StaticScope.Within g G) : Frame.Renames fresh G [g] [] []
  | scope {S : StaticScope} {D D' : Scope} {Δ : List StaticScope} {F F' : Frame}
    (head : Scope.Renames fresh S D D') (tail : Frame.Renames fresh G Δ F F') :
    Frame.Renames fresh G (S :: Δ) (D :: F) (D' :: F')

namespace Frame

variable {G : StaticScope} {Δ : List StaticScope} {F F' : Frame} {name : String} {k : Nat}

/-- A name and the name of its symbol mean the same variable. If it is none of the frame, it is a
global. -/
theorem Renames.lookup? (h : Renames fresh G Δ F F') (hd : DistinctSymbols Δ)
    (hk : Checker.symbolOf? Δ name = some k) :
    Frame.lookup? F' (fresh k) = Frame.lookup? F name ∧
      (Frame.lookup? F name = none → G.lookup name = some k) := by
  induction h with
  | @globals g within =>
    rw [Checker.symbolOf?_cons] at hk
    cases hg : g.lookup name with
    | none =>
      rw [hg] at hk
      exact nomatch hk
    | some j =>
      rw [hg] at hk
      cases hk
      exact ⟨rfl, fun _ => within name k hg⟩
  | @scope S D D' Δ F F' head _ ih =>
    rw [lookup?_cons, lookup?_cons]
    rw [Checker.symbolOf?_cons] at hk
    cases hS : S.lookup name with
    | some j =>
      rw [hS] at hk
      cases hk
      obtain ⟨slot, hslot, hslot'⟩ := head.declared name k hS
      rw [hslot, hslot']
      exact ⟨rfl, fun h => nomatch h⟩
    | none =>
      rw [hS, Option.none_or] at hk
      -- the inner scope declares neither the name nor the symbol
      rw [head.free name hS, head.unused k (Checker.not_mem_of_distinct hd hk)]
      exact ih hd.tail hk

/-- There are scopes besides the global one. -/
theorem Renames.ne_nil (h : Renames fresh G Δ F F') (hΔ : 2 ≤ Δ.length) : F ≠ [] ∧ F' ≠ [] := by
  cases h with
  | globals _ => exact absurd hΔ (by simp)
  | scope _ _ => exact ⟨List.cons_ne_nil _ _, List.cons_ne_nil _ _⟩

/-- Where only the global scope is open, no call is in progress. -/
theorem Renames.eq_nil {g : StaticScope} (h : Renames fresh G [g] F F') : F = [] ∧ F' = [] := by
  cases h with
  | globals _ => exact ⟨rfl, rfl⟩
  | scope _ tail => cases tail

theorem Renames.assign (hfresh : Function.Injective fresh) (h : Renames fresh G Δ F F')
    (hd : DistinctSymbols Δ) (hk : Checker.symbolOf? Δ name = some k) (v : Value) :
    Renames fresh G Δ (F.assign name v) (F'.assign (fresh k) v) := by
  induction h with
  | globals within => exact .globals within
  | @scope S D D' Δ F F' head tail ih =>
    rw [Frame.assign, Frame.assign]
    rw [Checker.symbolOf?_cons] at hk
    cases hS : S.lookup name with
    | some j =>
      rw [hS] at hk
      cases hk
      obtain ⟨slot, hslot, hslot'⟩ := head.declared name k hS
      rw [hslot, hslot']
      exact .scope (head.assign hfresh hd.head hS v) tail
    | none =>
      rw [hS, Option.none_or] at hk
      rw [head.free name hS, head.unused k (Checker.not_mem_of_distinct hd hk)]
      exact .scope head (ih hd.tail hk)

end Frame

/-! ## Environments -/

/-- The environments hold the same variables, the first under their names and the second under the
names of their symbols: `Δ` are the static scopes at this point and `G` the globals of the program. -/
structure Environment.Renames (fresh : Nat → String) (G : StaticScope) (Δ : List StaticScope)
    (env env' : Environment) : Prop where
  globals : Scope.RenamesGlobals fresh G env.globals env'.globals
  locals : Frame.Renames fresh G Δ env.locals env'.locals
  depth : env'.depth = env.depth

namespace Environment

variable {G : StaticScope} {Δ : List StaticScope} {env env' : Environment} {name : String} {k : Nat}

theorem Renames.lookup? (h : env.Renames fresh G Δ env') (hd : DistinctSymbols Δ)
    (hk : Checker.symbolOf? Δ name = some k) : env'.lookup? (fresh k) = env.lookup? name := by
  obtain ⟨hlocal, hglobal⟩ := h.locals.lookup? hd hk
  unfold Environment.lookup?
  rw [hlocal]
  cases hl : env.locals.lookup? name with
  | some slot => rfl
  | none => exact h.globals name k (hglobal hl)

theorem Renames.assign (hfresh : Function.Injective fresh) (h : env.Renames fresh G Δ env')
    (hd : DistinctSymbols Δ) (hG : (G.map Prod.snd).Nodup) (hk : Checker.symbolOf? Δ name = some k)
    (v : Value) : (env.assign name v).Renames fresh G Δ (env'.assign (fresh k) v) := by
  obtain ⟨hlocal, hglobal⟩ := h.locals.lookup? hd hk
  constructor
  · rw [globals_assign, globals_assign, hlocal]
    split
    · exact h.globals
    · next hl => exact h.globals.assign hfresh hG (hglobal (Option.not_isSome_iff_eq_none.mp hl)) v
  · rw [locals_assign, locals_assign]
    exact h.locals.assign hfresh hd hk v
  · exact (assign_sameCallers _ v).depth.trans (h.depth.trans (assign_sameCallers name v).depth.symm)

/-- In a function both sides have a frame. -/
theorem Renames.frames (h : env.Renames fresh G Δ env') (hΔ : 2 ≤ Δ.length) :
    env.frames = env.locals :: env.frames.tail ∧ env'.frames = env'.locals :: env'.frames.tail := by
  obtain ⟨hne, hne'⟩ := h.locals.ne_nil hΔ
  exact ⟨frames_eq_of_locals hne, frames_eq_of_locals hne'⟩

theorem Renames.pushScope (h : env.Renames fresh G Δ env') (hΔ : 2 ≤ Δ.length) :
    env.pushScope.Renames fresh G ([] :: Δ) env'.pushScope := by
  obtain ⟨hf, hf'⟩ := h.frames hΔ
  constructor
  · rw [pushScope_globals, pushScope_globals]
    exact h.globals
  · rw [locals_eq_of_cons (pushScope_frames hf), locals_eq_of_cons (pushScope_frames hf')]
    exact .scope Scope.renames_nil h.locals
  · exact pushScope_sameCallers.depth.trans (h.depth.trans pushScope_sameCallers.depth.symm)

theorem Renames.popScope {S : StaticScope} (h : env.Renames fresh G (S :: Δ) env') (hΔ : Δ ≠ []) :
    env.popScope.Renames fresh G Δ env'.popScope := by
  have hlen : 2 ≤ (S :: Δ).length := Nat.succ_le_succ (List.length_pos_iff.mpr hΔ)
  obtain ⟨hf, hf'⟩ := h.frames hlen
  constructor
  · rw [popScope_globals, popScope_globals]
    exact h.globals
  · rw [locals_eq_of_cons (popScope_frames hf), locals_eq_of_cons (popScope_frames hf')]
    have hlocals := h.locals
    generalize env.locals = F, env'.locals = F' at hlocals
    cases hlocals with
    | globals _ => exact absurd rfl hΔ
    | scope _ tail => exact tail
  · have hdepth := h.depth
    unfold Environment.depth at hdepth ⊢
    rw [popScope_frames hf, popScope_frames hf']
    rw [hf, hf'] at hdepth
    exact hdepth

/-- Declaring a local variable on both sides. -/
theorem Renames.define (hfresh : Function.Injective fresh) {S : StaticScope}
    (h : env.Renames fresh G (S :: Δ) env') (hΔ : Δ ≠ []) (hk : k ∉ S.map Prod.snd) (name : String)
    (type : Ty) (v : Value) :
    (env.define name type v).Renames fresh G (((name, k) :: S) :: Δ)
      (env'.define (fresh k) type v) := by
  have hlen : 2 ≤ (S :: Δ).length := Nat.succ_le_succ (List.length_pos_iff.mpr hΔ)
  have hdepth : (env'.define (fresh k) type v).depth = (env.define name type v).depth :=
    (define_sameCallers ..).depth.trans (h.depth.trans (define_sameCallers ..).depth.symm)
  obtain ⟨hf, hf'⟩ := h.frames hlen
  have hlocals := h.locals
  generalize env.locals = F, env'.locals = F' at hf hf' hlocals
  cases hlocals with
  | globals _ => exact absurd rfl hΔ
  | scope head tail =>
    rw [define_frames hf, define_frames hf'] at hdepth ⊢
    exact ⟨h.globals, .scope (head.insert hfresh hk name ⟨type, v⟩) tail, hdepth⟩

theorem define_of_locals_nil (h : env.locals = []) (name : String) (type : Ty) (v : Value) :
    env.define name type v = { env with globals := env.globals.insert name ⟨type, v⟩ } := by
  unfold Environment.define
  split
  · next hf =>
    rw [locals_eq_of_cons hf] at h
    exact nomatch h
  · rfl

/-- Declaring a global on both sides. -/
theorem Renames.defineGlobal (hfresh : Function.Injective fresh) {g g' : StaticScope}
    (h : env.Renames fresh G [g] env') (hG : (G.map Prod.snd).Nodup)
    (hg' : StaticScope.Within g' G) (hk : G.lookup name = some k) (type : Ty) (v : Value) :
    (env.define name type v).Renames fresh G [g'] (env'.define (fresh k) type v) := by
  obtain ⟨hl, hl'⟩ := h.locals.eq_nil
  rw [define_of_locals_nil hl, define_of_locals_nil hl']
  refine ⟨h.globals.insert hfresh hG hk ⟨type, v⟩, ?_, h.depth⟩
  show Frame.Renames fresh G [g'] env.locals env'.locals
  rw [hl, hl']
  exact .globals hg'

/-- The variables of a function that is called: none yet but the globals. -/
theorem Renames.pushFrame (h : env.Renames fresh G Δ env') {g : StaticScope}
    (hg : StaticScope.Within g G) : env.pushFrame.Renames fresh G [[], g] env'.pushFrame :=
  ⟨h.globals, .scope Scope.renames_nil (.globals hg), congrArg Nat.succ h.depth⟩

/-- After a call the variables of the caller are those from before; only globals may have changed. -/
theorem Renames.of_frames (h : env.Renames fresh G Δ env') {env₁ env₁' : Environment}
    (hglobals : Scope.RenamesGlobals fresh G env₁.globals env₁'.globals)
    (hf : env₁.frames = env.frames) (hf' : env₁'.frames = env'.frames) :
    env₁.Renames fresh G Δ env₁' := by
  refine ⟨hglobals, ?_, ?_⟩
  · unfold Environment.locals
    rw [hf, hf']
    exact h.locals
  · unfold Environment.depth
    rw [hf, hf']
    exact h.depth

end Environment

end Primer
