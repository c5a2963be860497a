import Primer.Proofs.Machine.Environment
import Primer.Proofs.Typing.Rules

/-!
# Environments that agree with the names in scope

At every point of a run the variables of the machine agree with the names that are in scope there.

- `Environment.Ok`: every slot, of the globals and of every frame, holds a value of its declared type,
  and that type is not `void`.
- `Frame.Agrees`: the scopes of a frame declare exactly the names that the static scopes declare, with
  the same types. The last static scope is the global one, of which the rules see a part only.
- `Environment.Agrees` puts the two together. Of the globals `G` of the program exactly those in `I`
  are there: the ones that are initialised.
-/

namespace Primer

/-! ## Slots -/

/-- The slot holds a value of its declared type, which is not `void`. -/
def Slot.Ok (s : Slot) : Prop :=
  s.value.type = s.type ∧ s.type ≠ .void

/-- Every slot of the scope is in order. -/
def Scope.Ok (D : Scope) : Prop :=
  ∀ b ∈ D, b.2.Ok

/-- Every slot of the environment is in order. -/
structure Environment.Ok (env : Environment) : Prop where
  globals : Scope.Ok env.globals
  frames : ∀ F ∈ env.frames, ∀ D ∈ F, Scope.Ok D

/-- Being in order is a property of single slots. -/
theorem Environment.ok_iff {env : Environment} : env.Ok ↔ env.All Slot.Ok :=
  ⟨fun h => ⟨h.globals, h.frames⟩, fun h => ⟨h.globals, h.frames⟩⟩

/-! ## Scopes and frames -/

/-- A scope declares exactly the names of a static scope, with the same types. -/
def Scope.Agrees (S : TypeScope) (D : Scope) : Prop :=
  ∀ n, (D.lookup n).map Slot.type = S.lookup n

/-- Every name of `g` is one of `G`, with the same type. -/
def TypeScope.Within (g G : TypeScope) : Prop :=
  ∀ n t, g.lookup n = some t → G.lookup n = some t

/-- The scopes of a frame declare exactly the names in scope around the global scope, which holds
some of the globals `G`. -/
inductive Frame.Agrees (G : TypeScope) : TypeScopes → Frame → Prop where
  | globals {g : TypeScope} (within : TypeScope.Within g G) : Frame.Agrees G [g] []
  | scope {S : TypeScope} {D : Scope} {Γ : TypeScopes} {F : Frame} (head : Scope.Agrees S D)
    (tail : Frame.Agrees G Γ F) : Frame.Agrees G (S :: Γ) (D :: F)

theorem Scope.agrees_nil : Scope.Agrees [] [] := fun _ => rfl

theorem Scope.Agrees.insert {S : TypeScope} {D : Scope} (h : Scope.Agrees S D) (name : String)
    (t : Ty) (v : Value) : Scope.Agrees ((name, t) :: S) (Scope.insert name ⟨t, v⟩ D) := by
  intro n
  rw [Scope.lookup_insert, Lookup.lookup_cons]
  split
  · rfl
  · exact h n

theorem Scope.Agrees.assign {S : TypeScope} {D : Scope} (h : Scope.Agrees S D) (name : String)
    (v : Value) : Scope.Agrees S (Scope.assign name v D) := by
  intro n
  rw [Scope.lookup_assign, ← h n]
  split
  · rw [Option.map_map]
    rfl
  · rfl

theorem Frame.Agrees.assign {G : TypeScope} {Γ : TypeScopes} {F : Frame} (h : Frame.Agrees G Γ F)
    (name : String) (v : Value) : Frame.Agrees G Γ (Frame.assign name v F) := by
  induction h with
  | globals h => exact .globals h
  | scope head tail ih =>
    rw [Frame.assign]
    split
    · exact .scope (head.assign name v) tail
    · exact .scope head ih

/-- A name in scope is a variable of the frame, or it is a global that no variable of the frame
hides. -/
theorem Frame.Agrees.lookup {G : TypeScope} {n : String} {t : Ty} {Γ : TypeScopes} {F : Frame}
    (h : Frame.Agrees G Γ F) (ht : Γ.type? n = some t) :
    (∃ s, Frame.lookup? F n = some s ∧ s.type = t) ∨
      (Frame.lookup? F n = none ∧ G.lookup n = some t) := by
  induction h with
  | globals h =>
    refine .inr ⟨rfl, h n t ?_⟩
    simpa [TypeScopes.type?] using ht
  | @scope S D Γ F head tail ih =>
    have hn := head n
    rw [TypeScopes.type?_cons] at ht
    rw [Frame.lookup?_cons]
    cases hD : D.lookup n with
    | some s =>
      rw [← hn, hD] at ht
      exact .inl ⟨s, rfl, by simpa using ht⟩
    | none =>
      rw [← hn, hD] at ht
      exact ih (by simpa using ht)

/-! ## Environments -/

/-- Of the globals `G` those in `I` are initialised, and every slot is in order. -/
structure Environment.Sound (G I : TypeScope) (env : Environment) : Prop where
  within : TypeScope.Within I G
  globals : Scope.Agrees I env.globals
  ok : env.Ok

/-- The environment agrees with the names in scope. -/
structure Environment.Agrees (G I : TypeScope) (Γ : TypeScopes)
    (env : Environment) : Prop where
  sound : env.Sound G I
  locals : Frame.Agrees G Γ env.locals

namespace Environment

variable {G I : TypeScope} {Γ : TypeScopes} {env : Environment}

theorem Ok.locals (h : env.Ok) : ∀ D ∈ env.locals, Scope.Ok D :=
  (ok_iff.mp h).locals

/-- The variable that a name in scope means has the static type of the name. Only a global may be
missing, as long as it is not initialised. -/
theorem Agrees.lookup (h : env.Agrees G I Γ) {n : String} {t : Ty} (ht : Γ.type? n = some t) :
    (∃ s, env.lookup? n = some s ∧ s.type = t) ∨
      (env.lookup? n = none ∧ I.lookup n = none ∧ (G.lookup n).isSome) := by
  rcases h.locals.lookup ht with ⟨s, hs, hst⟩ | ⟨hnone, hG⟩
  · exact .inl ⟨s, by rw [lookup?, hs]; rfl, hst⟩
  · have hI := h.sound.globals n
    rw [lookup?, hnone, Option.none_or]
    cases hg : env.globals.lookup n with
    | some s =>
      rw [hg] at hI
      have hst : some s.type = some t := (h.sound.within n s.type hI.symm).symm.trans hG
      exact .inl ⟨s, rfl, Option.some.inj hst⟩
    | none =>
      rw [hg] at hI
      exact .inr ⟨rfl, hI.symm, by simp [hG]⟩

theorem Agrees.type_of_lookup (h : env.Agrees G I Γ) {n : String} {t : Ty} {s : Slot}
    (ht : Γ.type? n = some t) (hs : env.lookup? n = some s) : s.type = t := by
  rcases h.lookup ht with ⟨s', hs', hst⟩ | ⟨hnone, -⟩
  · cases hs.symm.trans hs'
    exact hst
  · rw [hs] at hnone
    exact nomatch hnone

theorem Agrees.uninitialised_of_lookup (h : env.Agrees G I Γ) {n : String} {t : Ty}
    (ht : Γ.type? n = some t) (hs : env.lookup? n = none) :
    I.lookup n = none ∧ (G.lookup n).isSome := by
  rcases h.lookup ht with ⟨s', hs', -⟩ | ⟨-, hnot⟩
  · rw [hs'] at hs
    exact nomatch hs
  · exact hnot

theorem Ok.lookup (h : env.Ok) {n : String} {s : Slot} (hs : env.lookup? n = some s) : s.Ok :=
  (ok_iff.mp h).lookup hs

theorem Ok.assign (h : env.Ok) {name : String} {v : Value}
    (hv : ∀ s, env.lookup? name = some s → v.type = s.type) : (env.assign name v).Ok :=
  ok_iff.mpr ((ok_iff.mp h).assign fun s hs => ⟨hv s hs, (h.lookup hs).2⟩)

/-- Assigning a value of the right type keeps the agreement. -/
theorem Agrees.assign (h : env.Agrees G I Γ) {name : String} {v : Value}
    (hv : ∀ s, env.lookup? name = some s → v.type = s.type) :
    (env.assign name v).Agrees G I Γ := by
  refine ⟨⟨h.sound.within, ?_, h.sound.ok.assign hv⟩, ?_⟩
  · rw [globals_assign]
    split
    · exact h.sound.globals
    · exact h.sound.globals.assign name v
  · rw [locals_assign]
    exact h.locals.assign name v

/-! ## Scopes, frames and declarations -/

theorem Agrees.frames (h : env.Agrees G I Γ) (hΓ : 2 ≤ Γ.length) :
    env.frames = env.locals :: env.frames.tail := by
  refine frames_eq_of_locals fun hnil => ?_
  have hl := h.locals
  rw [hnil] at hl
  cases hl with
  | globals _ => simp at hΓ

theorem Agrees.pushScope (h : env.Agrees G I Γ) (hΓ : 2 ≤ Γ.length) :
    env.pushScope.Agrees G I ([] :: Γ) := by
  have hf := pushScope_frames (h.frames hΓ)
  refine ⟨⟨h.sound.within, ?_, ?_, fun F hF => ?_⟩, ?_⟩
  · rw [pushScope_globals]
    exact h.sound.globals
  · rw [pushScope_globals]
    exact h.sound.ok.globals
  · rw [hf] at hF
    rcases List.mem_cons.mp hF with rfl | hF
    · exact List.forall_mem_cons.mpr ⟨by simp [Scope.Ok], h.sound.ok.locals⟩
    · exact h.sound.ok.frames F (List.mem_of_mem_tail hF)
  · rw [locals_eq_of_cons hf]
    exact .scope Scope.agrees_nil h.locals

theorem Ok.popScope (h : env.Ok) : env.popScope.Ok :=
  ok_iff.mpr (ok_iff.mp h).popScope

theorem Ok.popFrame (h : env.Ok) : env.popFrame.Ok :=
  ok_iff.mpr (ok_iff.mp h).popFrame

theorem Agrees.popScope {S : TypeScope} (h : env.Agrees G I (S :: Γ)) (hΓ : Γ ≠ []) :
    env.popScope.Agrees G I Γ := by
  have hlen : 2 ≤ (S :: Γ).length := Nat.succ_le_succ (List.length_pos_iff.mpr hΓ)
  have hf := popScope_frames (h.frames hlen)
  refine ⟨⟨h.sound.within, ?_, h.sound.ok.popScope⟩, ?_⟩
  · rw [popScope_globals]
    exact h.sound.globals
  · have hl := h.locals
    rw [locals_eq_of_cons hf]
    generalize env.locals = F at hl
    cases hl with
    | globals _ => exact absurd rfl hΓ
    | scope _ tail => exact tail

theorem Ok.define (h : env.Ok) {name : String} {t : Ty} {v : Value} (hv : v.type = t)
    (ht : t ≠ .void) : (env.define name t v).Ok :=
  ok_iff.mpr ((ok_iff.mp h).define ⟨hv, ht⟩)

/-- Declaring a variable with a value of its type, in a scope of a function. -/
theorem Agrees.define (h : env.Agrees G I Γ) (hΓ : 2 ≤ Γ.length) {name : String} {t : Ty}
    {v : Value} (hv : v.type = t) (ht : t ≠ .void) :
    (env.define name t v).Agrees G I (Γ.declare name t) ∧
      env.SameCallers (env.define name t v) := by
  have hf := h.frames hΓ
  have hl := h.locals
  generalize hF : env.locals = F at hf hl
  cases hl with
  | globals _ => simp at hΓ
  | scope head tail =>
    have hok := (h.sound.ok.define hv ht : (env.define name t v).Ok)
    rw [define_frames hf] at hok ⊢
    exact ⟨⟨⟨h.sound.within, h.sound.globals, hok⟩, .scope (head.insert name t v) tail⟩, rfl,
      (congrArg List.length hf).symm⟩

/-- The variables of a function that is called: none yet but the globals. -/
theorem Sound.pushFrame (h : env.Sound G I) {g : TypeScope} (hg : TypeScope.Within g G) :
    env.pushFrame.Agrees G I [[], g] := by
  refine ⟨⟨h.within, h.globals, h.ok.globals, ?_⟩, .scope Scope.agrees_nil (.globals hg)⟩
  exact List.forall_mem_cons.mpr ⟨by simp [Scope.Ok], h.ok.frames⟩

theorem Sound.popFrame (h : env.Sound G I) : env.popFrame.Sound G I :=
  ⟨h.within, h.globals, h.ok.popFrame⟩

end Environment

end Primer
