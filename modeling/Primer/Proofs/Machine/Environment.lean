import Primer.Machine.Environment
import Primer.Proofs.Lookup

/-!
# Laws of scopes and frames

Looking a name up after declaring a variable or after giving one another value. A scope is a list of
pairs, in which the first pair with a name counts; declaring and assigning change that pair only.

- `Scope.lookup_insert`, `Scope.lookup_assign` are the laws of one scope.
- `Frame.lookup?_assign` is the law of a stack of scopes: the innermost variable of the name changes.
- `Environment.SameCallers` says that only the call in progress and the globals may have changed.
- `Environment.All` says that every variable has a property; each operation keeps it, if what it declares
  or assigns has the property.
-/

namespace Primer

namespace Scope

theorem lookup_insert (name : String) (slot : Slot) (n : String) :
    ∀ D : Scope, (insert name slot D).lookup n = if n = name then some slot else D.lookup n
  | [] => Lookup.lookup_cons n name slot []
  | (k, s) :: rest => by
    rw [insert]
    split
    · next hk =>
      rw [Lookup.lookup_cons, Lookup.lookup_cons, hk]
      split <;> rfl
    · next hk =>
      rw [Lookup.lookup_cons, Lookup.lookup_cons, lookup_insert name slot n rest]
      by_cases h : n = name
      · have hn : n ≠ k := fun e => hk (e.symm.trans h)
        simp only [if_neg hn, if_pos h]
      · rw [if_neg h, if_neg h]

theorem lookup_assign (name : String) (v : Value) (n : String) :
    ∀ D : Scope, (assign name v D).lookup n =
      if n = name then (D.lookup n).map fun s => { s with value := v } else D.lookup n
  | [] => by
    rw [assign]
    split <;> rfl
  | (k, s) :: rest => by
    rw [assign]
    split
    · next hk =>
      rw [Lookup.lookup_cons, Lookup.lookup_cons, hk]
      split <;> rfl
    · next hk =>
      rw [Lookup.lookup_cons, Lookup.lookup_cons, lookup_assign name v n rest]
      by_cases h : n = name
      · have hn : n ≠ k := fun e => hk (e.symm.trans h)
        simp only [if_neg hn, if_pos h]
      · rw [if_neg h, if_neg h]

theorem mem_insert {name : String} {slot : Slot} {b : String × Slot} :
    ∀ {D : Scope}, b ∈ insert name slot D → b = (name, slot) ∨ b ∈ D
  | [], h => .inl (by simpa [insert] using h)
  | (k, s) :: rest, h => by
    rw [insert] at h
    split at h
    · exact (List.mem_cons.mp h).imp id (List.mem_cons_of_mem _)
    · rcases List.mem_cons.mp h with rfl | h
      · exact .inr List.mem_cons_self
      · exact (mem_insert h).imp id (List.mem_cons_of_mem _)

/-- The variables after an assignment: those before, but for the one that is assigned to. -/
theorem mem_assign {name : String} {v : Value} {b : String × Slot} :
    ∀ {D : Scope}, b ∈ assign name v D →
      b ∈ D ∨ ∃ s, D.lookup name = some s ∧ b = (name, { s with value := v })
  | [], h => .inl h
  | (k, s) :: rest, h => by
    rw [assign] at h
    split at h
    · next hk =>
      subst hk
      rcases List.mem_cons.mp h with rfl | h
      · exact .inr ⟨s, by simp, rfl⟩
      · exact .inl (List.mem_cons_of_mem _ h)
    · next hk =>
      rcases List.mem_cons.mp h with rfl | h
      · exact .inl List.mem_cons_self
      · refine (mem_assign h).imp (List.mem_cons_of_mem _) fun ⟨s', hs, hb⟩ => ⟨s', ?_, hb⟩
        rw [Lookup.lookup_cons, if_neg (Ne.symm hk), hs]

end Scope

namespace Frame

@[simp] theorem lookup?_nil (n : String) : lookup? [] n = none := rfl

theorem lookup?_cons (D : Scope) (F : Frame) (n : String) :
    lookup? (D :: F) n = (D.lookup n).or (lookup? F n) := by
  rw [lookup?, List.findSome?_cons]
  cases D.lookup n <;> rfl

theorem lookup?_assign (name : String) (v : Value) (n : String) :
    ∀ F : Frame, lookup? (assign name v F) n =
      if n = name then (lookup? F n).map fun s => { s with value := v } else lookup? F n
  | [] => by simp [assign]
  | D :: F => by
    rw [assign]
    split
    -- the innermost scope that has the name is the one that is written
    · next hd =>
      rw [lookup?_cons, lookup?_cons, Scope.lookup_assign]
      by_cases h : n = name
      · subst h
        obtain ⟨s, hs⟩ := Option.isSome_iff_exists.mp hd
        simp [hs]
      · simp [h]
    · next hd =>
      rw [lookup?_cons, lookup?_cons, lookup?_assign name v n F]
      by_cases h : n = name
      · subst h
        simp [Option.not_isSome_iff_eq_none.mp hd]
      · simp [h]

theorem assign_of_lookup?_none {name : String} (v : Value) :
    ∀ {F : Frame}, lookup? F name = none → assign name v F = F
  | [], _ => rfl
  | D :: F, h => by
    rw [lookup?_cons, Option.or_eq_none_iff] at h
    rw [assign, h.1, assign_of_lookup?_none v h.2]
    rfl

theorem length_assign (name : String) (v : Value) :
    ∀ F : Frame, (assign name v F).length = F.length
  | [] => rfl
  | D :: F => by
    rw [assign]
    split
    · rfl
    · exact congrArg (· + 1) (length_assign name v F)

end Frame

namespace Environment

variable {env : Environment}

/-- The calls below the one in progress, and their variables, are the same. -/
structure SameCallers (env env' : Environment) : Prop where
  callers : env'.frames.tail = env.frames.tail
  depth : env'.frames.length = env.frames.length

theorem SameCallers.refl (env : Environment) : env.SameCallers env := ⟨rfl, rfl⟩

theorem SameCallers.trans {env env' env'' : Environment} (h : env.SameCallers env')
    (h' : env'.SameCallers env'') : env.SameCallers env'' :=
  ⟨h'.callers.trans h.callers, h'.depth.trans h.depth⟩

theorem SameCallers.of_frames {env env' : Environment} (h : env'.frames = env.frames) :
    env.SameCallers env' := ⟨by rw [h], by rw [h]⟩

theorem locals_eq_of_cons {F : Frame} {callers : List Frame} (h : env.frames = F :: callers) :
    env.locals = F := by
  rw [locals, h]
  rfl

theorem frames_eq_of_locals (h : env.locals ≠ []) :
    env.frames = env.locals :: env.frames.tail := by
  unfold locals at h ⊢
  cases hf : env.frames with
  | nil => simp [hf] at h
  | cons F callers => rfl

/-! ## Assigning -/

theorem globals_assign (name : String) (v : Value) : (env.assign name v).globals =
    if (env.locals.lookup? name).isSome then env.globals else env.globals.assign name v := by
  unfold assign
  split
  · cases env.frames <;> rfl
  · rfl

theorem locals_assign (name : String) (v : Value) :
    (env.assign name v).locals = Frame.assign name v env.locals := by
  unfold assign
  split
  · unfold locals
    cases hf : env.frames with
    | nil => simp [hf, Frame.assign]
    | cons F callers => rfl
  · next h => exact (Frame.assign_of_lookup?_none v (Option.not_isSome_iff_eq_none.mp h)).symm

theorem assign_sameCallers (name : String) (v : Value) : env.SameCallers (env.assign name v) := by
  unfold assign
  split
  · cases hf : env.frames with
    | nil => exact SameCallers.refl env
    | cons F callers => exact ⟨by simp [hf], by simp [hf]⟩
  · exact ⟨rfl, rfl⟩

/-! ## Scopes and frames -/

theorem pushScope_frames {F : Frame} {callers : List Frame} (h : env.frames = F :: callers) :
    env.pushScope.frames = ([] :: F) :: callers := by
  simp [pushScope, h]

theorem popScope_frames {F : Frame} {callers : List Frame} (h : env.frames = F :: callers) :
    env.popScope.frames = F.tail :: callers := by
  simp [popScope, h]

@[simp] theorem pushScope_globals : env.pushScope.globals = env.globals := by
  unfold pushScope
  cases env.frames <;> rfl

@[simp] theorem popScope_globals : env.popScope.globals = env.globals := by
  unfold popScope
  cases env.frames <;> rfl

theorem define_frames {D : Scope} {F : Frame} {callers : List Frame}
    (h : env.frames = (D :: F) :: callers) (name : String) (type : Ty) (v : Value) :
    env.define name type v =
      { env with frames := (Scope.insert name ⟨type, v⟩ D :: F) :: callers } := by
  simp [define, h]

theorem locals_define (name : String) (type : Ty) (v : Value) :
    (env.define name type v).locals =
      match env.locals with
      | [] => []
      | D :: F => Scope.insert name ⟨type, v⟩ D :: F := by
  unfold define locals
  rcases env.frames with _ | ⟨_ | ⟨D, F⟩, callers⟩
  · simp
  · simp
  · rfl

theorem globals_define (name : String) (type : Ty) (v : Value) :
    (env.define name type v).globals =
      match env.locals with
      | [] => env.globals.insert name ⟨type, v⟩
      | _ :: _ => env.globals := by
  unfold define locals
  rcases env.frames with _ | ⟨_ | ⟨D, F⟩, callers⟩
  · rfl
  · rfl
  · rfl

theorem locals_pushScope : env.pushScope.locals = if env.depth = 0 then [] else [] :: env.locals := by
  unfold pushScope locals depth
  cases h : env.frames with
  | nil => simp [h]
  | cons F callers => simp

theorem locals_popScope : env.popScope.locals = env.locals.tail := by
  unfold popScope locals
  cases h : env.frames with
  | nil => simp [h]
  | cons F callers => rfl

theorem depth_popScope (env : Environment) : env.popScope.depth = env.depth := by
  unfold popScope depth
  cases h : env.frames with
  | nil => simp [h]
  | cons F callers => simp

theorem pushScope_popScope_sameCallers {env' : Environment}
    (h : env.pushScope.SameCallers env') : env.SameCallers env'.popScope := by
  obtain ⟨hc, hd⟩ := h
  unfold Environment.pushScope at hc hd
  unfold Environment.popScope
  cases hf : env.frames with
  | nil =>
    rw [hf] at hc hd
    cases hf' : env'.frames with
    | nil => exact ⟨by simp [hf, hf'], by simp [hf, hf']⟩
    | cons F' callers' => simp [hf, hf'] at hd
  | cons F callers =>
    rw [hf] at hc hd
    cases hf' : env'.frames with
    | nil => simp [hf'] at hd
    | cons F' callers' =>
      simp only [hf', List.tail_cons, List.length_cons] at hc hd
      exact ⟨by simp [hf, hc], by simp [hf, hd]⟩

theorem define_sameCallers (name : String) (type : Ty) (v : Value) :
    env.SameCallers (env.define name type v) := by
  unfold define
  split
  · next hf => exact ⟨by simp [hf], by simp [hf]⟩
  · exact SameCallers.of_frames rfl

theorem pushScope_sameCallers : env.SameCallers env.pushScope := by
  unfold pushScope
  cases hf : env.frames with
  | nil => exact SameCallers.refl env
  | cons F callers => exact ⟨by simp [hf], by simp [hf]⟩

/-! ## All variables -/

variable {P : Slot → Prop}

/-- Every variable, of the globals and of every frame, satisfies `P`. -/
structure All (P : Slot → Prop) (env : Environment) : Prop where
  globals : ∀ b ∈ env.globals, P b.2
  frames : ∀ F ∈ env.frames, ∀ D ∈ F, ∀ b ∈ D, P b.2

theorem all_empty : All P empty :=
  ⟨fun _ hb => (nomatch hb), fun _ hF => (nomatch hF)⟩

theorem All.locals (h : env.All P) : ∀ D ∈ env.locals, ∀ b ∈ D, P b.2 := by
  unfold Environment.locals
  cases hf : env.frames with
  | nil => simp
  | cons F callers => exact h.frames F (by simp [hf])

theorem All.lookup (h : env.All P) {n : String} {s : Slot} (hs : env.lookup? n = some s) : P s := by
  rcases Option.or_eq_some_iff.mp hs with hl | ⟨-, hg⟩
  · obtain ⟨D, hD, hl⟩ := List.exists_of_findSome?_eq_some hl
    exact h.locals D hD _ (Lookup.mem_of_lookup hl)
  · exact h.globals _ (Lookup.mem_of_lookup hg)

/-- A value is assigned to the variable that the name means, and to no other. -/
theorem All.assign (h : env.All P) {name : String} {v : Value}
    (hv : ∀ s, env.lookup? name = some s → P { s with value := v }) : (env.assign name v).All P := by
  -- the argument for one scope, for the scopes of one frame, and then for both kinds of variables
  have hscope : ∀ D : Scope, (∀ b ∈ D, P b.2) →
      (∀ s, D.lookup name = some s → P { s with value := v }) → ∀ b ∈ D.assign name v, P b.2 := by
    intro D hD hs b hb
    rcases Scope.mem_assign hb with hb | ⟨s, hlookup, rfl⟩
    · exact hD b hb
    · exact hs s hlookup
  have hframe : ∀ F : Frame, (∀ D ∈ F, ∀ b ∈ D, P b.2) →
      (∀ s, F.lookup? name = some s → P { s with value := v }) →
        ∀ D ∈ F.assign name v, ∀ b ∈ D, P b.2 := by
    intro F
    induction F with
    | nil =>
      intro _ _ D hD
      cases hD
    | cons D F ih =>
      intro hF hs
      obtain ⟨hD, hF⟩ := List.forall_mem_cons.mp hF
      rw [Frame.assign]
      split
      · refine List.forall_mem_cons.mpr ⟨hscope D hD fun s hlookup => hs s ?_, hF⟩
        rw [Frame.lookup?_cons, hlookup]
        rfl
      · next hn =>
        -- `D` does not know the name, so it means the same in the scopes around `D`
        refine List.forall_mem_cons.mpr ⟨hD, ih hF fun s hlookup => hs s ?_⟩
        rw [Frame.lookup?_cons, Option.not_isSome_iff_eq_none.mp hn, hlookup]
        rfl
  unfold Environment.assign
  split
  · cases hf : env.frames with
    | nil => exact h
    | cons F callers =>
      have hframes := h.frames
      rw [hf] at hframes
      obtain ⟨hF, hcallers⟩ := List.forall_mem_cons.mp hframes
      refine ⟨h.globals, List.forall_mem_cons.mpr ⟨hframe F hF fun s hs => hv s ?_, hcallers⟩⟩
      rw [lookup?, locals_eq_of_cons hf, hs]
      rfl
  · next hl =>
    refine ⟨hscope env.globals h.globals fun s hs => hv s ?_, h.frames⟩
    rw [lookup?, Option.not_isSome_iff_eq_none.mp hl, hs]
    rfl

theorem All.define (h : env.All P) {name : String} {type : Ty} {v : Value} (hv : P ⟨type, v⟩) :
    (env.define name type v).All P := by
  have hscope : ∀ D : Scope, (∀ b ∈ D, P b.2) → ∀ b ∈ D.insert name ⟨type, v⟩, P b.2 := by
    intro D hD b hb
    rcases Scope.mem_insert hb with rfl | hb
    · exact hv
    · exact hD b hb
  unfold Environment.define
  split
  · next D outer callers hf =>
    have hframes := h.frames
    rw [hf] at hframes
    obtain ⟨htop, hcallers⟩ := List.forall_mem_cons.mp hframes
    obtain ⟨hD, houter⟩ := List.forall_mem_cons.mp htop
    exact ⟨h.globals, List.forall_mem_cons.mpr
      ⟨List.forall_mem_cons.mpr ⟨hscope D hD, houter⟩, hcallers⟩⟩
  · exact ⟨hscope env.globals h.globals, h.frames⟩

theorem All.pushScope (h : env.All P) : env.pushScope.All P := by
  unfold Environment.pushScope
  cases hf : env.frames with
  | nil => exact h
  | cons F callers =>
    have hframes := h.frames
    rw [hf] at hframes
    obtain ⟨hF, hcallers⟩ := List.forall_mem_cons.mp hframes
    refine ⟨h.globals, List.forall_mem_cons.mpr ⟨List.forall_mem_cons.mpr ⟨?_, hF⟩, hcallers⟩⟩
    exact fun _ hb => (nomatch hb)

theorem All.popScope (h : env.All P) : env.popScope.All P := by
  unfold Environment.popScope
  cases hf : env.frames with
  | nil => exact h
  | cons F callers =>
    have hframes := h.frames
    rw [hf] at hframes
    obtain ⟨hF, hcallers⟩ := List.forall_mem_cons.mp hframes
    exact ⟨h.globals, List.forall_mem_cons.mpr
      ⟨fun D hD => hF D (List.mem_of_mem_tail hD), hcallers⟩⟩

theorem All.pushFrame (h : env.All P) : env.pushFrame.All P := by
  refine ⟨h.globals, List.forall_mem_cons.mpr ⟨?_, h.frames⟩⟩
  exact List.forall_mem_cons.mpr ⟨fun _ hb => (nomatch hb), fun _ hD => (nomatch hD)⟩

theorem All.popFrame (h : env.All P) : env.popFrame.All P :=
  ⟨h.globals, fun F hF => h.frames F (List.mem_of_mem_tail hF)⟩

end Environment

end Primer
