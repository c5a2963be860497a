import Primer.Proofs.Machine.Environment

/-!
# Assignment writes the variable that look-up reads

Reading and writing search an environment on their own. Both come to the same variable, and writing
changes nothing else: not a variable of the same name that this one hides, not one of another frame, and
no variable of another name. This holds in every environment that frames and scopes can be opened and
closed to, also where more of them were closed than opened.

A scope of an environment has an `Environment.Address`, and a variable is an address with a name.

- `Environment.slotAt` is what a variable holds, and `Environment.home?` is the address at which a name
  has its meaning.
- `Environment.scopeAt_assign` and `Environment.scopeAt_define` say what becomes of every scope.
- `Environment.SetTo` says that one variable is set and all others are left alone.
- `Environment.Operation` is one change of an environment, and `Environment.after` a sequence of them.
  Scopes never hold a name twice (`Environment.Distinct`), so that variables are all there is in them.
-/

namespace Primer

/-! ## Scopes -/

namespace Scope

theorem assign_of_lookup_none {name : String} (v : Value) {D : Scope} (h : D.lookup name = none) :
    assign name v D = D := by
  induction D with
  | nil => rfl
  | cons b rest ih =>
    obtain ⟨k, s⟩ := b
    rw [Lookup.lookup_cons] at h
    by_cases hk : name = k
    · rw [if_pos hk] at h
      cases h
    · rw [if_neg hk] at h
      rw [assign, if_neg (Ne.symm hk), ih h]

theorem assign?_eq (name : String) (v : Value) (D : Scope) :
    assign? name v D = (D.lookup name).map fun s => (s.type, assign name v D) := by
  induction D with
  | nil => rfl
  | cons b rest ih =>
    obtain ⟨k, s⟩ := b
    rw [assign?, assign, Lookup.lookup_cons]
    by_cases hk : k = name
    · rw [if_pos hk, if_pos hk, if_pos hk.symm, Option.map_some]
    · rw [if_neg hk, if_neg hk, if_neg (Ne.symm hk), ih, Option.map_map]
      rfl

/-- No name is declared twice. -/
def Distinct (D : Scope) : Prop :=
  (D.map Prod.fst).Nodup

theorem map_fst_assign (name : String) (v : Value) (D : Scope) :
    (assign name v D).map Prod.fst = D.map Prod.fst := by
  induction D with
  | nil => rfl
  | cons b rest ih =>
    rw [assign]
    split
    · rfl
    · rw [List.map_cons, List.map_cons, ih]

theorem Distinct.assign {D : Scope} (h : D.Distinct) (name : String) (v : Value) :
    (D.assign name v).Distinct := by
  rw [Distinct, map_fst_assign]
  exact h

theorem Distinct.insert {D : Scope} (h : D.Distinct) (name : String) (slot : Slot) :
    (D.insert name slot).Distinct := by
  induction D with
  | nil => simp [Scope.insert, Distinct]
  | cons b rest ih =>
    obtain ⟨k, s⟩ := b
    obtain ⟨hk, hrest⟩ := List.nodup_cons.mp h
    rw [Scope.insert]
    split
    · next heq => exact List.nodup_cons.mpr ⟨heq ▸ hk, hrest⟩
    · next hne =>
      -- the only name that may be new behind `k` is the declared one
      refine List.nodup_cons.mpr ⟨fun hmem => ?_, ih hrest⟩
      obtain ⟨b, hb, hbk⟩ := List.mem_map.mp hmem
      rcases mem_insert hb with rfl | hb
      · exact hne hbk.symm
      · exact hk (hbk ▸ List.mem_map_of_mem hb)

end Scope

/-! ## Frames -/

namespace Frame

/-- The innermost scope that declares the name, counted from the inside. -/
def home? (F : Frame) (name : String) : Option Nat :=
  F.findIdx? fun D => (D.lookup name).isSome

theorem home?_cons (D : Scope) (F : Frame) (name : String) : home? (D :: F) name =
    if (D.lookup name).isSome then some 0 else (home? F name).map (· + 1) :=
  List.findIdx?_cons

theorem lookup?_eq_home? (F : Frame) (name : String) :
    lookup? F name = (home? F name).bind fun j => F[j]?.bind fun D => D.lookup name := by
  induction F with
  | nil => rfl
  | cons D F ih =>
    rw [lookup?_cons, home?_cons]
    cases hD : D.lookup name with
    | some s => simp [hD]
    | none =>
      rw [Option.none_or, ih]
      cases home? F name <;> rfl

theorem home?_isSome (F : Frame) (name : String) :
    (home? F name).isSome = (lookup? F name).isSome := by
  induction F with
  | nil => rfl
  | cons D F ih =>
    rw [lookup?_cons, home?_cons]
    cases hD : D.lookup name with
    | some s => rfl
    | none => simpa using ih

/-- Writing goes to the scope in which the name has its meaning, and leaves the others alone. -/
theorem getElem?_assign (name : String) (v : Value) (F : Frame) (j : Nat) :
    (assign name v F)[j]? =
      if home? F name = some j then F[j]?.map (Scope.assign name v) else F[j]? := by
  induction F generalizing j with
  | nil => simp [assign]
  | cons D F ih =>
    rw [assign, home?_cons]
    -- both searches stop at the first scope that knows the name
    by_cases hD : (D.lookup name).isSome
    · rw [if_pos hD, if_pos hD]
      cases j <;> simp
    · rw [if_neg hD, if_neg hD]
      cases j with
      | zero => simp
      | succ j => simp [ih]

theorem assign?_eq (name : String) (v : Value) (F : Frame) :
    assign? name v F = (lookup? F name).map fun s => (s.type, assign name v F) := by
  induction F with
  | nil => rfl
  | cons D F ih =>
    rw [assign?, assign, lookup?_cons, Scope.assign?_eq]
    cases hD : D.lookup name with
    | some s => rfl
    | none => simp [ih, Function.comp_def]

end Frame

namespace Environment

variable {env env' : Environment} {name : String}

/-! ## Variables and where they are -/

/-- A scope of an environment: the globals, or a scope of a frame. Frames are counted from the latest
call, scopes from the inside. -/
inductive Address where
  | globals
  | frame (call scope : Nat)
  deriving DecidableEq, Repr

/-- The scope at an address, if there is one. -/
def scopeAt (env : Environment) : Address → Option Scope
  | .globals => some env.globals
  | .frame call scope => env.frames[call]?.bind fun F => F[scope]?

/-- The variable of a name in the scope at an address. -/
def slotAt (env : Environment) (a : Address) (name : String) : Option Slot :=
  (env.scopeAt a).bind fun D => D.lookup name

/-- The address at which a name has its meaning: the innermost scope of the call in progress that
declares it, or else the globals. -/
def home? (env : Environment) (name : String) : Option Address :=
  match env.locals.home? name with
  | some scope => some (.frame 0 scope)
  | none => if (env.globals.lookup name).isSome then some .globals else none

/-- The address at which variables are declared. -/
def innermost (env : Environment) : Address :=
  match env.locals with
  | [] => .globals
  | _ :: _ => .frame 0 0

theorem scopeAt_top (env : Environment) (scope : Nat) :
    env.scopeAt (.frame 0 scope) = env.locals[scope]? := by
  unfold scopeAt locals
  cases env.frames <;> rfl

theorem scopeAt_caller (env : Environment) (call scope : Nat) :
    env.scopeAt (.frame (call + 1) scope) = env.frames.tail[call]?.bind fun F => F[scope]? := by
  unfold scopeAt
  cases env.frames <;> rfl

/-- Look-up reads the variable at the home of the name. -/
theorem lookup?_eq_slotAt (env : Environment) (name : String) :
    env.lookup? name = (env.home? name).bind fun a => env.slotAt a name := by
  have hlocals := env.locals.lookup?_eq_home? name
  have hsome := env.locals.home?_isSome name
  unfold lookup? home?
  cases hhome : env.locals.home? name with
  | some scope =>
    rw [hhome] at hlocals hsome
    obtain ⟨s, hs⟩ := Option.isSome_iff_exists.mp hsome.symm
    rw [hs] at hlocals ⊢
    rw [Option.bind_some, slotAt, scopeAt_top]
    exact hlocals
  | none =>
    rw [hhome] at hlocals
    rw [hlocals]
    cases hglobal : env.globals.lookup name with
    | some s => simp [slotAt, scopeAt, hglobal]
    | none => simp

/-! ## What becomes of the scopes -/

theorem scopeAt_assign (env : Environment) (name : String) (v : Value) (a : Address) :
    (env.assign name v).scopeAt a =
      if env.home? name = some a then (env.scopeAt a).map (Scope.assign name v) else env.scopeAt a := by
  have hsome := env.locals.home?_isSome name
  unfold home?
  cases a with
  | globals =>
    -- globals are written only if no scope of the call in progress has the name
    show some (env.assign name v).globals = _
    rw [globals_assign, ← hsome]
    cases hhome : env.locals.home? name with
    | some scope => simp [scopeAt]
    | none =>
      by_cases hglobal : (env.globals.lookup name).isSome
      · simp [scopeAt, hglobal]
      · have hunbound := Option.not_isSome_iff_eq_none.mp hglobal
        simp [scopeAt, hunbound, Scope.assign_of_lookup_none v hunbound]
  | frame call scope =>
    cases call with
    | zero =>
      rw [scopeAt_top, scopeAt_top, locals_assign, Frame.getElem?_assign]
      cases hhome : env.locals.home? name with
      | some home => simp
      | none => simp
    | succ call =>
      -- assignment leaves the callers alone, and no name has its home there
      rw [scopeAt_caller, scopeAt_caller, (env.assign_sameCallers name v).callers]
      cases hhome : env.locals.home? name with
      | some home => simp
      | none => simp

theorem scopeAt_define (env : Environment) (name : String) (type : Ty) (v : Value) (a : Address) :
    (env.define name type v).scopeAt a =
      if env.innermost = a then (env.scopeAt a).map (Scope.insert name ⟨type, v⟩) else env.scopeAt a := by
  unfold innermost
  cases a with
  | globals =>
    show some (env.define name type v).globals = _
    rw [globals_define]
    cases env.locals <;> simp [scopeAt]
  | frame call scope =>
    cases call with
    | zero =>
      rw [scopeAt_top, scopeAt_top, locals_define]
      cases env.locals with
      | nil => simp
      | cons D F => cases scope <;> simp
    | succ call =>
      rw [scopeAt_caller, scopeAt_caller, (env.define_sameCallers name type v).callers]
      cases env.locals <;> simp

/-- How many scopes each frame has. -/
def shape (env : Environment) : List Nat :=
  env.frames.map List.length

theorem shape_assign (env : Environment) (name : String) (v : Value) :
    (env.assign name v).shape = env.shape := by
  unfold assign shape
  split
  · cases hf : env.frames with
    | nil => rw [hf]
    | cons F callers => simp [Frame.length_assign]
  · rfl

theorem shape_define (env : Environment) (name : String) (type : Ty) (v : Value) :
    (env.define name type v).shape = env.shape := by
  unfold define shape
  split
  · next hf => simp [hf]
  · rfl

/-! ## One variable is set -/

/-- The variable `name` at the address holds the slot in the second environment. In all else the two
environments are the same. -/
structure SetTo (env : Environment) (a : Address) (name : String) (slot : Slot) (env' : Environment) :
    Prop where
  set : env'.slotAt a name = some slot
  others : ∀ a' n, a' ≠ a ∨ n ≠ name → env'.slotAt a' n = env.slotAt a' n
  shape : env'.shape = env.shape

/-- An operation that changes one scope, and in this scope one name. -/
theorem SetTo.of_scopeAt {a : Address} {slot : Slot} {D : Scope} {f : Scope → Scope}
    (hscopes : ∀ a', env'.scopeAt a' = if a = a' then (env.scopeAt a').map f else env.scopeAt a')
    (hD : env.scopeAt a = some D)
    (hf : ∀ n, (f D).lookup n = if n = name then some slot else D.lookup n)
    (hshape : env'.shape = env.shape) : env.SetTo a name slot env' := by
  have ha : env'.scopeAt a = some (f D) := by
    rw [hscopes, if_pos rfl, hD, Option.map_some]
  refine ⟨?_, fun a' n hother => ?_, hshape⟩
  · rw [slotAt, ha, Option.bind_some, hf, if_pos rfl]
  · by_cases haddress : a' = a
    · subst haddress
      have hn : n ≠ name := hother.resolve_left fun hne => hne rfl
      rw [slotAt, slotAt, ha, hD, Option.bind_some, Option.bind_some, hf, if_neg hn]
    · rw [slotAt, slotAt, hscopes, if_neg (Ne.symm haddress)]

theorem SetTo.assign {a : Address} {s : Slot} (ha : env.home? name = some a)
    (hs : env.slotAt a name = some s) (v : Value) :
    env.SetTo a name { s with value := v } (env.assign name v) := by
  obtain ⟨D, hD, hlookup⟩ := Option.bind_eq_some_iff.mp hs
  refine .of_scopeAt (f := Scope.assign name v) (fun a' => ?_) hD (fun n => ?_)
    (env.shape_assign name v)
  · rw [scopeAt_assign, ha]
    simp only [Option.some.injEq]
  · rw [Scope.lookup_assign]
    by_cases hn : n = name
    · subst hn
      rw [if_pos rfl, if_pos rfl, hlookup, Option.map_some]
    · rw [if_neg hn, if_neg hn]

theorem SetTo.define (env : Environment) (name : String) (type : Ty) (v : Value) :
    env.SetTo env.innermost name ⟨type, v⟩ (env.define name type v) := by
  obtain ⟨D, hD⟩ : ∃ D, env.scopeAt env.innermost = some D := by
    unfold innermost
    cases hlocals : env.locals with
    | nil => exact ⟨env.globals, rfl⟩
    | cons D F => exact ⟨D, by rw [scopeAt_top, hlocals]; rfl⟩
  exact .of_scopeAt (env.scopeAt_define name type v) hD (Scope.lookup_insert name ⟨type, v⟩ · D)
    (env.shape_define name type v)

/-! ## Look-up after the operations -/

theorem lookup?_assign (env : Environment) (name : String) (v : Value) (n : String) :
    (env.assign name v).lookup? n =
      if n = name then (env.lookup? n).map fun s => { s with value := v } else env.lookup? n := by
  unfold lookup?
  rw [locals_assign, globals_assign, Frame.lookup?_assign]
  by_cases hn : n = name
  · subst hn
    rw [if_pos rfl, if_pos rfl]
    cases env.locals.lookup? n with
    | some s => rfl
    | none => simp [Scope.lookup_assign]
  · rw [if_neg hn, if_neg hn]
    split
    · rfl
    · rw [Scope.lookup_assign, if_neg hn]

theorem lookup?_define (env : Environment) (name : String) (type : Ty) (v : Value) (n : String) :
    (env.define name type v).lookup? n = if n = name then some ⟨type, v⟩ else env.lookup? n := by
  unfold lookup?
  rw [locals_define, globals_define]
  cases env.locals with
  | nil => simp [Scope.lookup_insert]
  | cons D F =>
    rw [Frame.lookup?_cons, Frame.lookup?_cons, Scope.lookup_insert]
    by_cases hn : n = name
    · rw [if_pos hn, if_pos hn, Option.some_or, Option.some_or]
    · rw [if_neg hn, if_neg hn]

/-- Nothing changes if the name has no meaning. -/
theorem assign_of_unbound (h : env.lookup? name = none) (v : Value) : env.assign name v = env := by
  obtain ⟨hlocals, hglobals⟩ := Option.or_eq_none_iff.mp h
  unfold assign
  rw [hlocals, Scope.assign_of_lookup_none v hglobals]
  rfl

/-- The search of writing finds what the search of reading finds. -/
theorem assign?_eq (env : Environment) (name : String) (v : Value) :
    env.assign? name v = (env.lookup? name).map fun s => (s.type, env.assign name v) := by
  -- where the call in progress does not know the name, both searches go on to the globals
  have hglobal : env.locals.lookup? name = none → env.assignGlobal? name v =
      (env.lookup? name).map fun s => (s.type, env.assign name v) := by
    intro hlocals
    unfold assignGlobal? lookup? assign
    rw [Scope.assign?_eq, hlocals, Option.none_or, Option.map_map]
    rfl
  unfold assign?
  cases hf : env.frames with
  | nil => exact hglobal (by rw [locals, hf]; rfl)
  | cons F callers =>
    have hlocals := locals_eq_of_cons hf
    have hframe := Frame.assign?_eq name v F
    cases hF : F.lookup? name with
    | none =>
      simp only [hframe, hF, Option.map_none]
      exact hglobal (by rw [hlocals, hF])
    | some s =>
      simp only [hframe, hF, Option.map_some]
      unfold lookup? assign
      rw [hlocals, hF, hf]
      rfl

/-! ## Sequences of operations -/

/-- A change of an environment. -/
inductive Operation where
  | pushFrame
  | popFrame
  | pushScope
  | popScope
  | define (name : String) (type : Ty) (value : Value)
  | assign (name : String) (value : Value)
  deriving DecidableEq, Repr

/-- The environment after an operation. An assignment to a name without meaning changes nothing. -/
def Operation.apply (env : Environment) : Operation → Environment
  | .pushFrame => env.pushFrame
  | .popFrame => env.popFrame
  | .pushScope => env.pushScope
  | .popScope => env.popScope
  | .define name type value => env.define name type value
  | .assign name value => ((env.assign? name value).map Prod.snd).getD env

/-- The environment after some operations, in any order, on an empty one. -/
def after (operations : List Operation) : Environment :=
  operations.foldl Operation.apply empty

/-- No scope holds a name twice. -/
structure Distinct (env : Environment) : Prop where
  globals : env.globals.Distinct
  frames : ∀ F ∈ env.frames, ∀ D ∈ F, D.Distinct

theorem Distinct.scopeAt (h : env.Distinct) {a : Address} {D : Scope} (hD : env.scopeAt a = some D) :
    D.Distinct := by
  cases a with
  | globals =>
    cases hD
    exact h.globals
  | frame call scope =>
    obtain ⟨F, hF, hD⟩ := Option.bind_eq_some_iff.mp hD
    exact h.frames F (List.mem_of_getElem? hF) D (List.mem_of_getElem? hD)

/-- It is enough to know the scopes by their addresses. -/
theorem Distinct.of_scopeAt (h : ∀ a D, env.scopeAt a = some D → D.Distinct) : env.Distinct := by
  refine ⟨h .globals _ rfl, fun F hF D hD => ?_⟩
  obtain ⟨call, hcall⟩ := List.mem_iff_getElem?.mp hF
  obtain ⟨scope, hscope⟩ := List.mem_iff_getElem?.mp hD
  refine h (.frame call scope) D ?_
  rw [Environment.scopeAt, hcall, Option.bind_some, hscope]

/-- An operation that changes one scope at most. -/
theorem Distinct.of_changed (h : env.Distinct) {p : Address → Prop} [DecidablePred p]
    {f : Scope → Scope} (hf : ∀ D : Scope, D.Distinct → (f D).Distinct)
    (hscopes : ∀ a, env'.scopeAt a = if p a then (env.scopeAt a).map f else env.scopeAt a) :
    env'.Distinct := by
  refine .of_scopeAt fun a D hD => ?_
  rw [hscopes] at hD
  split at hD
  · obtain ⟨D', hD', rfl⟩ := Option.map_eq_some_iff.mp hD
    exact hf D' (h.scopeAt hD')
  · exact h.scopeAt hD

theorem Distinct.apply (h : env.Distinct) (operation : Operation) : (operation.apply env).Distinct := by
  cases operation with
  -- the scopes that are pushed are empty; those that are popped are part of what was there
  | pushFrame =>
    refine ⟨h.globals, List.forall_mem_cons.mpr ⟨fun D hD => ?_, h.frames⟩⟩
    rw [List.mem_singleton.mp hD]
    exact List.nodup_nil
  | popFrame => exact ⟨h.globals, fun F hF => h.frames F (List.mem_of_mem_tail hF)⟩
  | pushScope =>
    show env.pushScope.Distinct
    unfold Environment.pushScope
    cases hf : env.frames with
    | nil => exact h
    | cons F callers =>
      obtain ⟨hF, hcallers⟩ := List.forall_mem_cons.mp (hf ▸ h.frames)
      refine ⟨h.globals, List.forall_mem_cons.mpr ⟨List.forall_mem_cons.mpr ⟨?_, hF⟩, hcallers⟩⟩
      exact List.nodup_nil
  | popScope =>
    show env.popScope.Distinct
    unfold Environment.popScope
    cases hf : env.frames with
    | nil => exact h
    | cons F callers =>
      obtain ⟨hF, hcallers⟩ := List.forall_mem_cons.mp (hf ▸ h.frames)
      exact ⟨h.globals, List.forall_mem_cons.mpr
        ⟨fun D hD => hF D (List.mem_of_mem_tail hD), hcallers⟩⟩
  | define name type v =>
    exact h.of_changed (fun D hD => hD.insert name ⟨type, v⟩) (env.scopeAt_define name type v)
  | assign name v =>
    show ((env.assign? name v).map Prod.snd).getD env |>.Distinct
    rw [assign?_eq]
    cases env.lookup? name with
    | none => exact h
    | some s => exact h.of_changed (fun D hD => hD.assign name v) (env.scopeAt_assign name v)

theorem distinct_after (operations : List Operation) : (after operations).Distinct := by
  -- from any environment in which no scope holds a name twice, for the induction
  suffices ∀ env : Environment, env.Distinct → (operations.foldl Operation.apply env).Distinct from
    this empty ⟨List.nodup_nil, fun _ hF => nomatch hF⟩
  induction operations with
  | nil => exact fun _ h => h
  | cons operation operations ih => exact fun env h => ih _ (h.apply operation)

/-- After any operations, for every name and value:

- no scope holds a name twice;
- writing gives a type exactly if look-up finds a variable of this declared type;
- if it does, the variable at the home of the name, which is the one that look-up reads, is set to the
  value with its type unchanged, no other variable changes, and look-up then finds this value under the
  name and what it found before under all other names;
- if look-up finds nothing, nothing changes;
- a declaration sets the variable in the innermost scope and no other, and look-up then finds it. -/
theorem assignment_writes_slot_read (operations : List Operation) (name : String) (v : Value) :
    let env := after operations
    (∀ a D, env.scopeAt a = some D → D.Distinct) ∧
    (∀ type, (∃ env', env.assign? name v = some (type, env')) ↔
      ∃ s, env.lookup? name = some s ∧ s.type = type) ∧
    (∀ type env', env.assign? name v = some (type, env') →
      env.assign name v = env' ∧
      (∃ a, env.home? name = some a ∧ env.lookup? name = env.slotAt a name ∧
        env.SetTo a name ⟨type, v⟩ env') ∧
      env'.lookup? name = some ⟨type, v⟩ ∧ ∀ n, n ≠ name → env'.lookup? n = env.lookup? n) ∧
    (env.lookup? name = none → env.assign? name v = none ∧ env.assign name v = env) ∧
    ∀ type, env.SetTo env.innermost name ⟨type, v⟩ (env.define name type v) ∧
      (env.define name type v).lookup? name = some ⟨type, v⟩ ∧
      ∀ n, n ≠ name → (env.define name type v).lookup? n = env.lookup? n := by
  intro env
  have hdistinct : env.Distinct := distinct_after operations
  have hassign := env.assign?_eq name v
  refine ⟨fun a D hD => hdistinct.scopeAt hD, fun type => ?_, fun type env' h => ?_, fun h => ?_,
    fun type => ?_⟩
  · rw [hassign]
    cases env.lookup? name with
    | none => simp
    | some s => simp
  · obtain ⟨s, hs, hpair⟩ := Option.map_eq_some_iff.mp (hassign.symm.trans h)
    cases hpair
    obtain ⟨a, ha, hslot⟩ := Option.bind_eq_some_iff.mp ((env.lookup?_eq_slotAt name).symm.trans hs)
    refine ⟨rfl, ⟨a, ha, hs.trans hslot.symm, .assign ha hslot v⟩, ?_, fun n hn => ?_⟩
    · rw [lookup?_assign, if_pos rfl, hs, Option.map_some]
    · rw [lookup?_assign, if_neg hn]
  · exact ⟨by rw [hassign, h, Option.map_none], assign_of_unbound h v⟩
  · refine ⟨.define env name type v, ?_, fun n hn => ?_⟩
    · rw [lookup?_define, if_pos rfl]
    · rw [lookup?_define, if_neg hn]

/-- Three variables of one name, each of which hides the next: `x` in a block of a call, in the call
around it, and among the globals. In front of them a frame is closed that was never opened, and a scope
outside of every frame. -/
def hidingOperations : List Operation :=
  [.popFrame, .pushScope, .popScope, .define "x" .int (.int 0), .pushFrame, .define "x" .char (.char 97),
    .pushScope, .define "x" .int (.int 2)]

theorem hiding_innermost_written :
    ∃ env', (after hidingOperations).assign? "x" (.int 7) = some (.int, env') ∧
      env'.lookup? "x" = some ⟨.int, .int 7⟩ ∧
      env'.slotAt (.frame 0 1) "x" = some ⟨.char, .char 97⟩ ∧
      env'.slotAt .globals "x" = some ⟨.int, .int 0⟩ ∧
      (after hidingOperations).lookup? "y" = none ∧
      (after hidingOperations).assign? "y" (.int 7) = none := by
  have hassign : (after hidingOperations).assign? "x" (.int 7) =
      some (.int, (after hidingOperations).assign "x" (.int 7)) := by decide
  obtain ⟨-, -, hwritten, -, -⟩ := assignment_writes_slot_read hidingOperations "x" (.int 7)
  obtain ⟨-, ⟨a, hhome, -, hset⟩, hlookup, -⟩ := hwritten _ _ hassign
  have ha : a = .frame 0 0 := by
    have hfound : (after hidingOperations).home? "x" = some (.frame 0 0) := by decide
    exact Option.some.inj (hhome.symm.trans hfound)
  subst ha
  have hunbound : (after hidingOperations).lookup? "y" = none := by decide
  obtain ⟨-, -, -, hnothing, -⟩ := assignment_writes_slot_read hidingOperations "y" (.int 7)
  refine ⟨_, hassign, hlookup, ?_, ?_, hunbound, (hnothing hunbound).1⟩
  · rw [hset.others (.frame 0 1) "x" (.inl (by decide))]
    decide
  · rw [hset.others .globals "x" (.inl (by decide))]
    decide

end Environment

end Primer
