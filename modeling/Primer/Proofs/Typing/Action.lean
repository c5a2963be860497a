import Primer.Proofs.Typing.Walk

/-!
# The books of the checker

The checker keeps numbers in its state: scopes and signatures hold numbers of symbols, symbols hold
numbers of sections, and the open loops are counted. This module names the single actions on the state
and says what each takes for granted, and which states have their books in order.

- `Checker.Action.Safe` is what an action relies on: a symbol looked up by its number exists, there is a
  loop to leave, and there is a global scope to count the others from.
- `Checker.Sound` says that every number in a state refers to something.
- `Checker.Sound.apply` is the step lemma: a safe action on a sound state gives a sound state.
- `Checker.Leads` is a sequence of safe actions, and `Checker.Leads.sound` says that all states on its
  way are sound.
-/

namespace Primer

namespace Checker

/-! ## Actions -/

/-- A single thing that checking does with its state. -/
inductive Action where
  | report (violation : Violation) (pos : Position)
  | enterRoutine (name : String)
  | leaveRoutine
  | pushScope
  | popScope
  /-- Takes the number of scopes inside the global one. -/
  | countLevel
  | addSymbol (name : String) (kind : SymbolKind) (type : Ty) (level routine : Nat) (pos : Position)
  /-- Binds a name to a symbol in the innermost scope. -/
  | bind (name : String) (symbol : Nat)
  | addSignature (name : String) (signature : Signature)
  /-- Looks a symbol up by its number and adds a line to it. -/
  | recordUse (symbol line : Nat)
  | enterLoop
  | leaveLoop
  | enterBody (name : String) (returns : Ty)
  | markReturn
  | leaveBody
  deriving DecidableEq, Repr

namespace Action

/-- What an action does to the state. -/
def apply : Action → Checker → Checker
  | .report violation pos => fun c => c.report violation pos
  | .enterRoutine name => fun c => c.enterRoutine name
  | .leaveRoutine => fun c => c.leaveRoutine
  | .pushScope => fun c => c.pushScope
  | .popScope => fun c => c.popScope
  | .countLevel => fun c => c
  | .addSymbol name kind type level routine pos => fun c => c.addSymbol name kind type level routine pos
  | .bind name symbol => fun c => c.bind name symbol
  | .addSignature name signature => fun c => { c with functions := (name, signature) :: c.functions }
  | .recordUse symbol line => fun c => c.recordUse symbol line
  | .enterLoop => fun c => { c with breakable := c.breakable + 1 }
  | .leaveLoop => fun c => { c with breakable := c.breakable - 1 }
  | .enterBody name returns => fun c => { c with function := some ⟨name, returns, false⟩ }
  | .markReturn => fun c => { c with function := c.function.map fun f => { f with hasReturn := true } }
  | .leaveBody => fun c => { c with function := none }

/-- What an action takes for granted of the state. -/
def Safe : Action → Checker → Prop
  | .popScope, c => 1 < c.scopes.length
  | .countLevel, c => 0 < c.scopes.length
  | .addSymbol _ _ _ _ routine _, c => routine < c.routines.length
  | .bind _ symbol, c => 0 < c.scopes.length ∧ symbol < c.symbols.length
  | .addSignature _ signature, c => signature.symbol < c.symbols.length
  | .recordUse symbol _, c => symbol < c.symbols.length
  | .leaveLoop, c => 0 < c.breakable
  | _, _ => True

/-- Whether the action leaves the scopes around the innermost one and the count of loops alone. -/
def Flat : Action → Prop
  | .pushScope | .popScope | .enterLoop | .leaveLoop => False
  | _ => True

theorem Flat.outer {a : Action} (h : a.Flat) (c : Checker) :
    (a.apply c).scopes.tail = c.scopes.tail := by
  cases a with
  | pushScope => exact h.elim
  | popScope => exact h.elim
  | bind name symbol =>
    show (c.bind name symbol).scopes.tail = c.scopes.tail
    unfold Checker.bind
    split
    · rfl
    · next hscopes => rw [hscopes]; rfl
  | _ => rfl

theorem Flat.breakable {a : Action} (h : a.Flat) (c : Checker) :
    (a.apply c).breakable = c.breakable := by
  cases a with
  | enterLoop => exact h.elim
  | leaveLoop => exact h.elim
  | bind name symbol =>
    show (c.bind name symbol).breakable = c.breakable
    unfold Checker.bind
    split <;> rfl
  | _ => rfl

/-- Sections are only added. -/
theorem routines_prefix (a : Action) (c : Checker) : c.routines <+: (a.apply c).routines := by
  cases a with
  | enterRoutine name => exact List.prefix_append _ _
  | bind name symbol =>
    show c.routines <+: (c.bind name symbol).routines
    unfold Checker.bind
    split <;> exact List.prefix_refl _
  | _ => exact List.prefix_refl _

end Action

/-! ## States with their books in order -/

/-- Every number in the state refers to something. -/
structure Sound (c : Checker) : Prop extends c.Valid where
  signed : ∀ f ∈ c.functions, f.2.symbol < c.symbols.length
  sections : ∀ s ∈ c.symbols, s.routine < c.routines.length
  current : c.routine < c.routines.length

theorem new_sound (name : String) : (new name).Sound := by
  refine ⟨⟨List.cons_ne_nil _ _, ?_⟩, ?_, ?_, Nat.zero_lt_one⟩
  · simp [new]
  · simp [new]
  · simp [new]

variable {c c' c'' : Checker}

/-- The symbols may become more: numbers that referred to symbols still do. -/
theorem Sound.addSymbol (hc : c.Sound) (name : String) (kind : SymbolKind) (type : Ty) (level : Nat)
    {routine : Nat} (pos : Position) (hroutine : routine < c.routines.length) :
    (c.addSymbol name kind type level routine pos).Sound := by
  have hlength : (c.addSymbol name kind type level routine pos).symbols.length =
      c.symbols.length + 1 := by simp [Checker.addSymbol]
  refine ⟨⟨hc.open_, fun scope hs b hb => ?_⟩, fun f hf => ?_, fun s hs => ?_, hc.current⟩
  · have := hc.bound scope hs b hb
    omega
  · have := hc.signed f hf
    omega
  · rcases List.mem_append.mp hs with hs | hs
    · exact hc.sections s hs
    · rw [List.mem_singleton.mp hs]
      exact hroutine

theorem Sound.bind (hc : c.Sound) (name : String) {symbol : Nat} (hsymbol : symbol < c.symbols.length) :
    (c.bind name symbol).Sound := by
  unfold Checker.bind
  split
  · exact hc
  · next scope outer hscopes =>
    have hbound := hc.bound
    rw [hscopes] at hbound
    obtain ⟨hscope, houter⟩ := List.forall_mem_cons.mp hbound
    have hnew : ∀ b ∈ (name, symbol) :: scope, b.2 < c.symbols.length :=
      List.forall_mem_cons.mpr ⟨hsymbol, hscope⟩
    exact ⟨⟨List.cons_ne_nil _ _, List.forall_mem_cons.mpr ⟨hnew, houter⟩⟩, hc.signed, hc.sections,
      hc.current⟩

/-- Recording a use changes neither the number of symbols nor the sections they belong to. -/
theorem Sound.recordUse (hc : c.Sound) (symbol line : Nat) : (c.recordUse symbol line).Sound := by
  have hlength : (c.recordUse symbol line).symbols.length = c.symbols.length := List.length_modify ..
  refine ⟨⟨hc.open_, fun scope hs b hb => ?_⟩, fun f hf => ?_, fun s hs => ?_, hc.current⟩
  · rw [hlength]
    exact hc.bound scope hs b hb
  · rw [hlength]
    exact hc.signed f hf
  · obtain ⟨i, hi, hget⟩ := List.mem_iff_getElem.mp hs
    have hi' : i < c.symbols.length := hlength ▸ hi
    have hroutine : s.routine = c.symbols[i].routine := by
      rw [← hget]
      simp only [Checker.recordUse, List.getElem_modify]
      split <;> rfl
    rw [hroutine]
    exact hc.sections _ (List.getElem_mem hi')

/-- A safe action keeps the books in order. -/
theorem Sound.apply (hc : c.Sound) {a : Action} (ha : a.Safe c) : (a.apply c).Sound := by
  -- what does not touch scopes, symbols, signatures and sections keeps all fields as they are
  have hsame : ∀ d : Checker, d.scopes = c.scopes → d.symbols = c.symbols → d.functions = c.functions →
      d.routines = c.routines → d.routine = c.routine → d.Sound := by
    rintro ⟨⟩ rfl rfl rfl rfl rfl
    exact ⟨⟨hc.open_, hc.bound⟩, hc.signed, hc.sections, hc.current⟩
  cases a with
  | enterRoutine name =>
    -- the new section is the last one, and all others keep their numbers
    have hlength : (c.enterRoutine name).routines.length = c.routines.length + 1 := by
      simp [Checker.enterRoutine]
    refine ⟨⟨hc.open_, hc.bound⟩, hc.signed, fun s hs => ?_, ?_⟩
    · have := hc.sections s hs
      show s.routine < (c.enterRoutine name).routines.length
      omega
    · show c.routines.length < (c.enterRoutine name).routines.length
      omega
  | leaveRoutine =>
    exact ⟨⟨hc.open_, hc.bound⟩, hc.signed, hc.sections, Nat.zero_lt_of_lt hc.current⟩
  | pushScope =>
    have hvalid := hc.toValid.pushScope
    exact ⟨⟨hvalid.open_, hvalid.bound⟩, hc.signed, hc.sections, hc.current⟩
  | popScope =>
    -- the global scope is not closed
    have hlong : 1 < c.scopes.length := ha
    have hopen : c.popScope.scopes ≠ [] := by
      have hlength : c.popScope.scopes.length = c.scopes.length - 1 := List.length_tail
      refine List.ne_nil_of_length_pos ?_
      omega
    exact ⟨⟨hopen, fun scope hs => hc.bound scope (List.mem_of_mem_tail hs)⟩, hc.signed, hc.sections,
      hc.current⟩
  | addSymbol name kind type level routine pos => exact hc.addSymbol name kind type level pos ha
  | bind name symbol => exact hc.bind name ha.2
  | addSignature name signature =>
    exact ⟨⟨hc.open_, hc.bound⟩, List.forall_mem_cons.mpr ⟨ha, hc.signed⟩, hc.sections, hc.current⟩
  | recordUse symbol line => exact hc.recordUse symbol line
  | _ => exact hsame _ rfl rfl rfl rfl rfl

/-! ## Sequences of actions -/

/-- The actions lead from one state to another: each is taken in the state that the one before it left,
which is noted beside it, and is safe there. -/
inductive Leads : Checker → List (Action × Checker) → Checker → Prop where
  | nil (c : Checker) : Leads c [] c
  | cons {a : Action} {steps : List (Action × Checker)} {c c' : Checker} (safe : a.Safe c)
      (rest : Leads (a.apply c) steps c') : Leads c ((a, c) :: steps) c'

namespace Leads

variable {a : Action} {steps steps' : List (Action × Checker)}

theorem one (ha : a.Safe c) : c.Leads [(a, c)] (a.apply c) :=
  .cons ha (.nil _)

theorem append (h : c.Leads steps c') (h' : c'.Leads steps' c'') : c.Leads (steps ++ steps') c'' := by
  induction h with
  | nil => exact h'
  | cons safe _ ih => exact .cons safe (ih h')

/-- From a sound state on, every state on the way is sound and so is the last one. -/
theorem sound (h : c.Leads steps c') (hc : c.Sound) :
    (∀ step ∈ steps, step.2.Sound ∧ step.1.Safe step.2) ∧ c'.Sound := by
  induction h with
  | nil => exact ⟨fun _ hm => (List.not_mem_nil hm).elim, hc⟩
  | cons safe _ ih =>
    obtain ⟨hsteps, hend⟩ := ih (hc.apply safe)
    exact ⟨List.forall_mem_cons.mpr ⟨⟨hc, safe⟩, hsteps⟩, hend⟩

theorem routines_prefix (h : c.Leads steps c') : c.routines <+: c'.routines := by
  induction h with
  | nil => exact List.prefix_refl _
  | cons _ _ ih => exact (Action.routines_prefix _ _).trans ih

end Leads

end Checker

end Primer
