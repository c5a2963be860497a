import Primer.Proofs.Lookup
import Primer.Proofs.Typing.Rules

/-!
# The walk of the checker

What checking does to its state, whether or not it finds errors, and how to reason about checking
that finds none.

- `Checker.Step` says what every part of the walk keeps: errors are only added, symbols keep their
  numbers and types, the scopes around the innermost one stay as they are, and what is opened is
  closed again.
- `Checker.view` is the state seen by the static rules: the names in scope with their types.
- `Check.after` is where a part of the walk ends.
- `Check.Ensures` describes a computation that takes a step and that has a property unless it reports
  an error. `Check.bind_ensures` composes such descriptions.
-/

namespace Primer

namespace Checker

/-! ## States -/

/-- Every name in scope refers to a symbol, and there is always a scope. -/
structure Valid (c : Checker) : Prop where
  open_ : c.scopes ≠ []
  bound : ∀ scope ∈ c.scopes, ∀ b ∈ scope, b.2 < c.symbols.length

/-- What checking keeps while it is inside one function, or between the items of a program. -/
structure Step (c c' : Checker) : Prop where
  errors : c.errors <+: c'.errors
  types : c.symbols.map Symbol.type <+: c'.symbols.map Symbol.type
  outer : c'.scopes.tail = c.scopes.tail
  functions : c'.functions = c.functions
  function : c'.function.map (fun f => (f.name, f.returns)) =
    c.function.map (fun f => (f.name, f.returns))
  breakable : c'.breakable = c.breakable
  routine : c'.routine = c.routine
  routines : c'.routines = c.routines
  valid : c.Valid → c'.Valid

theorem Step.refl (c : Checker) : c.Step c :=
  ⟨List.prefix_refl _, List.prefix_refl _, rfl, rfl, rfl, rfl, rfl, rfl, id⟩

theorem Step.trans {c c' c'' : Checker} (h : c.Step c') (h' : c'.Step c'') : c.Step c'' where
  errors := h.errors.trans h'.errors
  types := h.types.trans h'.types
  outer := h'.outer.trans h.outer
  functions := h'.functions.trans h.functions
  function := h'.function.trans h.function
  breakable := h'.breakable.trans h.breakable
  routine := h'.routine.trans h.routine
  routines := h'.routines.trans h.routines
  valid := fun hv => h'.valid (h.valid hv)

theorem Step.errors_nil {c c' : Checker} (h : c.Step c') (hc : c'.errors = []) : c.errors = [] :=
  List.prefix_nil.mp (hc ▸ h.errors)

/-- The names in scope and the types of all symbols are unchanged. -/
structure Same (c c' : Checker) : Prop where
  scopes : c'.scopes = c.scopes
  types : c'.symbols.map Symbol.type = c.symbols.map Symbol.type
  function : c'.function = c.function

theorem Same.refl (c : Checker) : c.Same c := ⟨rfl, rfl, rfl⟩

theorem Same.trans {c c' c'' : Checker} (h : c.Same c') (h' : c'.Same c'') : c.Same c'' :=
  ⟨h'.scopes.trans h.scopes, h'.types.trans h.types, h'.function.trans h.function⟩

/-- The state in which the inside of a loop or switch is checked. -/
def inLoop (c : Checker) : Checker :=
  { c with breakable := c.breakable + 1 }

theorem typeOf?_eq (c : Checker) (symbol : Nat) :
    c.typeOf? symbol = (c.symbols.map Symbol.type)[symbol]? := by
  simp [typeOf?]

theorem typeOf?_of_types {c c' : Checker}
    (h : c.symbols.map Symbol.type <+: c'.symbols.map Symbol.type) {symbol : Nat}
    (hs : symbol < c.symbols.length) : c'.typeOf? symbol = c.typeOf? symbol := by
  obtain ⟨added, h⟩ := h
  rw [typeOf?_eq, typeOf?_eq, ← h, List.getElem?_append_left (by simpa using hs)]

/-! ## The state seen by the static rules -/

/-- One scope with the types of its names. -/
def viewScope (c : Checker) (scope : StaticScope) : TypeScope :=
  scope.map fun b => (b.1, (c.typeOf? b.2).getD .void)

/-- The names in scope with their types. -/
def view (c : Checker) : TypeScopes :=
  c.scopes.map c.viewScope

/-- The functions that may be called. -/
def signatures (c : Checker) : Signatures :=
  fun name => (c.functions.lookup name).map fun s => ⟨s.params, s.returns⟩

theorem viewScope_lookup (c : Checker) (scope : StaticScope) (name : String) :
    (c.viewScope scope).lookup name =
      (scope.lookup name).map fun symbol => (c.typeOf? symbol).getD .void :=
  Lookup.lookup_map (fun symbol => (c.typeOf? symbol).getD .void) name scope

theorem viewScope_of_types {c c' : Checker}
    (h : c.symbols.map Symbol.type <+: c'.symbols.map Symbol.type) {scope : StaticScope}
    (hs : ∀ b ∈ scope, b.2 < c.symbols.length) : c'.viewScope scope = c.viewScope scope :=
  List.map_congr_left fun b hb => by rw [typeOf?_of_types h (hs b hb)]

/-- The type of a name is that of the symbol it means. -/
theorem view_type? {c : Checker} (hc : c.Valid) (name : String) :
    c.view.type? name = (symbolOf? c.scopes name).bind c.typeOf? := by
  have hbound := hc.bound
  unfold view TypeScopes.type? symbolOf?
  revert hbound
  generalize c.scopes = scopes
  intro hbound
  induction scopes with
  | nil => rfl
  | cons scope outer ih =>
    rw [List.map_cons, List.findSome?_cons, List.findSome?_cons, viewScope_lookup]
    cases hl : List.lookup name scope with
    | some symbol =>
      have hlt : symbol < c.symbols.length :=
        hbound scope List.mem_cons_self _ (Lookup.mem_of_lookup hl)
      simp [typeOf?, List.getElem?_eq_getElem hlt]
    | none => exact ih fun s hs => hbound s (List.mem_cons_of_mem _ hs)

theorem Valid.pushScope {c : Checker} (hc : c.Valid) : c.pushScope.Valid :=
  ⟨List.cons_ne_nil _ _, List.forall_mem_cons.mpr ⟨by simp, hc.bound⟩⟩

theorem Valid.inLoop {c : Checker} (hc : c.Valid) : c.inLoop.Valid :=
  ⟨hc.open_, hc.bound⟩

theorem popScope_view (c : Checker) : c.popScope.view = c.view.tail :=
  List.map_tail

theorem Same.view {c c' : Checker} (h : c.Same c') : c'.view = c.view := by
  have ht : c'.typeOf? = c.typeOf? := by
    funext symbol
    rw [typeOf?_eq, typeOf?_eq, h.types]
  unfold Checker.view viewScope
  rw [h.scopes, ht]

/-- A step leaves what the rules see of the outer scopes as it is. -/
theorem Step.view_tail {c c' : Checker} (h : c.Step c') (hc : c.Valid) :
    c'.view.tail = c.view.tail := by
  unfold Checker.view
  rw [← List.map_tail, ← List.map_tail, h.outer]
  exact List.map_congr_left fun scope hs =>
    viewScope_of_types h.types (hc.bound scope (List.mem_of_mem_tail hs))

theorem Step.signatures {c c' : Checker} (h : c.Step c') : c'.signatures = c.signatures := by
  unfold Checker.signatures
  rw [h.functions]

end Checker

/-! ## Computations -/

namespace Check

variable {α β : Type}

/-- The state after checking. -/
def after (x : Check α) (c : Checker) : Checker :=
  (x.run c).2

/-- Checks the condition of a loop, if it has one. -/
def guard : Option Expr → Check Unit
  | some e => condition e
  | none => pure ()

/-- The computation takes a step, and `Q` holds after it unless it reported an error. -/
def Ensures (x : Check α) (c : Checker) (Q : α → Checker → Prop) : Prop :=
  c.Step (x.run c).2 ∧ ((x.run c).2.errors = [] → Q (x.run c).1 (x.run c).2)

theorem Ensures.imp {x : Check α} {c : Checker} {Q Q' : α → Checker → Prop} (h : Ensures x c Q)
    (hQ : ∀ a c', c.Step c' → Q a c' → Q' a c') : Ensures x c Q' :=
  ⟨h.1, fun he => hQ _ _ h.1 (h.2 he)⟩

theorem pure_ensures {a : α} {c : Checker} {Q : α → Checker → Prop} (h : Q a c) :
    Ensures (pure a) c Q :=
  ⟨Checker.Step.refl c, fun _ => h⟩

/-- Two computations in a row: the second may rely on what the first ensures. -/
theorem bind_ensures {x : Check α} {f : α → Check β} {c : Checker} {R : α → Checker → Prop}
    {Q : β → Checker → Prop} (hx : Ensures x c R)
    (hf : ∀ a c', c.Step c' → Ensures (f a) c' fun b c'' => R a c' → Q b c'') :
    Ensures (x >>= f) c Q := by
  have h := hf (x.run c).1 (x.run c).2 hx.1
  exact ⟨hx.1.trans h.1, fun he => h.2 he (hx.2 (h.1.errors_nil he))⟩

theorem get_bind_run (f : Checker → Check β) (c : Checker) : (get >>= f).run c = (f c).run c :=
  rfl

theorem get_bind_ensures {f : Checker → Check β} {c : Checker} {Q : β → Checker → Prop}
    (h : Ensures (f c) c Q) : Ensures (get >>= f) c Q :=
  h

theorem modify_ensures {f : Checker → Checker} {c : Checker} {Q : Unit → Checker → Prop}
    (hs : c.Step (f c)) (h : (f c).errors = [] → Q () (f c)) : Ensures (modify f) c Q :=
  ⟨hs, h⟩

/-- A computation that reports an error ensures anything. -/
theorem report_ensures {violation : Violation} {pos : Position} {c : Checker}
    {Q : Unit → Checker → Prop} : Ensures (report violation pos) c Q := by
  refine modify_ensures ⟨List.prefix_append _ _, List.prefix_refl _, rfl, rfl, rfl, rfl, rfl, rfl, ?_⟩ ?_
  · exact fun h => ⟨h.open_, h.bound⟩
  · intro he
    simp [Checker.report] at he

theorem report_pure_ensures {violation : Violation} {pos : Position} {a : α} {c : Checker}
    {Q : α → Checker → Prop} : Ensures (do report violation pos; return a) c Q :=
  bind_ensures (R := fun _ _ => False) report_ensures fun _ _ _ => pure_ensures False.elim

theorem reportIf_ensures {condition : Bool} {violation : Violation} {pos : Position} {c : Checker}
    {Q : Unit → Checker → Prop} (h : condition = false → Q () c) :
    Ensures (reportIf condition violation pos) c Q := by
  unfold reportIf
  cases condition with
  | true => exact report_ensures
  | false => exact pure_ensures (h rfl)

/-- What is checked in a scope of its own leaves the names in scope as they were. -/
theorem inScope_ensures {x : Check α} {c : Checker} {Q : α → Checker → Prop}
    (hx : Ensures x c.pushScope fun a c' => Q a c'.popScope) : Ensures (inScope x) c Q := by
  obtain ⟨hs, hq⟩ := hx
  have houter : (x.run c.pushScope).2.popScope.scopes = c.scopes := hs.outer
  refine ⟨⟨hs.errors, hs.types, ?_, hs.functions, hs.function, hs.breakable, hs.routine,
    hs.routines, fun hv => ?_⟩, hq⟩
  · exact congrArg List.tail houter
  · have hv' : (x.run c.pushScope).2.Valid := hs.valid hv.pushScope
    exact ⟨by rw [show ((inScope x).run c).2.scopes = c.scopes from houter]; exact hv.open_,
      fun scope hm => hv'.bound scope (List.mem_of_mem_tail hm)⟩

/-- Loops and switches are counted while they are open only. -/
theorem insideLoop_ensures {x : Check α} {c : Checker} {Q : α → Checker → Prop}
    (hx : Ensures x { c with breakable := c.breakable + 1 }
      fun a c' => Q a { c' with breakable := c'.breakable - 1 }) :
    Ensures (insideLoop x) c Q := by
  obtain ⟨hs, hq⟩ := hx
  refine ⟨⟨hs.errors, hs.types, hs.outer, hs.functions, hs.function, ?_, hs.routine, hs.routines,
    fun hv => ?_⟩, hq⟩
  · show (x.run { c with breakable := c.breakable + 1 }).2.breakable - 1 = c.breakable
    rw [hs.breakable, Nat.add_sub_cancel]
  · have hv' := hs.valid ⟨hv.open_, hv.bound⟩
    exact ⟨hv'.open_, hv'.bound⟩

end Check

end Primer
