import Primer.Proofs.Typing.Uniform

/-!
# Function bodies are checked in isolation

Whatever is wrong in the body of one function, the other items of the program get the errors that they
get without it. Checking a function leaves nothing behind that is read later: its scope is closed, and
the numbers that its symbols took are read by nobody else.

- `Program.replaceBody` gives one function of a program another body.
- `Checker.errorsByItem` lists the errors of each item; together with those of registration they are
  all errors of the program.
- `errors_replaceBody` is the statement about all programs.
-/

namespace Primer

/-! ## Another body -/

/-- The function with another body. -/
def FunctionDef.withBody (body : List Stmt) (bodyPos : Position) (f : FunctionDef) : FunctionDef :=
  { f with body, bodyPos }

/-- The item with another body, if it is a function. -/
def Item.withBody (body : List Stmt) (bodyPos : Position) : Item → Item
  | .function f => .function (f.withBody body bodyPos)
  | .global d => .global d

/-- The program with another body for the function that is its item number `k`, if this is one. -/
def Program.replaceBody (p : Program) (k : Nat) (body : List Stmt) (bodyPos : Position) : Program :=
  { p with items := p.items.modify k (Item.withBody body bodyPos) }

namespace Checker

variable {c c' : Checker} {body : List Stmt} {bodyPos : Position}

/-- Registering functions does not look at their bodies. -/
theorem register_replaceBody (name : String) (pos : Position) : ∀ (items : List Item) (k : Nat),
    ((Program.mk name items pos).replaceBody k body bodyPos).functions.forM Check.register =
      (Program.mk name items pos).functions.forM Check.register
  | [], k => by simp [Program.replaceBody]
  | .function f :: items, 0 => rfl
  | .global d :: items, 0 => rfl
  | .function f :: items, k + 1 => by
    have ih := register_replaceBody name pos items k
    exact congrArg (fun x => Check.register f >>= fun _ => x) ih
  | .global d :: items, k + 1 => register_replaceBody name pos items k

theorem registered_replaceBody (p : Program) (k : Nat) :
    registered (p.replaceBody k body bodyPos) = registered p := by
  unfold registered
  rw [register_replaceBody]
  rfl

/-! ## Functions -/

theorem enterRoutine_valid (hc : c.Valid) (name : String) : (c.enterRoutine name).pushScope.Valid :=
  Valid.pushScope (c := c.enterRoutine name) ⟨hc.open_, hc.bound⟩

theorem Agrees.enterFunction (h : c.Agrees c') (hc : c.Valid) (hc' : c'.Valid) (f : FunctionDef) :
    Together c c' (c.enterFunction f) (c'.enterFunction f) := by
  have hopen : (c.enterRoutine f.name).pushScope.Agrees (c'.enterRoutine f.name).pushScope :=
    ⟨congrArg (List.cons []) h.view, h.functions, h.function, h.breakable⟩
  obtain ⟨-, hparams⟩ := (Check.uniform_params f.params).agrees (enterRoutine_valid hc f.name)
    (enterRoutine_valid hc' f.name) hopen
  have hagrees := hparams.agrees
  exact ⟨⟨hagrees.view, hagrees.functions, rfl, hagrees.breakable⟩, hparams.errors⟩

theorem Agrees.leaveFunction (h : c.Agrees c') (hc : c.Valid) (hc' : c'.Valid) (f : FunctionDef) :
    Together c c' (c.leaveFunction f) (c'.leaveFunction f) := by
  obtain ⟨-, hreturn⟩ := (Check.uniform_requireReturn f).agrees hc hc' h
  have hagrees := hreturn.agrees
  have hview : (c'.leaveFunction f).view = (c.leaveFunction f).view := by
    show ((Check.requireReturn f).after c').popScope.view =
      ((Check.requireReturn f).after c).popScope.view
    rw [popScope_view, popScope_view, hagrees.view]
  exact ⟨⟨hview, hagrees.functions, rfl, hagrees.breakable⟩, hreturn.errors⟩

theorem Agrees.functionDef (h : c.Agrees c') (hc : c.Valid) (hc' : c'.Valid) (f : FunctionDef) :
    Together c c' ((Check.functionDef f).after c) ((Check.functionDef f).after c') := by
  have hvalid := enterFunction_valid hc f
  have hvalid' := enterFunction_valid hc' f
  have hbody := Check.uniform_stmts f.body true
  have henter := h.enterFunction hc hc' f
  have hinside := (hbody.agrees hvalid hvalid' henter.agrees).2
  have hleave := hinside.agrees.leaveFunction (hbody.valid hvalid) (hbody.valid hvalid') f
  exact henter.trans (hinside.trans hleave)

/-! ## Items -/

/-- Checking a function closes what it opens, whatever its body is. -/
theorem function_itemStep (hc : c.AtItems) (f : FunctionDef) :
    c.ItemStep ((Check.functionDef f).after c) ∧ ((Check.functionDef f).after c).view = c.view :=
  leaveFunction_itemStep hc
    ((Check.uniform_stmts f.body true).step (enterFunction_valid hc.valid f))

theorem item_step (hc : c.AtItems) : ∀ i : Item, c.ItemStep ((Check.item i).after c)
  | .global d => ((Check.uniform_varDecl d).step hc.valid).item hc
  | .function f => (function_itemStep hc f).1

theorem item_together (h : c.Agrees c') (hc : c.Valid) (hc' : c'.Valid) :
    ∀ i : Item, Together c c' ((Check.item i).after c) ((Check.item i).after c')
  | .global d => ((Check.uniform_varDecl d).agrees hc hc' h).2
  | .function f => h.functionDef hc hc' f

/-- What a function leaves behind agrees with what there was before it, so with what any other body
leaves behind. -/
theorem function_agrees (hc : c.AtItems) (f : FunctionDef) :
    c.Agrees ((Check.item (.function f)).after c) := by
  obtain ⟨hstep, hview⟩ := function_itemStep hc f
  have hatItems := hstep.atItems
  exact ⟨hview, hstep.functions, hatItems.function.trans hc.function.symm,
    hatItems.breakable.trans hc.breakable.symm⟩

theorem withBody_agrees (hc : c.AtItems) : ∀ i : Item,
    ((Check.item i).after c).Agrees ((Check.item (i.withBody body bodyPos)).after c)
  | .global _ => .refl _
  | .function f => (function_agrees hc f).symm.trans (function_agrees hc (f.withBody body bodyPos))

/-- The errors that are reported while an item is checked. -/
def errorsOf (c : Checker) (i : Item) : List SemanticError :=
  ((Check.item i).after c).errors.drop c.errors.length

/-- The errors that are reported while each of the items is checked. -/
def errorsByItem (c : Checker) : List Item → List (List SemanticError)
  | [] => []
  | i :: items => c.errorsOf i :: ((Check.item i).after c).errorsByItem items

theorem length_errorsByItem : ∀ (items : List Item) (c : Checker),
    (c.errorsByItem items).length = items.length
  | [], _ => rfl
  | _ :: items, _ => congrArg (· + 1) (length_errorsByItem items _)

/-- All errors are reported by some item. -/
theorem errors_flatten (hc : c.AtItems) (items : List Item) :
    ((items.forM Check.item).after c).errors = c.errors ++ (c.errorsByItem items).flatten := by
  induction items generalizing c with
  | nil => exact (List.append_nil _).symm
  | cons i items ih =>
    have hstep := item_step hc i
    have hitem : ((Check.item i).after c).errors = c.errors ++ c.errorsOf i := by
      obtain ⟨added, hadded⟩ := hstep.errors
      rw [errorsOf, ← hadded, List.drop_left]
    show ((items.forM Check.item).after ((Check.item i).after c)).errors = _
    rw [ih hstep.atItems, hitem, errorsByItem, List.flatten_cons, List.append_assoc]

theorem errorsOf_eq (h : c.Agrees c') (hc : c.Valid) (hc' : c'.Valid) (i : Item) :
    c'.errorsOf i = c.errorsOf i := by
  obtain ⟨added, hadded, hadded'⟩ := (item_together h hc hc' i).errors
  rw [errorsOf, errorsOf, hadded, hadded', List.drop_left, List.drop_left]

/-- Items get the same errors in states that agree. -/
theorem errorsByItem_eq (h : c.Agrees c') (hc : c.AtItems) (hc' : c'.AtItems) (items : List Item) :
    c'.errorsByItem items = c.errorsByItem items := by
  induction items generalizing c c' with
  | nil => rfl
  | cons i items ih =>
    have hnext := (item_together h hc.valid hc'.valid i).agrees
    rw [errorsByItem, errorsByItem, errorsOf_eq h hc.valid hc'.valid,
      ih hnext (item_step hc i).atItems (item_step hc' i).atItems]

/-- Another body for item `k` makes no difference for the errors of any other item. -/
theorem errorsByItem_modify (hc : c.AtItems) (items : List Item) (k : Nat) {j : Nat} (hj : j ≠ k) :
    (c.errorsByItem (items.modify k (Item.withBody body bodyPos)))[j]? = (c.errorsByItem items)[j]? := by
  induction items generalizing c k j with
  | nil => rw [List.modify_nil]
  | cons i items ih =>
    have hatItems := (item_step hc i).atItems
    cases k with
    | zero =>
      obtain ⟨j, rfl⟩ := Nat.exists_eq_succ_of_ne_zero hj
      show (((Check.item (i.withBody body bodyPos)).after c).errorsByItem items)[j]? =
        (((Check.item i).after c).errorsByItem items)[j]?
      rw [errorsByItem_eq (withBody_agrees hc i) hatItems (item_step hc _).atItems]
    | succ k =>
      cases j with
      | zero => rfl
      | succ j => exact ih hatItems k fun h => hj (congrArg (· + 1) h)

end Checker

/-- The errors that are reported while functions are registered. -/
def Program.registrationErrors (p : Program) : List SemanticError :=
  (Checker.registered p).errors

/-- The errors that are reported while each item of the program is checked. -/
def Program.itemErrors (p : Program) : List (List SemanticError) :=
  (Checker.registered p).errorsByItem p.items

theorem Program.errors_eq (p : Program) :
    (Checker.ofProgram p).errors = p.registrationErrors ++ p.itemErrors.flatten :=
  Checker.errors_flatten (Checker.registered_atItems p) p.items

/-- Two programs that differ only in the body of one function have the same errors of registration,
and every other item gets the same errors in the same order. The errors of a program are those of
registration followed by those of its items. -/
theorem errors_replaceBody (p : Program) (k : Nat) (body : List Stmt) (bodyPos : Position) :
    (p.replaceBody k body bodyPos).registrationErrors = p.registrationErrors ∧
      (∀ j, j ≠ k → (p.replaceBody k body bodyPos).itemErrors[j]? = p.itemErrors[j]?) ∧
      ∀ q : Program, q.itemErrors.length = q.items.length ∧
        (Checker.ofProgram q).errors = q.registrationErrors ++ q.itemErrors.flatten := by
  refine ⟨?_, fun j hj => ?_, fun q => ⟨Checker.length_errorsByItem _ _, q.errors_eq⟩⟩
  · rw [Program.registrationErrors, Checker.registered_replaceBody]
    rfl
  · rw [Program.itemErrors, Checker.registered_replaceBody]
    exact Checker.errorsByItem_modify (Checker.registered_atItems p) p.items k hj

/-- A function that uses an unknown variable, a global of the wrong type, and a function that uses the
global and another unknown variable. -/
def mistakes : Program where
  name := "p"
  items := [
    .function ⟨"f", [], .void, [.eval (.var "y" ⟨2, 3⟩) ⟨2, 3⟩], ⟨1, 12⟩, ⟨1, 1⟩⟩,
    .global ⟨.int, "x", some (.literal (.string "s") ⟨4, 9⟩), ⟨4, 1⟩⟩,
    .function ⟨"main", [], .void, [.eval (.assign "x" (.var "z" ⟨6, 7⟩) ⟨6, 5⟩) ⟨6, 3⟩], ⟨5, 13⟩, ⟨5, 1⟩⟩]
  pos := ⟨1, 1⟩

theorem mistakes_isolated :
    mistakes.itemErrors = [[⟨.unknownVariable "y", ⟨2, 3⟩⟩], [⟨.typeMismatch .int .string, ⟨4, 9⟩⟩],
        [⟨.unknownVariable "z", ⟨6, 7⟩⟩]] ∧
      (mistakes.replaceBody 0 [.declare ⟨.int, "z", none, ⟨2, 3⟩⟩] ⟨1, 12⟩).itemErrors[2]? =
        some [⟨.unknownVariable "z", ⟨6, 7⟩⟩] :=
  ⟨rfl, (errors_replaceBody mistakes 0 [.declare ⟨.int, "z", none, ⟨2, 3⟩⟩] ⟨1, 12⟩).2.1 2 (by decide)⟩

end Primer
