import Primer.Proofs.CrossReference.Table
import Primer.Proofs.Typing.Action
import Primer.Proofs.Typing.Inspection
import Primer.Proofs.Typing.Isolation

/-!
# The checker keeps its books in order

Checking again, but every action on the state is written down together with the state in which it was
taken. This shows the states in the middle of the walk, which the state at its end does not.

- `Recorded.program` walks over a program in this way, and `Checker.steps` is what it writes down.
- `Records` relates a recorded walk to the walk of the checker: both come to the same result and state,
  and what is written down leads there by safe actions.
- `checking_keeps_books` says for every program, with errors or without, that all these states are sound,
  that all actions are safe, and that in the end everything is closed and no symbol is lost.
-/

namespace Primer

open Checker (Action)

/-! ## The recorded walk -/

/-- Computations that check and write their actions down. -/
abbrev Recorded := StateM (Checker × List (Action × Checker))

namespace Recorded

variable {α : Type}

/-- Takes an action and writes it down. -/
def act (a : Action) : Recorded Unit :=
  modify fun (c, steps) => (a.apply c, steps ++ [(a, c)])

/-- The state of checking. -/
def look : Recorded Checker := do
  return (← get).1

/-- Checks something that can only be refused, one action for each error. -/
def refuse (x : Check α) : Recorded α := do
  let c ← look
  ((x.after c).errors.drop c.errors.length).forM fun e => act (.report e.violation e.pos)
  return (x.run c).1

/-- Uses a variable. -/
def resolve (name : String) (pos : Position) : Recorded (Option Ty) := do
  let c ← look
  match Checker.symbolOf? c.scopes name with
  | some symbol =>
    act (.recordUse symbol pos.line)
    return c.typeOf? symbol
  | none =>
    act (.report (.unknownVariable name) pos)
    return none

/-- Uses a function. -/
def resolveFunction (name : String) (pos : Position) : Recorded (Option Signature) := do
  let c ← look
  match c.functions.lookup name with
  | some signature =>
    act (.recordUse signature.symbol pos.line)
    return some signature
  | none =>
    act (.report (.unknownFunction name) pos)
    return none

/-- Declares a variable or parameter in the innermost scope. Its level is taken first. -/
def declare (name : String) (kind : SymbolKind) (type : Ty) (pos : Position) : Recorded Unit := do
  act .countLevel
  let c ← look
  if c.declaresHere name then act (.report (.redeclared name) pos)
  else
    act (.addSymbol name kind type (c.scopes.length - 1) c.routine pos)
    act (.bind name c.symbols.length)

/-- Checks inside a scope of its own. -/
def inScope (x : Recorded α) : Recorded α := do
  act .pushScope
  let a ← x
  act .popScope
  return a

/-- Checks inside a loop or switch. -/
def insideLoop (x : Recorded α) : Recorded α := do
  act .enterLoop
  let a ← x
  act .leaveLoop
  return a

mutual

/-- The type of an expression. -/
def expr : Expr → Recorded (Option Ty)
  | .literal value _ => return some value.type
  | .var name pos => resolve name pos
  | .assign name value pos => do
    let found ← refuse (Check.requireValue value (← expr value))
    match ← resolve name pos with
    | some expected =>
      refuse (Check.requireType expected found value.pos)
      return some expected
    | none => return none
  | .unary op operand _ => do
    let found ← refuse (Check.requireValue operand (← expr operand))
    refuse (Check.requireIntegral (.unary op) found operand.pos)
    return some .int
  | .binary op left right _ => do
    let leftType ← refuse (Check.requireValue left (← expr left))
    let rightType ← refuse (Check.requireValue right (← expr right))
    refuse (Check.requireIntegral (.binary op) leftType left.pos)
    refuse (Check.requireIntegral (.binary op) rightType right.pos)
    return some .int
  | .call name args pos =>
    if name = printName then do
      printArgs pos args
      return some .void
    else do
      let found ← values args
      match ← resolveFunction name pos with
      | some signature =>
        refuse (Check.requireSignature signature name args found pos)
        return some signature.returns
      | none => return none

/-- The types of expressions used as values, from left to right. -/
def values : List Expr → Recorded (List (Option Ty))
  | [] => return []
  | e :: es => do
    let found ← refuse (Check.requireValue e (← expr e))
    let rest ← values es
    return found :: rest

/-- Checks the arguments of `print`. -/
def printArgs (pos : Position) : List Expr → Recorded Unit
  | [] => act (.report .missingFormatString pos)
  | format :: rest => do
    let found ← refuse (Check.requireValue format (← expr format))
    match found with
    | some type => refuse (Check.reportIf (type != .string) (.typeMismatch .string type) format.pos)
    | none => pure ()
    let _ ← values rest

end

/-- The type of an expression used as a value. -/
def value (e : Expr) : Recorded (Option Ty) := do
  refuse (Check.requireValue e (← expr e))

/-- Checks the condition of a branch or loop. -/
def condition (e : Expr) : Recorded Unit := do
  match ← value e with
  | some type => refuse (Check.reportIf (!type.isIntegral) (.invalidCondition type) e.pos)
  | none => pure ()

/-- Checks a declaration. -/
def varDecl (d : VarDecl) : Recorded Unit := do
  refuse (Check.reportIf (d.type == .void) (.voidVariable d.name) d.pos)
  match d.init with
  | some e =>
    let found ← value e
    if d.type ≠ .void then refuse (Check.requireType d.type found e.pos)
  | none => pure ()
  declare d.name .variable_ d.type d.pos

/-- Checks the first clause of a `for` header. -/
def forInit : Option ForInit → Recorded Unit
  | some (.declare decl) => varDecl decl
  | some (.eval e) => do
    let _ ← expr e
  | none => pure ()

/-- Checks an expression whose value is not used. -/
def effect : Option Expr → Recorded Unit
  | some e => do
    let _ ← expr e
  | none => pure ()

/-- Checks a `return` statement against the current function. -/
def ret (returnValue : Option Expr) (pos : Position) (reachable : Bool) : Recorded Unit := do
  match returnValue with
  | some e =>
    let found ← value e
    match (← look).function with
    | some f =>
      if f.returns = .void then act (.report (.unexpectedReturnValue f.name) pos)
      else
        if reachable then act .markReturn
        refuse (Check.requireType f.returns found e.pos)
    | none => pure ()
  | none =>
    match (← look).function with
    | some f => refuse (Check.reportIf (f.returns != .void) (.missingReturnValue f.name f.returns) pos)
    | none => pure ()

/-- Checks the scrutinee of a switch. -/
def scrutinee (e : Expr) : Recorded (Option Ty) := do
  let found ← value e
  match found with
  | some type => refuse (Check.reportIf (!type.isIntegral) (.invalidSwitchType type) e.pos)
  | none => pure ()
  return found

mutual

/-- Checks a statement that control can reach if `reachable` holds. -/
def stmt (reachable : Bool) : Stmt → Recorded Exit
  | .declare decl => do
    varDecl decl
    return .continues
  | .eval e _ => do
    let _ ← expr e
    return .continues
  | .block body _ => inScope (stmts reachable body)
  | .branch cond onTrue none _ => do
    condition cond
    let _ ← stmt reachable onTrue
    return .continues
  | .branch cond onTrue (some onFalse) _ => do
    condition cond
    let trueExit ← stmt reachable onTrue
    let falseExit ← stmt reachable onFalse
    return trueExit.join falseExit
  | .whileLoop cond body _ => do
    condition cond
    let _ ← insideLoop (stmt reachable body)
    return .continues
  | .forLoop init cond step body _ => inScope do
    forInit init
    match cond with
    | some e => condition e
    | none => pure ()
    effect step
    let _ ← insideLoop (stmt reachable body)
    return .continues
  | .switch e cases _ => do
    let type ← scrutinee e
    refuse (Check.labels type [] false cases)
    insideLoop (groups reachable cases)
    return .continues
  | .ret returnValue pos => do
    ret returnValue pos reachable
    return .returns
  | .brk pos => do
    refuse (Check.reportIf ((← look).breakable == 0) .breakOutsideLoop pos)
    return .breaks

/-- Checks a statement list. -/
def stmts (reachable : Bool) : List Stmt → Recorded Exit
  | [] => return .continues
  | s :: rest => do
    let first ← stmt reachable s
    let others ← stmts (reachable && first == .continues) rest
    return first.andThen others

/-- Checks case groups. -/
def groups (reachable : Bool) : List CaseGroup → Recorded Unit
  | [] => pure ()
  | .mk _ body _ :: rest => do
    let _ ← stmts reachable body
    groups reachable rest

end

/-- Registers a function, unless its name is taken. -/
def register (f : FunctionDef) : Recorded Unit := do
  if isBuiltin f.name then act (.report (.builtinRedefined f.name) f.pos)
  else
    let c ← look
    if (c.functions.lookup f.name).isSome then act (.report (.functionAlreadyDefined f.name) f.pos)
    else
      act (.addSymbol f.name .function f.returns 0 0 f.pos)
      act (.addSignature f.name ⟨f.params.map Param.type, f.returns, c.symbols.length⟩)

/-- Checks a parameter and declares it. -/
def param (p : Param) : Recorded Unit := do
  refuse (Check.reportIf (p.type == .void) (.voidVariable p.name) p.pos)
  declare p.name .parameter p.type p.pos

/-- Checks a function. -/
def functionDef (f : FunctionDef) : Recorded Unit := do
  act (.enterRoutine f.name)
  inScope do
    f.params.forM param
    act (.enterBody f.name f.returns)
    let _ ← stmts true f.body
    refuse (Check.requireReturn f)
    act .leaveBody
  act .leaveRoutine

/-- Checks a top-level item. -/
def item : Item → Recorded Unit
  | .global decl => varDecl decl
  | .function f => functionDef f

/-- Checks a program. -/
def program (p : Program) : Recorded Unit := do
  p.functions.forM register
  p.items.forM item

end Recorded

/-- All actions of checking a program, in order, each with the state in which it is taken. -/
def Checker.steps (p : Program) : List (Action × Checker) :=
  ((Recorded.program p).run (Checker.new p.name, [])).2.2

/-! ## Checks that can only refuse -/

namespace Check

variable {α β : Type}

/-- The check does nothing to the state but add errors. -/
def OnlyReports (x : Check α) : Prop :=
  ∀ c, ∃ added, x.after c = { c with errors := c.errors ++ added }

theorem onlyReports_pure (a : α) : OnlyReports (pure a) := fun c =>
  ⟨[], by rw [List.append_nil]; rfl⟩

theorem onlyReports_report (violation : Violation) (pos : Position) :
    OnlyReports (report violation pos) := fun _ => ⟨[⟨violation, pos⟩], rfl⟩

theorem OnlyReports.bind {x : Check α} {f : α → Check β} (hx : OnlyReports x)
    (hf : ∀ a, OnlyReports (f a)) : OnlyReports (x >>= f) := by
  intro c
  obtain ⟨added, hadded⟩ := hx c
  obtain ⟨added', hadded'⟩ := hf (x.run c).1 (x.after c)
  refine ⟨added ++ added', ?_⟩
  show (f (x.run c).1).after (x.after c) = _
  rw [hadded', hadded, ← List.append_assoc]

theorem onlyReports_get {f : Checker → Check β} (hf : ∀ c, OnlyReports (f c)) :
    OnlyReports (get >>= f) := fun c => hf c c

theorem onlyReports_reportIf (condition : Bool) (violation : Violation) (pos : Position) :
    OnlyReports (reportIf condition violation pos) := by
  unfold reportIf
  split
  · exact onlyReports_report _ _
  · exact onlyReports_pure _

theorem Refuses.onlyReports {x : Check α} (h : Refuses x) : OnlyReports x := by
  induction h with
  | pure a => exact onlyReports_pure a
  | report _ pos => exact onlyReports_report _ pos
  | bind _ _ hfirst hnext => exact hfirst.bind hnext

theorem onlyReports_requireReturn (f : FunctionDef) : OnlyReports (requireReturn f) := by
  refine onlyReports_get fun c => ?_
  cases c.function with
  | none => exact onlyReports_pure ()
  | some current => exact onlyReports_reportIf _ _ _

end Check

/-! ## What is recorded -/

/-- From this state the recorded computation does what the check does, and it writes safe actions down
that lead to where the check ends. What was opened inside is closed again. -/
structure RecordsAt {α : Type} (c : Checker) (x : Recorded α) (y : Check α) : Prop where
  outer : (y.after c).scopes.tail = c.scopes.tail
  breakable : (y.after c).breakable = c.breakable
  leads : ∃ steps, c.Leads steps (y.after c) ∧
    ∀ log, x.run (c, log) = ((y.run c).1, y.after c, log ++ steps)

/-- The recorded computation does what the check does, from every sound state. -/
def Records {α : Type} (x : Recorded α) (y : Check α) : Prop :=
  ∀ c, c.Sound → RecordsAt c x y

variable {α β : Type} {c : Checker}

/-- What is recorded leads to a sound state. -/
theorem RecordsAt.sound {x : Recorded α} {y : Check α} (h : RecordsAt c x y) (hc : c.Sound) :
    (y.after c).Sound := by
  obtain ⟨steps, hleads, -⟩ := h.leads
  exact (hleads.sound hc).2

theorem RecordsAt.congr {x : Recorded α} {y y' : Check α} (h : RecordsAt c x y)
    (hrun : y'.run c = y.run c) : RecordsAt c x y' := by
  obtain ⟨houter, hbreakable, hleads⟩ := h
  have hafter : y'.after c = y.after c := congrArg Prod.snd hrun
  refine ⟨?_, ?_, ?_⟩
  · rw [hafter, houter]
  · rw [hafter, hbreakable]
  · rw [hafter, hrun]
    exact hleads

theorem RecordsAt.bind {x : Recorded α} {y : Check α} {f : α → Recorded β} {g : α → Check β}
    (hx : RecordsAt c x y) (hf : RecordsAt (y.after c) (f (y.run c).1) (g (y.run c).1)) :
    RecordsAt c (x >>= f) (y >>= g) := by
  obtain ⟨steps, hleads, hrun⟩ := hx.leads
  obtain ⟨steps', hleads', hrun'⟩ := hf.leads
  refine ⟨hf.outer.trans hx.outer, hf.breakable.trans hx.breakable, steps ++ steps',
    hleads.append hleads', fun log => ?_⟩
  show (f (x.run (c, log)).1).run (x.run (c, log)).2 = _
  rw [hrun, hrun', List.append_assoc]
  rfl

/-- The second of two computations starts in a sound state because the first one led there. -/
theorem Records.bind {x : Recorded α} {y : Check α} {f : α → Recorded β} {g : α → Check β}
    (hx : Records x y) (hf : ∀ a, Records (f a) (g a)) : Records (x >>= f) (y >>= g) := fun c hc =>
  (hx c hc).bind (hf _ _ ((hx c hc).sound hc))

namespace Recorded

theorem records_pure (a : α) : Records (pure a) (pure a) := fun c _ =>
  ⟨rfl, rfl, [], .nil c, fun log => by rw [List.append_nil]; rfl⟩

theorem recordsAt_act {a : Action} (hflat : a.Flat) (ha : a.Safe c) :
    RecordsAt c (act a) (modify a.apply) :=
  ⟨hflat.outer c, hflat.breakable c, [(a, c)], .one ha, fun _ => rfl⟩

theorem records_act (a : Action) (hflat : a.Flat) (ha : ∀ c, a.Safe c) :
    Records (act a) (modify a.apply) := fun c _ => recordsAt_act hflat (ha c)

theorem recordsAt_look {f : Checker → Recorded β} {g : Checker → Check β}
    (h : RecordsAt c (f c) (g c)) : RecordsAt c (look >>= f) (get >>= g) :=
  ⟨h.outer, h.breakable, h.leads⟩

theorem records_look {f : Checker → Recorded β} {g : Checker → Check β}
    (h : ∀ c, c.Sound → RecordsAt c (f c) (g c)) : Records (look >>= f) (get >>= g) := fun c hc =>
  recordsAt_look (h c hc)

theorem records_report (violation : Violation) (pos : Position) :
    Records (act (.report violation pos)) (Check.report violation pos) :=
  records_act (.report violation pos) trivial fun _ => trivial

theorem records_forM {γ : Type} {f : γ → Recorded Unit} {g : γ → Check Unit}
    (h : ∀ a, Records (f a) (g a)) : ∀ l : List γ, Records (l.forM f) (l.forM g)
  | [] => records_pure ()
  | a :: l => (h a).bind fun _ => records_forM h l

/-! ### Errors -/

theorem after_reportAll : ∀ (errors : List SemanticError) (c : Checker),
    (errors.forM fun e => Check.report e.violation e.pos).after c =
      { c with errors := c.errors ++ errors }
  | [], c => by
    rw [List.append_nil]
    rfl
  | e :: errors, c => by
    refine (after_reportAll errors (c.report e.violation e.pos)).trans ?_
    show Checker.mk ((c.errors ++ [e]) ++ errors) _ _ _ _ _ _ _ = _
    rw [List.append_assoc]
    rfl

/-- A check that can only refuse is recorded error by error. -/
theorem records_refuse {x : Check α} (h : x.OnlyReports) : Records (refuse x) x := by
  intro c hc
  obtain ⟨added, hadded⟩ := h c
  -- the errors to write down are those that the check adds to the ones before
  have hdrop : (x.after c).errors.drop c.errors.length = added := by
    rw [hadded]
    exact List.drop_left
  have hall := records_forM (fun e : SemanticError => records_report e.violation e.pos) added c hc
  obtain ⟨steps, hleads, hrun⟩ := hall.leads
  rw [after_reportAll, ← hadded] at hleads
  refine ⟨by rw [hadded], by rw [hadded], steps, hleads, fun log => ?_⟩
  show ((x.run c).1, ((((x.after c).errors.drop c.errors.length).forM fun e =>
    act (.report e.violation e.pos)).run (c, log)).2) = _
  rw [hdrop, hrun, after_reportAll, ← hadded]

theorem records_reportIf (condition : Bool) (violation : Violation) (pos : Position) :
    Records (refuse (Check.reportIf condition violation pos)) (Check.reportIf condition violation pos) :=
  records_refuse (Check.onlyReports_reportIf _ _ _)

theorem records_requireType (expected : Ty) (found : Option Ty) (pos : Position) :
    Records (refuse (Check.requireType expected found pos)) (Check.requireType expected found pos) :=
  records_refuse (Check.requireType_refuses _ _ _).onlyReports

/-! ### Uses and declarations -/

theorem records_resolve (name : String) (pos : Position) :
    Records (resolve name pos) (Check.resolve name pos) := by
  refine records_look fun c hc => ?_
  cases hfound : Checker.symbolOf? c.scopes name with
  | none => exact ((records_report _ _).bind fun _ => records_pure _) c hc
  | some symbol =>
    -- the number comes from a scope, so it is that of a symbol
    obtain ⟨scope, hscope, hlookup⟩ := List.exists_of_findSome?_eq_some hfound
    have hlt : symbol < c.symbols.length :=
      hc.bound scope hscope _ (Lookup.mem_of_lookup hlookup)
    have hact : RecordsAt c (act (.recordUse symbol pos.line)) (modify _) := recordsAt_act trivial hlt
    exact hact.bind (records_pure _ _ (hact.sound hc))

theorem records_resolveFunction (name : String) (pos : Position) :
    Records (resolveFunction name pos) (Check.resolveFunction name pos) := by
  refine records_look fun c hc => ?_
  cases hfound : c.functions.lookup name with
  | none => exact ((records_report _ _).bind fun _ => records_pure _) c hc
  | some signature =>
    -- functions are never taken out, and the symbols only become more
    have hlt : signature.symbol < c.symbols.length := hc.signed _ (Lookup.mem_of_lookup hfound)
    have hact : RecordsAt c (act (.recordUse signature.symbol pos.line)) (modify _) :=
      recordsAt_act trivial hlt
    exact hact.bind (records_pure _ _ (hact.sound hc))

/-- A new symbol gets the number of symbols before it, so that its name can be bound to it. -/
theorem recordsAt_addSymbol (hc : c.Sound) (name : String) (kind : SymbolKind) (type : Ty) (level : Nat)
    {routine : Nat} (pos : Position) (hroutine : routine < c.routines.length) (next : Action)
    (hflat : next.Flat)
    (hnext : ∀ d : Checker, d.Sound → c.symbols.length < d.symbols.length → next.Safe d) :
    RecordsAt c (act (.addSymbol name kind type level routine pos) >>= fun _ => act next)
      (modify fun c => next.apply (c.addSymbol name kind type level routine pos)) := by
  have hadd : RecordsAt c (act (.addSymbol name kind type level routine pos)) (modify _) :=
    recordsAt_act trivial hroutine
  have hlength : c.symbols.length < (c.addSymbol name kind type level routine pos).symbols.length := by
    simp [Checker.addSymbol]
  have hact := recordsAt_act hflat (hnext _ (hadd.sound hc) hlength)
  exact (hadd.bind (f := fun _ => act next) (g := fun _ => modify next.apply) hact).congr rfl

theorem records_declare (name : String) (kind : SymbolKind) (type : Ty) (pos : Position) :
    Records (declare name kind type pos) (modify fun c => c.declare name kind type pos) := by
  intro c hc
  have hcount : RecordsAt c (act .countLevel) (modify _) :=
    recordsAt_act trivial (List.length_pos_iff.mpr hc.open_)
  -- the level is taken also where the name turns out to be declared already
  have hrest : RecordsAt c (if c.declaresHere name then act (.report (.redeclared name) pos)
      else act (.addSymbol name kind type (c.scopes.length - 1) c.routine pos) >>= fun _ =>
        act (.bind name c.symbols.length)) (modify fun d => d.declare name kind type pos) := by
    by_cases hhere : c.declaresHere name
    · rw [if_pos hhere]
      refine (records_report _ _ c hc).congr ?_
      show ((), c.declare name kind type pos) = _
      rw [Checker.declare, if_pos hhere]
      rfl
    · rw [if_neg hhere]
      refine (recordsAt_addSymbol hc name kind type _ pos hc.current (.bind name c.symbols.length) trivial
        fun d hd hlt => ⟨List.length_pos_iff.mpr hd.open_, hlt⟩).congr ?_
      show ((), c.declare name kind type pos) = _
      rw [Checker.declare, if_neg hhere]
      rfl
  exact (hcount.bind (g := fun _ => get >>= fun _ => modify fun d => d.declare name kind type pos)
    (recordsAt_look hrest)).congr rfl

/-! ### Scopes and loops -/

/-- What is written down between two actions stands between them. -/
theorem run_between (first last : Action) {x : Recorded α} {a : α} {c' : Checker}
    {steps : List (Action × Checker)}
    (hrun : ∀ log, x.run (first.apply c, log) = (a, c', log ++ steps)) (log : List (Action × Checker)) :
    (act first >>= fun _ => x >>= fun a => act last >>= fun _ => pure a).run (c, log) =
      (a, last.apply c', log ++ (first, c) :: (steps ++ [(last, c')])) := by
  show ((x.run (first.apply c, log ++ [(first, c)])).1,
    ((act last).run (x.run (first.apply c, log ++ [(first, c)])).2).2) = _
  rw [hrun]
  show (a, last.apply c', (log ++ [(first, c)] ++ steps) ++ [(last, c')]) = _
  rw [List.append_assoc, List.append_assoc]
  rfl

/-- What is checked inside a scope leaves the scopes around it, so there is one left when it closes. -/
theorem records_inScope {x : Recorded α} {y : Check α} (h : Records x y) :
    Records (inScope x) (Check.inScope y) := by
  intro c hc
  have hpush : c.pushScope.Sound := hc.apply (a := .pushScope) trivial
  have hx := h _ hpush
  obtain ⟨steps, hleads, hrun⟩ := hx.leads
  have houter : (y.after c.pushScope).scopes.tail = c.scopes := hx.outer
  have hpop : Action.popScope.Safe (y.after c.pushScope) := by
    have hlength : (y.after c.pushScope).scopes.length - 1 = c.scopes.length := by
      rw [← houter, List.length_tail]
    have hopen := List.length_pos_iff.mpr hc.open_
    show 1 < (y.after c.pushScope).scopes.length
    omega
  exact ⟨congrArg List.tail houter, hx.breakable, _,
    .cons (a := .pushScope) trivial (hleads.append (.one hpop)), run_between .pushScope .popScope hrun⟩

/-- What is checked inside a loop leaves the count of loops, so it is positive when the loop ends. -/
theorem records_insideLoop {x : Recorded α} {y : Check α} (h : Records x y) :
    Records (insideLoop x) (Check.insideLoop y) := by
  intro c hc
  have henter : c.inLoop.Sound := hc.apply (a := .enterLoop) trivial
  have hx := h _ henter
  obtain ⟨steps, hleads, hrun⟩ := hx.leads
  have hbreakable : (y.after c.inLoop).breakable = c.breakable + 1 := hx.breakable
  have hleave : Action.leaveLoop.Safe (y.after c.inLoop) := by
    show 0 < (y.after c.inLoop).breakable
    omega
  refine ⟨hx.outer, ?_, _, .cons (a := .enterLoop) trivial (hleads.append (.one hleave)),
    run_between .enterLoop .leaveLoop hrun⟩
  show (y.after c.inLoop).breakable - 1 = c.breakable
  omega

/-! ### Expressions -/

theorem records_requireValue (e : Expr) (found : Option Ty) :
    Records (refuse (Check.requireValue e found)) (Check.requireValue e found) :=
  records_refuse (Check.requireValue_refuses _ _).onlyReports

theorem records_requireIntegral (operator : Operator) (operand : Option Ty) (pos : Position) :
    Records (refuse (Check.requireIntegral operator operand pos))
      (Check.requireIntegral operator operand pos) :=
  records_refuse (Check.requireIntegral_refuses _ _ _).onlyReports

mutual

theorem records_expr : ∀ e : Expr, Records (expr e) (Check.expr e)
  | .literal value pos => by
    rw [expr, Check.expr]
    exact records_pure _
  | .var name pos => by
    rw [expr, Check.expr]
    exact records_resolve name pos
  | .assign name value pos => by
    rw [expr, Check.expr]
    refine (records_expr value).bind fun t => (records_requireValue value t).bind fun found => ?_
    refine (records_resolve name pos).bind fun expected => ?_
    cases expected with
    | none => exact records_pure _
    | some expected => exact (records_requireType expected found _).bind fun _ => records_pure _
  | .unary op operand pos => by
    rw [expr, Check.expr]
    refine (records_expr operand).bind fun t => (records_requireValue operand t).bind fun found => ?_
    exact (records_requireIntegral _ _ _).bind fun _ => records_pure _
  | .binary op left right pos => by
    rw [expr, Check.expr]
    refine (records_expr left).bind fun t => (records_requireValue left t).bind fun leftType => ?_
    refine (records_expr right).bind fun u => (records_requireValue right u).bind fun rightType => ?_
    refine (records_requireIntegral _ _ _).bind fun _ => ?_
    exact (records_requireIntegral _ _ _).bind fun _ => records_pure _
  | .call name args pos => by
    rw [expr, Check.expr]
    split
    · exact (records_printArgs pos args).bind fun _ => records_pure _
    · refine (records_values args).bind fun found => ?_
      refine (records_resolveFunction name pos).bind fun signature => ?_
      cases signature with
      | none => exact records_pure _
      | some signature =>
        have hrefuses := Check.requireSignature_refuses signature name args found pos
        exact (records_refuse hrefuses.onlyReports).bind fun _ => records_pure _

theorem records_values : ∀ es : List Expr, Records (values es) (Check.values es)
  | [] => by
    rw [values, Check.values]
    exact records_pure _
  | e :: es => by
    rw [values, Check.values]
    refine (records_expr e).bind fun t => (records_requireValue e t).bind fun found => ?_
    exact (records_values es).bind fun rest => records_pure _

theorem records_printArgs (pos : Position) : ∀ es : List Expr,
    Records (printArgs pos es) (Check.printArgs pos es)
  | [] => by
    rw [printArgs, Check.printArgs]
    exact records_report _ _
  | format :: rest => by
    rw [printArgs, Check.printArgs]
    refine (records_expr format).bind fun t => (records_requireValue format t).bind fun found => ?_
    have hrest := (records_values rest).bind fun _ => records_pure ()
    cases found with
    | none => exact hrest
    | some type => exact (records_reportIf _ _ _).bind fun _ => hrest

end

theorem records_value (e : Expr) : Records (value e) (Check.value e) :=
  (records_expr e).bind fun t => records_requireValue e t

theorem records_condition (e : Expr) : Records (condition e) (Check.condition e) := by
  refine (records_value e).bind fun found => ?_
  cases found with
  | none => exact records_pure _
  | some type => exact records_reportIf _ _ _

/-! ### Statements -/

theorem records_varDecl (d : VarDecl) : Records (varDecl d) (Check.varDecl d) := by
  have hdeclare := records_declare d.name .variable_ d.type d.pos
  unfold varDecl Check.varDecl
  refine (records_reportIf _ _ d.pos).bind fun _ => ?_
  cases d.init with
  | none => exact hdeclare
  | some e =>
    refine (records_value e).bind fun found => ?_
    by_cases hvoid : d.type ≠ .void
    · rw [if_pos hvoid, if_pos hvoid]
      exact (records_requireType _ _ _).bind fun _ => hdeclare
    · rw [if_neg hvoid, if_neg hvoid]
      exact hdeclare

theorem records_forInit : ∀ init : Option ForInit, Records (forInit init) (Check.forInit init)
  | none => records_pure ()
  | some (.declare d) => records_varDecl d
  | some (.eval e) => (records_expr e).bind fun _ => records_pure ()

theorem records_effect : ∀ e? : Option Expr, Records (effect e?) (Check.effect e?)
  | none => records_pure ()
  | some e => (records_expr e).bind fun _ => records_pure ()

theorem records_ret (e? : Option Expr) (pos : Position) (reachable : Bool) :
    Records (ret e? pos reachable) (Check.ret e? pos reachable) := by
  cases e? with
  | none =>
    refine records_look fun c hc => ?_
    cases c.function with
    | none => exact records_pure () c hc
    | some f => exact records_reportIf _ _ _ c hc
  | some e =>
    refine (records_value e).bind fun found => records_look fun c hc => ?_
    cases c.function with
    | none => exact records_pure () c hc
    | some f =>
      have hvalue := records_requireType f.returns found e.pos
      refine (?_ : Records (if f.returns = .void then _ else _) (if f.returns = .void then _ else _)) c hc
      split
      · exact records_report _ _
      · cases reachable with
        | true => exact (records_act .markReturn trivial fun _ => trivial).bind fun _ => hvalue
        | false => exact hvalue

theorem records_scrutinee (e : Expr) : Records (scrutinee e) (Check.scrutinee e) := by
  refine (records_value e).bind fun found => ?_
  cases found with
  | none => exact records_pure _
  | some type => exact (records_reportIf _ _ _).bind fun _ => records_pure _

mutual

theorem records_stmt : ∀ (s : Stmt) (reachable : Bool),
    Records (stmt reachable s) (Check.stmt reachable s)
  | .declare d, reachable => by
    rw [stmt, Check.stmt]
    exact (records_varDecl d).bind fun _ => records_pure _
  | .eval e pos, reachable => by
    rw [stmt, Check.stmt]
    exact (records_expr e).bind fun _ => records_pure _
  | .block body pos, reachable => by
    rw [stmt, Check.stmt]
    exact records_inScope (records_stmts body reachable)
  | .branch cond onTrue none pos, reachable => by
    rw [stmt, Check.stmt]
    refine (records_condition cond).bind fun _ => ?_
    exact (records_stmt onTrue reachable).bind fun _ => records_pure _
  | .branch cond onTrue (some onFalse) pos, reachable => by
    rw [stmt, Check.stmt]
    refine (records_condition cond).bind fun _ => (records_stmt onTrue reachable).bind fun _ => ?_
    exact (records_stmt onFalse reachable).bind fun _ => records_pure _
  | .whileLoop cond body pos, reachable => by
    rw [stmt, Check.stmt]
    refine (records_condition cond).bind fun _ => ?_
    exact (records_insideLoop (records_stmt body reachable)).bind fun _ => records_pure _
  | .forLoop init cond step body pos, reachable => by
    rw [stmt, Check.stmt]
    have hrest := (records_effect step).bind fun _ =>
      (records_insideLoop (records_stmt body reachable)).bind fun _ => records_pure Exit.continues
    refine records_inScope ((records_forInit init).bind fun _ => ?_)
    cases cond with
    | none => exact hrest
    | some e => exact (records_condition e).bind fun _ => hrest
  | .switch e cases pos, reachable => by
    rw [stmt, Check.stmt]
    refine (records_scrutinee e).bind fun type => ?_
    refine (records_refuse (Check.labels_refuses type cases [] false).onlyReports).bind fun _ => ?_
    exact (records_insideLoop (records_groups cases reachable)).bind fun _ => records_pure _
  | .ret e? pos, reachable => by
    rw [stmt, Check.stmt]
    exact (records_ret e? pos reachable).bind fun _ => records_pure _
  | .brk pos, reachable => by
    rw [stmt, Check.stmt]
    refine records_look fun c hc => ?_
    exact ((records_reportIf _ _ _).bind fun _ => records_pure _) c hc

theorem records_stmts : ∀ (body : List Stmt) (reachable : Bool),
    Records (stmts reachable body) (Check.stmts reachable body)
  | [], reachable => by
    rw [stmts, Check.stmts]
    exact records_pure _
  | s :: rest, reachable => by
    rw [stmts, Check.stmts]
    refine (records_stmt s reachable).bind fun first => ?_
    exact (records_stmts rest _).bind fun _ => records_pure _

theorem records_groups : ∀ (cases : List CaseGroup) (reachable : Bool),
    Records (groups reachable cases) (Check.groups reachable cases)
  | [], reachable => by
    rw [groups, Check.groups]
    exact records_pure ()
  | .mk label body pos :: rest, reachable => by
    rw [groups, Check.groups]
    exact (records_stmts body reachable).bind fun _ => records_groups rest reachable

end

/-! ### Programs -/

theorem records_register (f : FunctionDef) : Records (register f) (Check.register f) := by
  unfold register Check.register
  split
  · exact records_report _ _
  · refine records_look fun c hc => ?_
    split
    · exact records_report _ _ c hc
    · have hprogram : 0 < c.routines.length := Nat.zero_lt_of_lt hc.current
      exact (recordsAt_addSymbol hc f.name .function f.returns 0 f.pos hprogram
        (.addSignature f.name ⟨f.params.map Param.type, f.returns, c.symbols.length⟩) trivial
        fun d _ hlt => hlt).congr rfl

theorem records_param (p : Param) : Records (param p) (Check.param p) :=
  (records_reportIf _ _ _).bind fun _ => records_declare p.name .parameter p.type p.pos

theorem records_functionDef (f : FunctionDef) : Records (functionDef f) (Check.functionDef f) := by
  have hbody : Records (do f.params.forM param; act (.enterBody f.name f.returns)
                           let _ ← stmts true f.body; refuse (Check.requireReturn f); act .leaveBody)
      (do f.params.forM Check.param
          modify fun c => { c with function := some ⟨f.name, f.returns, false⟩ }
          let _ ← Check.stmts true f.body
          Check.requireReturn f
          modify fun c => { c with function := none }) := by
    refine (records_forM records_param f.params).bind fun _ => ?_
    refine (records_act (.enterBody f.name f.returns) trivial fun _ => trivial).bind fun _ => ?_
    refine (records_stmts f.body true).bind fun _ => ?_
    refine (records_refuse (Check.onlyReports_requireReturn f)).bind fun _ => ?_
    exact records_act .leaveBody trivial fun _ => trivial
  refine (records_act (.enterRoutine f.name) trivial fun _ => trivial).bind fun _ => ?_
  exact (records_inScope hbody).bind fun _ => records_act .leaveRoutine trivial fun _ => trivial

theorem records_item : ∀ i : Item, Records (item i) (Check.item i)
  | .global d => records_varDecl d
  | .function f => records_functionDef f

theorem records_program (p : Program) : Records (program p) (Check.program p) :=
  (records_forM records_register p.functions).bind fun _ => records_forM records_item p.items

end Recorded

/-! ## The end of checking -/

namespace Checker

variable {c : Checker}

theorem item_routine (hc : c.AtItems) (hroutine : c.routine = 0) :
    ∀ i : Item, ((Check.item i).after c).routine = 0
  | .global d => ((Check.uniform_varDecl d).step hc.valid).routine.trans hroutine
  | .function _ => rfl

/-- Between two items everything is closed, whatever was wrong in those before. -/
theorem items_closed (hc : c.AtItems) (hroutine : c.routine = 0) (items : List Item) :
    ((items.forM Check.item).after c).AtItems ∧ ((items.forM Check.item).after c).routine = 0 := by
  induction items generalizing c with
  | nil => exact ⟨hc, hroutine⟩
  | cons i items ih => exact ih (item_step hc i).atItems (item_routine hc hroutine i)

theorem ofProgram_closed (p : Program) : (ofProgram p).AtItems ∧ (ofProgram p).routine = 0 :=
  items_closed (registered_atItems p) (Check.registerAll_step p.functions (new p.name)).routine p.items

/-- A symbol is listed in the section that it belongs to. -/
theorem Sound.listed (hc : c.Sound) {s : Symbol} (hs : s ∈ c.symbols) :
    ∃ r, c.crossReference.routines[s.routine]? = some r ∧ s.entry ∈ r.entries := by
  have hlt := hc.sections s hs
  refine ⟨⟨c.routines[s.routine].1, c.routines[s.routine].2, Entry.sort (c.entriesOf s.routine)⟩, ?_, ?_⟩
  · rw [crossReference, CrossReference.ofRoutines, List.getElem?_map, List.getElem?_mapIdx,
      List.getElem?_eq_getElem hlt]
    rfl
  · refine (Entry.sort_perm _).mem_iff.mpr (List.mem_map.mpr ⟨s, ?_, rfl⟩)
    exact List.mem_filter.mpr ⟨hs, beq_self_eq_true _⟩

end Checker

/-- Recording changes nothing, and what is recorded leads from the first state of checking to its last. -/
theorem Recorded.program_run (p : Program) :
    (Recorded.program p).run (Checker.new p.name, []) = ((), Checker.ofProgram p, Checker.steps p) ∧
      (Checker.new p.name).Leads (Checker.steps p) (Checker.ofProgram p) := by
  obtain ⟨steps, hleads, hrun⟩ := (records_program p _ (Checker.new_sound p.name)).leads
  have hsteps : Checker.steps p = steps := congrArg (fun r => r.2.2) (hrun [])
  rw [hsteps]
  exact ⟨hrun [], hleads⟩

open Checker in
/-- Checking never fails to find what it refers to by number. Whatever a program looks like and however
many errors it has, every action of its checking is safe and taken in a sound state: there is a scope,
scopes and signatures hold numbers of symbols, symbols hold numbers of sections, and a loop is left only
where one is open. In the end there is one scope, no loop and no function is open, the section is that of
the program, and each symbol has its entry in the table. -/
theorem checking_keeps_books (p : Program) :
    (Recorded.program p).run (new p.name, []) = ((), ofProgram p, steps p) ∧
      (new p.name).Leads (steps p) (ofProgram p) ∧
      (∀ step ∈ steps p, step.2.Sound ∧ step.1.Safe step.2) ∧ (ofProgram p).Sound ∧
      ((ofProgram p).scopes.length = 1 ∧ (ofProgram p).breakable = 0 ∧ (ofProgram p).function = none ∧
        (ofProgram p).routine = 0 ∧ (ofProgram p).routines[0]? = some (p.name, true)) ∧
      (∀ s ∈ (ofProgram p).symbols,
        ∃ r, (ofProgram p).crossReference.routines[s.routine]? = some r ∧ s.entry ∈ r.entries) ∧
      ((ofProgram p).crossReference.routines.flatMap Routine.entries).Perm
        ((ofProgram p).symbols.map Symbol.entry) := by
  obtain ⟨hrun, hleads⟩ := Recorded.program_run p
  obtain ⟨hsteps, hend⟩ := hleads.sound (new_sound p.name)
  obtain ⟨hclosed, hroutine⟩ := ofProgram_closed p
  have hprogram : (ofProgram p).routines[0]? = some (p.name, true) := by
    obtain ⟨added, hadded⟩ := hleads.routines_prefix
    rw [← hadded]
    rfl
  exact ⟨hrun, hleads, hsteps, hend,
    ⟨hclosed.global, hclosed.breakable, hclosed.function, hroutine, hprogram⟩,
    fun s hs => hend.listed hs, sections_perm _ hend.sections⟩

/-- A global of an unknown value, and two functions of one name. The first declares a parameter twice,
leaves a loop inside one and another outside, calls what does not exist and has no `return`. -/
def untidy : Program where
  name := "f"
  items := [
    .global ⟨.int, "x", some (.var "y" ⟨1, 9⟩), ⟨1, 1⟩⟩,
    .function ⟨"f", [⟨"a", .int, ⟨2, 7⟩⟩, ⟨"a", .int, ⟨2, 14⟩⟩], .int,
      [.whileLoop (.var "a" ⟨3, 10⟩) (.block [.brk ⟨4, 5⟩] ⟨3, 13⟩) ⟨3, 3⟩,
        .brk ⟨5, 3⟩,
        .eval (.assign "x" (.call "g" [] ⟨6, 7⟩) ⟨6, 3⟩) ⟨6, 3⟩], ⟨2, 20⟩, ⟨2, 1⟩⟩,
    .function ⟨"f", [], .void, [], ⟨8, 10⟩, ⟨8, 1⟩⟩]
  pos := ⟨1, 1⟩

open Checker in
theorem untidy_keeps_books :
    (ofProgram untidy).errors.length = 6 ∧
      (∃ c, (Action.leaveLoop, c) ∈ steps untidy ∧ c.Sound ∧ 0 < c.breakable) ∧
      (∃ c, (Action.recordUse 1 6, c) ∈ steps untidy ∧ c.Sound ∧ 1 < c.symbols.length) ∧
      (ofProgram untidy).scopes.length = 1 ∧ (ofProgram untidy).breakable = 0 ∧
      (ofProgram untidy).function = none ∧ (ofProgram untidy).routine = 0 ∧
      ((ofProgram untidy).crossReference.routines.flatMap Routine.entries).Perm
        ((ofProgram untidy).symbols.map Symbol.entry) := by
  obtain ⟨-, -, hsteps, -, ⟨hscopes, hbreakable, hfunction, hroutine, -⟩, -, hperm⟩ :=
    checking_keeps_books untidy
  have hleave : Action.leaveLoop ∈ (steps untidy).map Prod.fst := by decide
  have huse : Action.recordUse 1 6 ∈ (steps untidy).map Prod.fst := by decide
  obtain ⟨⟨_, c⟩, hc, rfl⟩ := List.mem_map.mp hleave
  obtain ⟨⟨_, d⟩, hd, rfl⟩ := List.mem_map.mp huse
  exact ⟨by decide, ⟨c, hc, hsteps _ hc⟩, ⟨d, hd, hsteps _ hd⟩, hscopes, hbreakable, hfunction, hroutine,
    hperm⟩

end Primer
