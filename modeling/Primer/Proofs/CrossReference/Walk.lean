import Primer.Proofs.CrossReference.Follows
import Primer.Proofs.Typing.Inspection
import Primer.Proofs.Typing.Program

/-!
# The checker meets the names in order

Every part of the walk of the checker follows the occurrences in the part of the program that it walks
over, unless it reports an error.

- `Check.Meets` says so of a computation. `Check.Meets.bind` puts two of them in a row, and
  `Check.Meets.inScope` puts one into a scope.
- `Check.expr_meets`, `Check.stmt_meets` and `Check.functionDef_meets` are the walks over expressions,
  statements and functions.
- `Checker.ofProgram_follows` is the state at the end of an accepted program.
-/

namespace Primer

open Occurrence

namespace Checker

/-- The part of the state that the cross-reference table depends on. -/
def names (c : Checker) :
    List StaticScope × List Symbol × List (String × Signature) × List (String × Bool) × Nat :=
  (c.scopes, c.symbols, c.functions, c.routines, c.routine)

variable {fs : List FunctionDef} {os : List Occurrence} {place : Place} {c c' : Checker}

theorem Follows.of_names (h : c.Follows fs os place) (hnames : c'.names = c.names) :
    c'.Follows fs os place := by
  simp only [names, Prod.mk.injEq] at hnames
  obtain ⟨hscopes, hsymbols, hfunctions, hroutines, hroutine⟩ := hnames
  exact ⟨by rw [hscopes]; exact h.scopes, by rw [hsymbols]; exact h.symbols,
    by rw [hfunctions]; exact h.functions, by rw [hscopes]; exact h.level,
    by rw [hroutines]; exact h.sections, by rw [hroutine]; exact h.routine, h.refers, h.inSections⟩

theorem report_errors (c : Checker) (v : Violation) (pos : Position) : (c.report v pos).errors ≠ [] :=
  List.append_ne_nil_of_right_ne_nil _ (List.cons_ne_nil _ _)

end Checker

namespace Check

variable {α β : Type} {fs : List FunctionDef} {os os' : List Occurrence} {place place₁ place' : Place}

/-- The computation walks from `place` to `place'` over code with the occurrences `os`. Errors are only
added, and the state follows the occurrences if there are none. -/
structure Meets (fs : List FunctionDef) (place : Place) (x : Check α) (os : List Occurrence)
    (place' : Place) : Prop where
  errors : ∀ c : Checker, c.errors <+: (x.after c).errors
  follows : ∀ (c : Checker) (before : List Occurrence), c.Follows fs before place →
    (x.after c).errors = [] → (x.after c).Follows fs (before ++ os) place'

theorem Meets.bind {x : Check α} {f : α → Check β} (hx : Meets fs place x os place₁)
    (hf : ∀ a, Meets fs place₁ (f a) os' place') : Meets fs place (x >>= f) (os ++ os') place' := by
  refine ⟨fun c => (hx.errors c).trans ((hf _).errors _), fun c before h herrors => ?_⟩
  have hrest := hf (x.run c).1
  have herrors : ((f (x.run c).1).after (x.after c)).errors = [] := herrors
  -- an error of the first part would still be there at the end
  have hfirst : (x.after c).errors = [] := List.prefix_nil.mp (herrors ▸ hrest.errors (x.after c))
  rw [← List.append_assoc]
  exact hrest.follows _ _ (hx.follows c before h hfirst) herrors

/-- A part that meets nothing in front. -/
theorem Meets.andThen {x : Check α} {f : α → Check β} (hx : Meets fs place x [] place₁)
    (hf : ∀ a, Meets fs place₁ (f a) os place') : Meets fs place (x >>= f) os place' :=
  hx.bind hf

/-- A part that meets nothing at the end. -/
theorem Meets.finish {x : Check α} {f : α → Check β} (hx : Meets fs place x os place₁)
    (hf : ∀ a, Meets fs place₁ (f a) [] place') : Meets fs place (x >>= f) os place' :=
  List.append_nil os ▸ hx.bind hf

/-- A computation that leaves the names as they are meets nothing. -/
theorem Meets.quiet {x : Check α} (herrors : ∀ c, c.errors <+: (x.after c).errors)
    (hnames : ∀ c, (x.after c).names = c.names) : Meets fs place x [] place := by
  refine ⟨herrors, fun c before h _ => ?_⟩
  rw [List.append_nil]
  exact h.of_names (hnames c)

theorem pure_meets (a : α) : Meets fs place (pure a) [] place :=
  .quiet (fun _ => List.prefix_refl _) fun _ => rfl

theorem get_meets : Meets fs place get [] place :=
  .quiet (fun _ => List.prefix_refl _) fun _ => rfl

/-- A change of the state that leaves names and errors as they are. -/
theorem modify_meets {g : Checker → Checker} (herrors : ∀ c, (g c).errors = c.errors)
    (hnames : ∀ c, (g c).names = c.names) : Meets fs place (modify g) [] place := by
  refine .quiet (fun c => ⟨[], ?_⟩) hnames
  rw [List.append_nil]
  exact (herrors c).symm

theorem report_meets (v : Violation) (pos : Position) : Meets fs place (report v pos) [] place :=
  .quiet (fun _ => List.prefix_append _ _) fun _ => rfl

theorem reportIf_meets (condition : Bool) (v : Violation) (pos : Position) :
    Meets fs place (reportIf condition v pos) [] place := by
  cases condition with
  | true => exact report_meets v pos
  | false => exact pure_meets ()

theorem Refuses.meets {x : Check α} (h : Refuses x) : Meets fs place x [] place := by
  induction h with
  | pure a => exact pure_meets a
  | report _ pos => exact report_meets _ pos
  | bind _ _ hfirst hnext => exact hfirst.andThen hnext

theorem Meets.inScope {x : Check α} (hx : Meets fs place.inner x os place.inner) :
    Meets fs place (inScope x) (.enter :: os ++ [.leave]) place := by
  have henter : Meets fs place (modify Checker.pushScope) [.enter] place.inner :=
    ⟨fun c => List.prefix_refl c.errors, fun _ _ h _ => h.enter⟩
  have hleave : Meets fs place.inner (modify Checker.popScope) [.leave] place :=
    ⟨fun c => List.prefix_refl c.errors, fun _ _ h _ => h.leave⟩
  exact henter.bind fun _ => hx.bind fun a => hleave.finish fun _ => pure_meets a

theorem Meets.insideLoop {x : Check α} (hx : Meets fs place x os place') :
    Meets fs place (insideLoop x) os place' := by
  refine Meets.andThen (modify_meets (fun _ => rfl) fun _ => rfl) fun _ => ?_
  refine hx.finish fun a => Meets.andThen (modify_meets (fun _ => rfl) fun _ => rfl) fun _ => ?_
  exact pure_meets a

/-! ## Names -/

theorem resolve_after (name : String) (pos : Position) (c : Checker) :
    (resolve name pos).after c =
      match Checker.symbolOf? c.scopes name with
      | some symbol => c.recordUse symbol pos.line
      | none => c.report (.unknownVariable name) pos := by
  unfold resolve after
  rw [get_bind_run]
  cases Checker.symbolOf? c.scopes name with
  | some symbol => rfl
  | none => rfl

/-- A use that is resolved refers to the declaration whose symbol is found. -/
theorem resolve_meets (name : String) (pos : Position) :
    Meets fs place (resolve name pos) [.use name pos.line] place := by
  refine ⟨fun c => ?_, fun c before h herrors => ?_⟩
  · rw [resolve_after]
    cases Checker.symbolOf? c.scopes name with
    | some symbol => exact List.prefix_refl _
    | none => exact List.prefix_append _ _
  · rw [resolve_after, h.symbol_eq name] at herrors ⊢
    cases htarget : target? name before with
    | some i => exact h.use htarget pos.line
    | none =>
      -- the checker knows no such name either, so it has reported it
      rw [htarget] at herrors
      exact absurd herrors (Checker.report_errors _ _ _)

theorem resolveFunction_after (name : String) (pos : Position) (c : Checker) :
    (resolveFunction name pos).after c =
      match c.functions.lookup name with
      | some signature => c.recordUse signature.symbol pos.line
      | none => c.report (.unknownFunction name) pos := by
  unfold resolveFunction after
  rw [get_bind_run]
  cases c.functions.lookup name with
  | some signature => rfl
  | none => rfl

theorem resolveFunction_meets (name : String) (pos : Position) :
    Meets fs place (resolveFunction name pos) [.call name pos.line] place := by
  refine ⟨fun c => ?_, fun c before h herrors => ?_⟩
  · rw [resolveFunction_after]
    cases c.functions.lookup name with
    | some signature => exact List.prefix_refl _
    | none => exact List.prefix_append _ _
  · rw [resolveFunction_after] at herrors ⊢
    cases hlookup : c.functions.lookup name with
    | some signature => exact h.call (by rw [hlookup, Option.map_some]) pos.line
    | none =>
      rw [hlookup] at herrors
      exact absurd herrors (Checker.report_errors _ _ _)

theorem declare_meets (name : String) (kind : SymbolKind) (type : Ty) (pos : Position) :
    Meets fs place (modify fun c => c.declare name kind type pos)
      [.declare ⟨name, kind, type, place.level, place.routine, pos.line⟩] place := by
  refine ⟨fun c => (c.declare_step name kind type pos).errors, fun c before h herrors => ?_⟩
  cases hfree : c.declaresHere name with
  | false => exact h.declare hfree kind type pos
  | true =>
    have herrors : (c.declare name kind type pos).errors = [] := herrors
    rw [Checker.declare, if_pos hfree] at herrors
    exact absurd herrors (Checker.report_errors _ _ _)

/-! ## Expressions -/

mutual

theorem expr_meets : ∀ e : Expr, Meets fs place (expr e) e.occurrences place
  | .literal value pos => by
    rw [expr, Expr.occurrences]
    exact pure_meets _
  | .var name pos => by
    rw [expr, Expr.occurrences]
    exact resolve_meets name pos
  | .assign name value pos => by
    rw [expr, Expr.occurrences]
    refine (expr_meets value).bind fun t => (requireValue_refuses value t).meets.andThen fun found => ?_
    refine (resolve_meets name pos).finish fun expected => ?_
    cases expected with
    | some expected => exact (requireType_refuses expected found _).meets.andThen fun _ => pure_meets _
    | none => exact pure_meets _
  | .unary op operand pos => by
    rw [expr, Expr.occurrences]
    refine (expr_meets operand).finish fun t => ?_
    refine (requireValue_refuses operand t).meets.andThen fun found => ?_
    exact (requireIntegral_refuses _ found _).meets.andThen fun _ => pure_meets _
  | .binary op left right pos => by
    rw [expr, Expr.occurrences]
    refine (expr_meets left).bind fun t => ?_
    refine (requireValue_refuses left t).meets.andThen fun first => ?_
    refine (expr_meets right).finish fun t => ?_
    refine (requireValue_refuses right t).meets.andThen fun second => ?_
    refine (requireIntegral_refuses _ first _).meets.andThen fun _ => ?_
    exact (requireIntegral_refuses _ second _).meets.andThen fun _ => pure_meets _
  | .call name args pos => by
    rw [expr, Expr.occurrences]
    split
    · rw [List.append_nil]
      exact (printArgs_meets pos args).finish fun _ => pure_meets _
    · refine (values_meets args).bind fun found => ?_
      refine (resolveFunction_meets name pos).finish fun signature => ?_
      cases signature with
      | some signature =>
        have hrefuses := requireSignature_refuses signature name args found pos
        exact hrefuses.meets.andThen fun _ => pure_meets _
      | none => exact pure_meets _

theorem values_meets : ∀ es : List Expr, Meets fs place (values es) (Expr.listOccurrences es) place
  | [] => by
    rw [values, Expr.listOccurrences]
    exact pure_meets _
  | e :: es => by
    rw [values, Expr.listOccurrences]
    refine (expr_meets e).bind fun t => (requireValue_refuses e t).meets.andThen fun found => ?_
    exact (values_meets es).finish fun _ => pure_meets _

theorem printArgs_meets (pos : Position) : ∀ es : List Expr,
    Meets fs place (printArgs pos es) (Expr.listOccurrences es) place
  | [] => by
    rw [printArgs, Expr.listOccurrences]
    exact report_meets _ pos
  | e :: es => by
    rw [printArgs, Expr.listOccurrences]
    refine (expr_meets e).bind fun t => (requireValue_refuses e t).meets.andThen fun found => ?_
    cases found with
    | some type =>
      exact (reportIf_meets _ _ _).andThen fun _ => (values_meets es).finish fun _ => pure_meets _
    | none => exact (values_meets es).finish fun _ => pure_meets _

end

theorem value_meets (e : Expr) : Meets fs place (value e) e.occurrences place :=
  (expr_meets e).finish fun t => (requireValue_refuses e t).meets

theorem condition_meets (e : Expr) : Meets fs place (condition e) e.occurrences place := by
  refine (value_meets e).finish fun found => ?_
  cases found with
  | some type => exact reportIf_meets _ _ _
  | none => exact pure_meets _

theorem effect_meets : ∀ e? : Option Expr,
    Meets fs place (effect e?) (Expr.optionOccurrences e?) place
  | some e => (expr_meets e).finish fun _ => pure_meets _
  | none => pure_meets _

/-! ## Statements -/

theorem varDecl_meets (d : VarDecl) :
    Meets fs place (varDecl d) (d.occurrences place.routine place.level) place := by
  unfold varDecl VarDecl.occurrences
  refine (reportIf_meets _ _ _).andThen fun _ => ?_
  cases d.init with
  | none => exact declare_meets d.name .variable_ d.type d.pos
  | some e =>
    refine (value_meets e).bind fun found => ?_
    show Meets fs place (if d.type ≠ .void then _ else _) _ place
    split
    · refine (requireType_refuses _ _ _).meets.andThen fun _ => ?_
      exact declare_meets d.name .variable_ d.type d.pos
    · exact declare_meets d.name .variable_ d.type d.pos

theorem forInit_meets : ∀ init : Option ForInit,
    Meets fs place (forInit init) (ForInit.occurrences place.routine place.level init) place
  | some (.declare d) => varDecl_meets d
  | some (.eval e) => (expr_meets e).finish fun _ => pure_meets _
  | none => pure_meets _

theorem scrutinee_meets (e : Expr) : Meets fs place (scrutinee e) e.occurrences place := by
  refine (value_meets e).finish fun found => ?_
  cases found with
  | some type => exact (reportIf_meets _ _ _).andThen fun _ => pure_meets _
  | none => exact pure_meets _

theorem markReturn_meets : Meets fs place markReturn [] place :=
  modify_meets (fun _ => rfl) fun _ => rfl

theorem ret_meets (value? : Option Expr) (pos : Position) (reachable : Bool) :
    Meets fs place (ret value? pos reachable) (Expr.optionOccurrences value?) place := by
  unfold ret
  cases value? with
  | none =>
    refine get_meets.andThen fun c => ?_
    cases c.function with
    | some f => exact reportIf_meets _ _ _
    | none => exact pure_meets _
  | some e =>
    refine (value_meets e).finish fun found => get_meets.andThen fun c => ?_
    cases c.function with
    | none => exact pure_meets _
    | some f =>
      show Meets fs place (if f.returns = .void then _ else _) _ place
      split
      · exact report_meets _ _
      · cases reachable with
        | true => exact markReturn_meets.andThen fun _ => (requireType_refuses _ _ _).meets
        | false => exact (requireType_refuses _ _ _).meets

mutual

theorem stmt_meets (r : Bool) : ∀ (s : Stmt) (place : Place),
    Meets fs place (stmt r s) (s.occurrences place.routine place.level) place
  | .declare d, place => by
    rw [stmt, Stmt.occurrences]
    exact (varDecl_meets d).finish fun _ => pure_meets _
  | .eval e pos, place => by
    rw [stmt, Stmt.occurrences]
    exact (expr_meets e).finish fun _ => pure_meets _
  | .block body pos, place => by
    rw [stmt, Stmt.occurrences]
    exact (stmts_meets body r place.inner).inScope
  | .branch cond onTrue none pos, place => by
    rw [stmt, Stmt.occurrences]
    exact (condition_meets cond).bind fun _ => (stmt_meets r onTrue place).finish fun _ => pure_meets _
  | .branch cond onTrue (some onFalse) pos, place => by
    rw [stmt, Stmt.occurrences, List.append_assoc]
    refine (condition_meets cond).bind fun _ => (stmt_meets r onTrue place).bind fun _ => ?_
    exact (stmt_meets r onFalse place).finish fun _ => pure_meets _
  | .whileLoop cond body pos, place => by
    rw [stmt, Stmt.occurrences]
    refine (condition_meets cond).bind fun _ => ?_
    exact (stmt_meets r body place).insideLoop.finish fun _ => pure_meets _
  | .forLoop init cond step body pos, place => by
    rw [stmt, Stmt.occurrences, List.append_assoc, List.append_assoc]
    refine Meets.inScope ((forInit_meets init).bind fun _ => ?_)
    have hrest := (effect_meets step).bind fun _ =>
      (stmt_meets r body place.inner).insideLoop.finish fun _ => pure_meets Exit.continues
    cases cond with
    | some e => exact (condition_meets e).bind fun _ => hrest
    | none => exact hrest
  | .switch e groups pos, place => by
    rw [stmt, Stmt.occurrences]
    refine (scrutinee_meets e).bind fun type => ?_
    refine (labels_refuses type groups [] false).meets.andThen fun _ => ?_
    exact (groups_meets groups r place).insideLoop.finish fun _ => pure_meets _
  | .ret value? pos, place => by
    rw [stmt, Stmt.occurrences]
    exact (ret_meets value? pos r).finish fun _ => pure_meets _
  | .brk pos, place => by
    rw [stmt, Stmt.occurrences]
    exact get_meets.andThen fun _ => (reportIf_meets _ _ _).andThen fun _ => pure_meets _

theorem stmts_meets : ∀ (body : List Stmt) (r : Bool) (place : Place),
    Meets fs place (stmts r body) (Stmt.listOccurrences place.routine place.level body) place
  | [], r, place => by
    rw [stmts, Stmt.listOccurrences]
    exact pure_meets _
  | s :: rest, r, place => by
    rw [stmts, Stmt.listOccurrences]
    refine (stmt_meets r s place).bind fun first => ?_
    exact (stmts_meets rest _ place).finish fun _ => pure_meets _

theorem groups_meets : ∀ (cases : List CaseGroup) (r : Bool) (place : Place),
    Meets fs place (groups r cases) (CaseGroup.listOccurrences place.routine place.level cases) place
  | [], r, place => by
    rw [groups, CaseGroup.listOccurrences]
    exact pure_meets _
  | .mk label body pos :: rest, r, place => by
    rw [groups, CaseGroup.listOccurrences]
    exact (stmts_meets body r place).bind fun _ => groups_meets rest r place

end

/-! ## Functions and programs -/

theorem param_meets (p : Param) (hlevel : place.level = 1) :
    Meets fs place (param p) [p.occurrence place.routine] place := by
  refine (reportIf_meets _ _ _).andThen fun _ => ?_
  rw [Param.occurrence, ← hlevel]
  exact declare_meets p.name .parameter p.type p.pos

theorem params_meets (hlevel : place.level = 1) : ∀ params : List Param,
    Meets fs place (params.forM param) (params.map (Param.occurrence place.routine)) place
  | [] => pure_meets _
  | p :: params => (param_meets p hlevel).bind fun _ => params_meets hlevel params

theorem requireReturn_meets (f : FunctionDef) : Meets fs place (requireReturn f) [] place := by
  refine get_meets.andThen fun c => ?_
  cases c.function with
  | some current => exact reportIf_meets _ _ _
  | none => exact pure_meets _

/-- The section of a function, as it is opened. -/
def functionSection (f : FunctionDef) : String × Bool :=
  (f.name, false)

/-- A function fills a section of its own. -/
theorem functionDef_meets (f : FunctionDef) {sections : List (String × Bool)} (hopen : 0 < sections.length)
    (hopen' : 0 < (sections ++ [functionSection f]).length) :
    Meets fs ⟨sections, 0, 0, hopen⟩ (functionDef f) (f.occurrences sections.length)
      ⟨sections ++ [functionSection f], 0, 0, hopen'⟩ := by
  -- the section of the function is the one that is opened last
  have hnew : sections.length < (sections ++ [functionSection f]).length := by
    rw [List.length_append]
    exact Nat.lt_succ_self _
  have henter : Meets fs ⟨sections, 0, 0, hopen⟩ (modify fun c => c.enterRoutine f.name) []
      ⟨sections ++ [functionSection f], sections.length, 0, hnew⟩ := by
    refine ⟨fun c => List.prefix_refl c.errors, fun c before h _ => ?_⟩
    rw [List.append_nil]
    exact ⟨h.scopes, h.symbols, h.functions, h.level, congrArg (· ++ _) h.sections,
      congrArg List.length h.sections, h.refers, fun d hd => Nat.lt_trans (h.inSections d hd) hnew⟩
  have hleave : Meets fs ⟨sections ++ [functionSection f], sections.length, 0, hnew⟩
      (modify Checker.leaveRoutine) [] ⟨sections ++ [functionSection f], 0, 0, hopen'⟩ := by
    refine ⟨fun c => List.prefix_refl c.errors, fun c before h _ => ?_⟩
    rw [List.append_nil]
    exact ⟨h.scopes, h.symbols, h.functions, h.level, h.sections, rfl, h.refers, h.inSections⟩
  -- parameters and body share one scope, as the checker opens one for both
  refine henter.andThen fun _ => Meets.finish (Meets.inScope ?_) fun _ => hleave
  refine (params_meets rfl f.params).bind fun _ => ?_
  refine Meets.andThen (modify_meets (fun _ => rfl) fun _ => rfl) fun _ => ?_
  refine (stmts_meets f.body true _).finish fun _ => (requireReturn_meets f).andThen fun _ => ?_
  exact modify_meets (fun _ => rfl) fun _ => rfl

/-- The sections that items leave open have the functions of the items at their end. -/
theorem items_meets : ∀ (items : List Item) (functions : Nat) (sections : List (String × Bool))
    (hopen : 0 < sections.length)
    (hopen' : 0 < (sections ++ (Item.functions items).map functionSection).length),
    sections.length = functions + 1 →
    Meets fs ⟨sections, 0, 0, hopen⟩ (items.forM item) (Item.listOccurrences functions items)
      ⟨sections ++ (Item.functions items).map functionSection, 0, 0, hopen'⟩
  | [], functions, sections, hopen, hopen', _ => by
    have hnone : sections ++ (Item.functions []).map functionSection = sections := List.append_nil _
    simp only [hnone]
    exact pure_meets _
  | .global d :: items, functions, sections, hopen, hopen', hlength =>
    (varDecl_meets d).bind fun _ => items_meets items functions sections hopen hopen' hlength
  | .function f :: items, functions, sections, hopen, hopen', hlength => by
    have hlength' : (sections ++ [functionSection f]).length = functions + 2 := by
      rw [List.length_append, hlength]
      rfl
    have hmore : sections ++ (Item.functions (.function f :: items)).map functionSection =
        (sections ++ [functionSection f]) ++ (Item.functions items).map functionSection := by
      rw [List.append_assoc]
      rfl
    simp only [hmore] at hopen' ⊢
    -- the number of the section is how many are open, the one of the program included
    rw [Item.listOccurrences, ← hlength]
    refine (functionDef_meets f hopen (hlength' ▸ Nat.succ_pos _)).bind fun _ => ?_
    rw [hlength]
    exact items_meets items (functions + 1) (sections ++ [functionSection f]) _ hopen' hlength'

end Check

/-! ## Registration -/

namespace Checker

variable {fs : List FunctionDef} {place : Place} {c : Checker} {f : FunctionDef}

/-- Before any item is walked over, a function is registered by adding its symbol. -/
theorem Follows.register (h : c.Follows fs [] place) (hfree : c.functions.lookup f.name = none) :
    (c.declareFunction f).Follows (fs ++ [f]) [] place where
  scopes k name := by
    have hnone := h.scopes k name
    rw [List.nil_append, target?_replicate_leave, Option.map_none] at hnone ⊢
    exact hnone
  symbols := by
    have hsymbols : c.symbols = functionSymbols fs [] ++ [] := h.symbols
    show c.symbols ++ [f.symbol []] = functionSymbols (fs ++ [f]) [] ++ []
    rw [hsymbols, List.append_nil, List.append_nil, functionSymbols, functionSymbols, List.map_append]
    rfl
  functions name k := by
    have hnumber : c.symbols.length = fs.length := h.symbols_length
    have hold := h.functions name k
    show (((f.name, (⟨_, _, c.symbols.length⟩ : Signature)) :: c.functions).lookup name).map _ = some k ↔ _
    rw [Lookup.lookup_cons, List.map_append, List.map_singleton]
    rw [List.getElem?_append, List.length_map, List.getElem?_singleton]
    -- the new function has the next number, and all others keep theirs
    by_cases hname : name = f.name
    · -- no earlier function has the name
      rw [hname, hfree] at hold
      rw [if_pos hname, Option.map_some, Option.some_inj, hnumber, hname]
      grind
    · rw [if_neg hname, hold]
      grind
  level := h.level
  sections := h.sections
  routine := h.routine
  refers := AllRefer.nil
  inSections := fun _ hd => (nomatch hd)

/-- Functions that are registered without an error are followed in source order. -/
theorem registerAll_follows : ∀ (gs fs : List FunctionDef) (c : Checker), c.Follows fs [] place →
    ((gs.forM Check.register).run c).2.errors = [] →
    ((gs.forM Check.register).run c).2.Follows (fs ++ gs) [] place
  | [], fs, c, h, _ => by
    rw [List.append_nil]
    exact h
  | g :: gs, fs, c, h, herrors => by
    have herrors : ((gs.forM Check.register).run ((Check.register g).run c).2).2.errors = [] := herrors
    have hfirst : ((Check.register g).run c).2.errors = [] :=
      List.prefix_nil.mp (herrors ▸ (Check.registerAll_step gs _).errors)
    show ((gs.forM Check.register).run ((Check.register g).run c).2).2.Follows (fs ++ g :: gs) [] place
    rcases Check.register_cases g c with ⟨v, hreport⟩ | ⟨-, hfree, hdeclared⟩
    · rw [hreport] at hfirst
      exact absurd hfirst (report_errors _ _ _)
    · rw [hdeclared] at herrors ⊢
      rw [← List.singleton_append, ← List.append_assoc]
      exact registerAll_follows gs (fs ++ [g]) _ (h.register hfree) herrors

theorem new_follows (name : String) : (new name).Follows [] [] ⟨[(name, true)], 0, 0, Nat.one_pos⟩ where
  scopes k name' := by
    rw [List.nil_append, target?_replicate_leave, Option.map_none]
    cases k with
    | zero => rfl
    | succ k =>
      show symbolOf? (([] : List StaticScope).drop k) name' = none
      rw [List.drop_nil]
      rfl
  symbols := rfl
  functions name' k := by
    show none = some k ↔ none = some name'
    exact ⟨fun h => (nomatch h), fun h => (nomatch h)⟩
  level := rfl
  sections := rfl
  routine := rfl
  refers := AllRefer.nil
  inSections := fun _ hd => (nomatch hd)

/-- At the end of an accepted program the checker has followed all of it. -/
theorem ofProgram_follows {p : Program} (herrors : (ofProgram p).errors = []) :
    (ofProgram p).Follows p.functions p.occurrences
      ⟨(p.name, true) :: p.functions.map Check.functionSection, 0, 0, Nat.succ_pos _⟩ := by
  have hitems : Check.Meets p.functions ⟨[(p.name, true)], 0, 0, Nat.one_pos⟩ (p.items.forM Check.item)
      p.occurrences ⟨(p.name, true) :: p.functions.map Check.functionSection, 0, 0, Nat.succ_pos _⟩ :=
    Check.items_meets p.items 0 [(p.name, true)] Nat.one_pos (Nat.succ_pos _) rfl
  have hregistered : (registered p).errors = [] :=
    List.prefix_nil.mp (herrors ▸ hitems.errors (registered p))
  have hstart := registerAll_follows p.functions [] (new p.name) (new_follows p.name) hregistered
  exact hitems.follows (registered p) [] hstart herrors

end Checker

end Primer
