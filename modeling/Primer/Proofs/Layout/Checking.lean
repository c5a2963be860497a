import Primer.Proofs.Tree.Erase
import Primer.Typing.Program

/-!
# Checking does not look at positions

The checker copies positions into its errors, and their lines into the cross-reference table, and
looks at them nowhere. So checking a tree without positions finds the same violations in the same
order.

- `Checker.erase` is a state of checking without positions.
- `Check.Erases` relates a check with its counterpart; there is one lemma for each way in which checks
  are put together.
- `Checker.ofProgram_erase` is the statement for programs.
-/

namespace Primer

/-! ## States without positions -/

/-- A violation without its position. -/
def SemanticError.erase (e : SemanticError) : SemanticError :=
  ⟨e.violation, .start⟩

/-- A symbol that is declared and used on the first line. -/
def Symbol.erase (s : Symbol) : Symbol :=
  { s with line := Position.start.line, uses := s.uses.map fun _ => Position.start.line }

namespace Checker

/-- A state of checking without positions. -/
def erase (c : Checker) : Checker :=
  { c with errors := c.errors.map SemanticError.erase, symbols := c.symbols.map Symbol.erase }

theorem function_erase (c : Checker) : c.erase.function = c.function :=
  rfl

theorem report_erase (c : Checker) (violation : Violation) (pos : Position) :
    (c.report violation pos).erase = c.erase.report violation .start := by
  simp [report, erase, SemanticError.erase]

theorem addSymbol_erase (c : Checker) (name : String) (kind : SymbolKind) (type : Ty)
    (level routine : Nat) (pos : Position) :
    (c.addSymbol name kind type level routine pos).erase =
      c.erase.addSymbol name kind type level routine .start := by
  simp [addSymbol, erase, Symbol.erase]

theorem bind_erase (c : Checker) (name : String) (symbol : Nat) :
    (c.bind name symbol).erase = c.erase.bind name symbol := by
  cases h : c.scopes with
  | nil => simp [bind, erase, h]
  | cons scope outer => simp [bind, erase, h]

theorem declare_erase (c : Checker) (name : String) (kind : SymbolKind) (type : Ty) (pos : Position) :
    (c.declare name kind type pos).erase = c.erase.declare name kind type .start := by
  have hhere : c.erase.declaresHere name = c.declaresHere name := rfl
  have hlength : c.erase.symbols.length = c.symbols.length := List.length_map _
  unfold declare
  rw [hhere, hlength]
  split
  · exact report_erase c _ pos
  · rw [bind_erase, addSymbol_erase]
    rfl

theorem declareFunction_erase (c : Checker) (f : FunctionDef) :
    (c.declareFunction f).erase = c.erase.declareFunction f.erase := by
  have hparams : (f.params.map Param.erase).map Param.type = f.params.map Param.type := by
    simp [Function.comp_def, Param.erase]
  simp [declareFunction, erase, addSymbol, Symbol.erase, FunctionDef.erase, hparams]

theorem recordUse_erase (c : Checker) (symbol line : Nat) :
    (c.recordUse symbol line).erase = c.erase.recordUse symbol Position.start.line := by
  have hmodify :
      (c.symbols.modify symbol fun s => { s with uses := line :: s.uses }).map Symbol.erase =
        (c.symbols.map Symbol.erase).modify symbol fun s =>
          { s with uses := Position.start.line :: s.uses } := by
    apply List.ext_getElem?
    intro i
    simp only [List.getElem?_map, List.getElem?_modify]
    cases c.symbols[i]? with
    | none => rfl
    | some s =>
      by_cases hi : symbol = i
      · simp [hi, Symbol.erase]
      · simp [hi, Symbol.erase]
  simp only [recordUse, erase, hmodify]

theorem typeOf?_erase (c : Checker) (symbol : Nat) : c.erase.typeOf? symbol = c.typeOf? symbol := by
  simp only [typeOf?, erase, List.getElem?_map, Option.map_map]
  rfl

end Checker

/-! ## Checks and their counterparts -/

namespace Check

variable {α β : Type}

/-- On a state without positions, `x'` gives what `x` gives, and ends in the state of `x` without
positions. -/
def Erases (x x' : Check α) : Prop :=
  ∀ c, x'.run c.erase = ((x.run c).1, (x.run c).2.erase)

theorem erases_pure (a : α) : Erases (pure a) (pure a) := fun _ => rfl

theorem Erases.bind {x x' : Check α} {f f' : α → Check β} (hx : Erases x x')
    (hf : ∀ a, Erases (f a) (f' a)) : Erases (x >>= f) (x' >>= f') := by
  intro c
  rw [StateT.run_bind, StateT.run_bind, hx c]
  exact hf _ _

theorem erases_get {f f' : Checker → Check β} (h : ∀ c, Erases (f c) (f' c.erase)) :
    Erases (get >>= f) (get >>= f') :=
  fun c => h c c

theorem erases_modify {f f' : Checker → Checker} (h : ∀ c, (f c).erase = f' c.erase) :
    Erases (modify f) (modify f') := by
  intro c
  show ((), f' c.erase) = ((), (f c).erase)
  rw [h]

theorem erases_report (violation : Violation) (pos : Position) :
    Erases (report violation pos) (report violation .start) :=
  erases_modify fun c => c.report_erase violation pos

theorem erases_reportIf (condition : Bool) (violation : Violation) (pos : Position) :
    Erases (reportIf condition violation pos) (reportIf condition violation .start) := by
  unfold reportIf
  split
  · exact erases_report violation pos
  · exact erases_pure ()

theorem Erases.inScope {x x' : Check α} (h : Erases x x') : Erases (inScope x) (inScope x') := by
  unfold Check.inScope
  refine Erases.bind (erases_modify fun _ => by rfl) fun _ => h.bind fun a => ?_
  exact Erases.bind (erases_modify fun _ => by rfl) fun _ => erases_pure a

theorem Erases.insideLoop {x x' : Check α} (h : Erases x x') :
    Erases (insideLoop x) (insideLoop x') := by
  unfold Check.insideLoop
  refine Erases.bind (erases_modify fun _ => by rfl) fun _ => h.bind fun a => ?_
  exact Erases.bind (erases_modify fun _ => by rfl) fun _ => erases_pure a

theorem erases_resolve (name : String) (pos : Position) :
    Erases (resolve name pos) (resolve name .start) := by
  refine erases_get fun c => ?_
  have hscopes : c.erase.scopes = c.scopes := rfl
  rw [hscopes]
  cases Checker.symbolOf? c.scopes name with
  | none => exact (erases_report _ pos).bind fun _ => erases_pure _
  | some symbol =>
    dsimp only
    rw [c.typeOf?_erase]
    exact (erases_modify fun c' => c'.recordUse_erase symbol pos.line).bind fun _ => erases_pure _

theorem erases_resolveFunction (name : String) (pos : Position) :
    Erases (resolveFunction name pos) (resolveFunction name .start) := by
  refine erases_get fun c => ?_
  have hfunctions : c.erase.functions = c.functions := rfl
  rw [hfunctions]
  cases c.functions.lookup name with
  | none => exact (erases_report _ pos).bind fun _ => erases_pure _
  | some signature =>
    exact (erases_modify fun c' => c'.recordUse_erase signature.symbol pos.line).bind
      fun _ => erases_pure _

end Check

/-! ## Expressions -/

namespace Expr

theorem precedence_erase (e : Expr) : e.erase.precedence = e.precedence := by
  cases e <;> rfl

mutual

theorem text_erase : ∀ e : Expr, e.erase.text = e.text
  | .literal value pos => rfl
  | .var name pos => rfl
  | .assign name value pos => by
    simp only [erase, text, text_erase value]
  | .unary op operand pos => by
    simp only [erase, text, text_erase operand, precedence_erase]
  | .binary op left right pos => by
    simp only [erase, text, text_erase left, text_erase right, precedence_erase]
  | .call name args pos => by
    simp only [erase, text, texts_erase args]

theorem texts_erase : ∀ es : List Expr, texts (eraseAll es) = texts es
  | [] => rfl
  | e :: es => by
    simp only [eraseAll, texts, text_erase e, texts_erase es]

end

end Expr

namespace Check

theorem valueName_erase (e : Expr) : valueName e.erase = valueName e := by
  cases e with
  | call name args pos => rfl
  | _ => exact Expr.text_erase _

theorem erases_requireValue (e : Expr) (found : Option Ty) :
    Erases (requireValue e found) (requireValue e.erase found) := by
  unfold requireValue
  rw [valueName_erase, e.pos_erase]
  split
  · exact (erases_report _ _).bind fun _ => erases_pure _
  · exact erases_pure _

theorem erases_requireType (expected : Ty) (found : Option Ty) (pos : Position) :
    Erases (requireType expected found pos) (requireType expected found .start) := by
  cases found with
  | none => exact erases_pure _
  | some found => exact erases_reportIf _ _ _

theorem erases_requireIntegral (operator : Operator) (operand : Option Ty) (pos : Position) :
    Erases (requireIntegral operator operand pos) (requireIntegral operator operand .start) := by
  cases operand with
  | none => exact erases_pure _
  | some type => exact erases_reportIf _ _ _

theorem erases_requireTypes : ∀ (args : List Expr) (found : List (Option Ty)) (params : List Ty),
    Erases (requireTypes args found params) (requireTypes (Expr.eraseAll args) found params)
  | [], _, _ => erases_pure _
  | _ :: _, [], _ => erases_pure _
  | _ :: _, _ :: _, [] => erases_pure _
  | arg :: args, found :: rest, param :: params => by
    rw [Expr.eraseAll, requireTypes, requireTypes, arg.pos_erase]
    exact (erases_requireType _ _ _).bind fun _ => erases_requireTypes args rest params

theorem erases_requireSignature (signature : Signature) (name : String) (args : List Expr)
    (found : List (Option Ty)) (pos : Position) :
    Erases (requireSignature signature name args found pos)
      (requireSignature signature name (Expr.eraseAll args) found .start) := by
  have hlength : (Expr.eraseAll args).length = args.length := by
    rw [Expr.eraseAll_eq_map, List.length_map]
  unfold requireSignature
  rw [hlength]
  split
  · exact erases_requireTypes args found _
  · exact erases_report _ _

mutual

theorem erases_expr : ∀ e : Expr, Erases (expr e) (expr e.erase)
  | .literal value pos => by
    rw [Expr.erase, expr, expr]
    exact erases_pure _
  | .var name pos => by
    rw [Expr.erase, expr, expr]
    exact erases_resolve name pos
  | .assign name value pos => by
    rw [Expr.erase, expr, expr, value.pos_erase]
    refine (erases_expr value).bind fun t => (erases_requireValue value t).bind fun found => ?_
    refine (erases_resolve name pos).bind fun expected => ?_
    cases expected with
    | none => exact erases_pure _
    | some expected => exact (erases_requireType _ _ _).bind fun _ => erases_pure _
  | .unary op operand pos => by
    rw [Expr.erase, expr, expr, operand.pos_erase]
    refine (erases_expr operand).bind fun t => (erases_requireValue operand t).bind fun found => ?_
    exact (erases_requireIntegral _ _ _).bind fun _ => erases_pure _
  | .binary op left right pos => by
    rw [Expr.erase, expr, expr, left.pos_erase, right.pos_erase]
    refine (erases_expr left).bind fun t => (erases_requireValue left t).bind fun leftType => ?_
    refine (erases_expr right).bind fun u => (erases_requireValue right u).bind fun rightType => ?_
    refine (erases_requireIntegral _ _ _).bind fun _ => ?_
    exact (erases_requireIntegral _ _ _).bind fun _ => erases_pure _
  | .call name args pos => by
    rw [Expr.erase, expr, expr]
    split
    · exact (erases_printArgs pos args).bind fun _ => erases_pure _
    · refine (erases_values args).bind fun found => ?_
      refine (erases_resolveFunction name pos).bind fun signature => ?_
      cases signature with
      | none => exact erases_pure _
      | some signature =>
        exact (erases_requireSignature signature name args found pos).bind fun _ => erases_pure _

theorem erases_values : ∀ es : List Expr, Erases (values es) (values (Expr.eraseAll es))
  | [] => by
    rw [Expr.eraseAll, values]
    exact erases_pure _
  | e :: es => by
    rw [Expr.eraseAll, values, values]
    refine (erases_expr e).bind fun t => (erases_requireValue e t).bind fun found => ?_
    exact (erases_values es).bind fun rest => erases_pure _

theorem erases_printArgs (pos : Position) :
    ∀ es : List Expr, Erases (printArgs pos es) (printArgs .start (Expr.eraseAll es))
  | [] => by
    rw [Expr.eraseAll, printArgs, printArgs]
    exact erases_report _ _
  | format :: rest => by
    rw [Expr.eraseAll, printArgs, printArgs, format.pos_erase]
    refine (erases_expr format).bind fun t => (erases_requireValue format t).bind fun found => ?_
    have hrest := (erases_values rest).bind fun _ => erases_pure ()
    cases found with
    | none => exact hrest
    | some type => exact (erases_reportIf _ _ _).bind fun _ => hrest

end

theorem erases_value (e : Expr) : Erases (value e) (value e.erase) :=
  (erases_expr e).bind fun t => erases_requireValue e t

theorem erases_condition (e : Expr) : Erases (condition e) (condition e.erase) := by
  unfold condition
  rw [e.pos_erase]
  refine (erases_value e).bind fun found => ?_
  cases found with
  | none => exact erases_pure _
  | some type => exact erases_reportIf _ _ _

/-! ## Statements -/

theorem erases_varDecl (d : VarDecl) : Erases (varDecl d) (varDecl d.erase) := by
  have hdeclare : Erases (modify fun c => c.declare d.name .variable_ d.type d.pos)
      (modify fun c => c.declare d.name .variable_ d.type .start) :=
    erases_modify fun c => c.declare_erase d.name .variable_ d.type d.pos
  unfold varDecl
  refine (erases_reportIf _ _ d.pos).bind fun _ => ?_
  have hinit : d.erase.init = d.init.map Expr.erase := rfl
  simp only [hinit]
  cases d.init with
  | none => exact hdeclare
  | some e =>
    refine (erases_value e).bind fun found => ?_
    rw [e.pos_erase]
    show Erases (if d.type ≠ .void then _ else _) (if d.type ≠ .void then _ else _)
    split
    · exact (erases_requireType _ _ _).bind fun _ => hdeclare
    · exact hdeclare

theorem erases_forInit :
    ∀ init : Option ForInit, Erases (forInit init) (forInit (init.map ForInit.erase))
  | none => erases_pure ()
  | some (.declare d) => erases_varDecl d
  | some (.eval e) => (erases_expr e).bind fun _ => erases_pure ()

theorem erases_effect : ∀ e? : Option Expr, Erases (effect e?) (effect (e?.map Expr.erase))
  | none => erases_pure ()
  | some e => (erases_expr e).bind fun _ => erases_pure ()

theorem erases_markReturn : Erases markReturn markReturn := by
  unfold markReturn
  exact erases_modify fun _ => by rfl

theorem erases_ret (e? : Option Expr) (pos : Position) (reachable : Bool) :
    Erases (ret e? pos reachable) (ret (e?.map Expr.erase) .start reachable) := by
  cases e? with
  | none =>
    refine erases_get fun c => ?_
    rw [Checker.function_erase]
    cases c.function with
    | none => exact erases_pure ()
    | some f => exact erases_reportIf _ _ _
  | some e =>
    refine (erases_value e).bind fun found => erases_get fun c => ?_
    rw [Checker.function_erase]
    cases c.function with
    | none => exact erases_pure ()
    | some f =>
      rw [e.pos_erase]
      have hvalue := erases_requireType f.returns found e.pos
      show Erases (if f.returns = .void then _ else _) (if f.returns = .void then _ else _)
      split
      · exact erases_report _ _
      · split
        · exact erases_markReturn.bind fun _ => hvalue
        · exact hvalue

theorem erases_labels (scrutinee : Option Ty) :
    ∀ (cases : List CaseGroup) (seen : List CaseLabel) (hasDefault : Bool),
      Erases (labels scrutinee seen hasDefault cases)
        (labels scrutinee seen hasDefault (CaseGroup.eraseAll cases))
  | [], _, _ => by
    rw [CaseGroup.eraseAll, labels]
    exact erases_pure ()
  | .mk none body pos :: rest, seen, hasDefault => by
    rw [CaseGroup.eraseAll, labels, labels]
    exact (erases_reportIf _ _ _).bind fun _ => erases_labels scrutinee rest seen true
  | .mk (some label) body pos :: rest, seen, hasDefault => by
    rw [CaseGroup.eraseAll, labels, labels]
    have hrest := (erases_reportIf (seen.contains label) (.duplicateCase label) pos).bind fun _ =>
      erases_labels scrutinee rest (label :: seen) hasDefault
    cases scrutinee with
    | none => exact hrest
    | some type => exact (erases_reportIf _ _ _).bind fun _ => hrest

theorem erases_scrutinee (e : Expr) : Erases (scrutinee e) (scrutinee e.erase) := by
  unfold scrutinee
  rw [e.pos_erase]
  refine (erases_value e).bind fun found => ?_
  cases found with
  | none => exact erases_pure _
  | some type => exact (erases_reportIf _ _ _).bind fun _ => erases_pure _

mutual

theorem erases_stmt :
    ∀ (s : Stmt) (reachable : Bool), Erases (stmt reachable s) (stmt reachable s.erase)
  | .declare d, reachable => by
    rw [Stmt.erase, stmt, stmt]
    exact (erases_varDecl d).bind fun _ => erases_pure _
  | .eval e pos, reachable => by
    rw [Stmt.erase, stmt, stmt]
    exact (erases_expr e).bind fun _ => erases_pure _
  | .block body pos, reachable => by
    rw [Stmt.erase, stmt, stmt]
    exact (erases_stmts body reachable).inScope
  | .branch cond onTrue none pos, reachable => by
    rw [Stmt.erase, stmt, stmt]
    refine (erases_condition cond).bind fun _ => ?_
    exact (erases_stmt onTrue reachable).bind fun _ => erases_pure _
  | .branch cond onTrue (some onFalse) pos, reachable => by
    rw [Stmt.erase, stmt, stmt]
    refine (erases_condition cond).bind fun _ => (erases_stmt onTrue reachable).bind fun _ => ?_
    exact (erases_stmt onFalse reachable).bind fun _ => erases_pure _
  | .whileLoop cond body pos, reachable => by
    rw [Stmt.erase, stmt, stmt]
    refine (erases_condition cond).bind fun _ => ?_
    exact (erases_stmt body reachable).insideLoop.bind fun _ => erases_pure _
  | .forLoop init cond step body pos, reachable => by
    rw [Stmt.erase, stmt, stmt]
    refine Erases.inScope ((erases_forInit init).bind fun _ => ?_)
    have hbody := (erases_effect step).bind fun _ =>
      (erases_stmt body reachable).insideLoop.bind fun _ => erases_pure Exit.continues
    cases cond with
    | none => exact hbody
    | some e => exact (erases_condition e).bind fun _ => hbody
  | .switch e cases pos, reachable => by
    rw [Stmt.erase, stmt, stmt]
    refine (erases_scrutinee e).bind fun type => (erases_labels type cases [] false).bind fun _ => ?_
    exact (erases_groups cases reachable).insideLoop.bind fun _ => erases_pure _
  | .ret value pos, reachable => by
    rw [Stmt.erase, stmt, stmt]
    exact (erases_ret value pos reachable).bind fun _ => erases_pure _
  | .brk pos, reachable => by
    rw [Stmt.erase, stmt, stmt]
    refine erases_get fun c => ?_
    exact (erases_reportIf (c.breakable == 0) .breakOutsideLoop pos).bind fun _ => erases_pure _

theorem erases_stmts : ∀ (body : List Stmt) (reachable : Bool),
    Erases (stmts reachable body) (stmts reachable (Stmt.eraseAll body))
  | [], reachable => by
    rw [Stmt.eraseAll, stmts]
    exact erases_pure _
  | s :: rest, reachable => by
    rw [Stmt.eraseAll, stmts, stmts]
    refine (erases_stmt s reachable).bind fun first => ?_
    exact (erases_stmts rest _).bind fun others => erases_pure _

theorem erases_groups : ∀ (cases : List CaseGroup) (reachable : Bool),
    Erases (groups reachable cases) (groups reachable (CaseGroup.eraseAll cases))
  | [], reachable => by
    rw [CaseGroup.eraseAll, groups]
    exact erases_pure _
  | .mk label body pos :: rest, reachable => by
    rw [CaseGroup.eraseAll, groups, groups]
    exact (erases_stmts body reachable).bind fun _ => erases_groups rest reachable

end

/-! ## Programs -/

/-- A check of each element of a list. -/
theorem erases_forM {check check' : α → Check Unit} {f : α → α}
    (h : ∀ a, Erases (check a) (check' (f a))) :
    ∀ as : List α, Erases (as.forM check) ((as.map f).forM check')
  | [] => erases_pure ()
  | a :: as => (h a).bind fun _ => erases_forM h as

theorem erases_register (f : FunctionDef) : Erases (register f) (register f.erase) := by
  unfold register
  have hname : f.erase.name = f.name := rfl
  rw [hname]
  split
  · exact erases_report _ _
  · refine erases_get fun c => ?_
    show Erases (if (c.functions.lookup f.name).isSome then _ else _)
      (if (c.functions.lookup f.name).isSome then _ else _)
    split
    · exact erases_report _ _
    · exact erases_modify fun c' => c'.declareFunction_erase f

theorem erases_param (p : Param) : Erases (param p) (param p.erase) :=
  (erases_reportIf _ _ _).bind fun _ =>
    erases_modify fun c => c.declare_erase p.name .parameter p.type p.pos

theorem erases_requireReturn (f : FunctionDef) : Erases (requireReturn f) (requireReturn f.erase) := by
  refine erases_get fun c => ?_
  rw [Checker.function_erase]
  cases c.function with
  | none => exact erases_pure ()
  | some current => exact erases_reportIf _ _ _

theorem erases_functionDef (f : FunctionDef) : Erases (functionDef f) (functionDef f.erase) := by
  unfold functionDef
  refine Erases.bind (erases_modify fun _ => by rfl) fun _ => ?_
  refine Erases.bind (Erases.inScope ?_) fun _ => erases_modify fun _ => by rfl
  refine (erases_forM erases_param f.params).bind fun _ => ?_
  refine Erases.bind (erases_modify fun _ => by rfl) fun _ => ?_
  refine (erases_stmts f.body true).bind fun _ => (erases_requireReturn f).bind fun _ => ?_
  exact erases_modify fun _ => by rfl

theorem erases_item : ∀ i : Item, Erases (item i) (item i.erase)
  | .global d => erases_varDecl d
  | .function f => erases_functionDef f

end Check

/-- Checking a program without positions ends in the same state, without positions. -/
theorem Checker.ofProgram_erase (p : Program) :
    Checker.ofProgram p.erase = (Checker.ofProgram p).erase := by
  have hprogram : Check.Erases (Check.program p) (Check.program p.erase) := by
    unfold Check.program
    rw [p.functions_erase]
    exact (Check.erases_forM Check.erases_register p.functions).bind fun _ =>
      Check.erases_forM Check.erases_item p.items
  exact congrArg Prod.snd (hprogram (Checker.new p.name))

/-- A program without positions is accepted if the program is; else it has the same violations in the
same order. -/
theorem Program.check_erase {α : Type} (p : Program) (a : α) :
    (check p.erase).map (fun _ => a) =
      ((check p).map fun _ => a).mapError (List.map SemanticError.erase) := by
  unfold check
  rw [Checker.ofProgram_erase]
  have hnone : (Checker.ofProgram p).erase.errors.isEmpty = (Checker.ofProgram p).errors.isEmpty :=
    List.isEmpty_map
  simp only [hnone]
  split <;> rfl

end Primer
