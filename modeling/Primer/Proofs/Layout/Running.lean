import Primer.Machine.Run
import Primer.Proofs.Machine.Outcome
import Primer.Proofs.Tree.Erase

/-!
# Running does not look at positions

A run copies positions into its error and into the transcript, and looks at them nowhere; a sink is
handed texts only. So a program without positions runs in the same way, with the same fuel: it prints
the same texts, makes the same calls and comes to the same outcome, without positions.

- `Outcome.erase` is an outcome without positions.
- `Run.Erases` relates a computation with its counterpart; there is one lemma for each way in which
  computations are put together.
- `Program.run_erase` is the statement for whole runs.
-/

namespace Primer

variable {α β : Type}

/-! ## Outcomes without positions -/

/-- An error of a run without its position. -/
def RuntimeError.erase : RuntimeError → RuntimeError
  | .unknownVariable name _ => .unknownVariable name .start
  | .unknownFunction name _ => .unknownFunction name .start
  | .argumentCount name expected found _ => .argumentCount name expected found .start
  | .type fault _ => .type fault .start
  | .arithmetic fault _ => .arithmetic fault .start
  | .stackOverflow limit _ => .stackOverflow limit .start
  | .missingMain program => .missingMain program
  | .mainParameters _ => .mainParameters .start
  | .missingReturnValue name _ => .missingReturnValue name .start
  | .format fault _ => .format fault .start
  | .output reason _ => .output reason .start
  | .stackRefused bytes reason => .stackRefused bytes reason

/-- An event without its position. -/
def Event.erase : Event → Event
  | .printed text _ => .printed text .start
  | .called name depth => .called name depth
  | .returned result => .returned result

theorem Event.text_erase (e : Event) : e.erase.text = e.text := by
  cases e <;> rfl

theorem Event.printed?_erase (e : Event) : e.erase.printed? = e.printed? := by
  cases e <;> rfl

namespace Transcript

/-- A transcript without positions. -/
def erase (t : Transcript) : Transcript :=
  { t with events := t.events.map Event.erase }

theorem erase_record (t : Transcript) (e : Event) : (t.record e).erase = t.erase.record e.erase := by
  simp [record, erase, e.text_erase]

/-- A sink cannot tell a transcript without positions from the transcript. -/
theorem erase_sameTexts (t : Transcript) : t.erase.SameTexts t where
  texts := by
    have hprinted : Event.printed? ∘ Event.erase = Event.printed? := funext Event.printed?_erase
    show (t.events.map Event.erase).filterMap Event.printed? = t.events.filterMap Event.printed?
    rw [List.filterMap_map, hprinted]
  bytes := rfl

theorem output_erase (t : Transcript) : t.erase.output = t.output := by
  unfold output history erase
  rw [← List.map_reverse, List.map_map]
  congr 2
  funext e
  exact e.text_erase

end Transcript

/-- A machine without positions. Variables and values have none. -/
def Machine.erase (m : Machine) : Machine :=
  { m with transcript := m.transcript.erase }

/-- An outcome without positions. -/
def Outcome.erase : Outcome α → Outcome α
  | .value a m => .value a m.erase
  | .error e m => .error e.erase m.erase
  | .pending => .pending

/-! ## Computations and their counterparts -/

namespace Run

/-- On a machine without positions, `x'` comes to the outcome of `x` without positions. -/
def Erases (x x' : Run α) : Prop :=
  ∀ m, x' m.erase = (x m).erase

theorem erases_pure (a : α) : Erases (pure a) (pure a) := fun _ => rfl

theorem erases_fail {e e' : RuntimeError} (h : e.erase = e') : Erases (fail e : Run α) (fail e') := by
  intro m
  subst h
  rfl

theorem erases_pending : Erases (pending : Run α) pending := fun _ => rfl

theorem Erases.bind {x x' : Run α} {f f' : α → Run β} (hx : Erases x x')
    (hf : ∀ a, Erases (f a) (f' a)) : Erases (x >>= f) (x' >>= f') := by
  intro m
  rw [bind_apply, bind_apply, hx m]
  cases x m with
  | value a m₁ => exact hf a m₁
  | error e m₁ => rfl
  | pending => rfl

theorem erases_orFail (a? : Option α) {e e' : RuntimeError} (h : e.erase = e') :
    Erases (orFail a? e) (orFail a? e') := by
  cases a? with
  | some a => exact erases_pure a
  | none => exact erases_fail h

theorem erases_env : Erases env env := fun _ => rfl

theorem erases_modifyEnv (f : Environment → Environment) : Erases (modifyEnv f) (modifyEnv f) :=
  fun _ => rfl

theorem erases_record {e e' : Event} (h : e.erase = e') : Erases (record e) (record e') := by
  intro m
  subst h
  simp only [record, Machine.erase, Outcome.erase, Transcript.erase_record]

theorem Erases.closing {x x' : Run α} (h : Erases x x') (close : Environment → Environment) :
    Erases (closing close x) (closing close x') := by
  intro m
  unfold Run.closing
  rw [h m]
  cases x m with
  | value a m₁ => rfl
  | error e m₁ => rfl
  | pending => rfl

theorem Erases.inScope {x x' : Run α} (h : Erases x x') : Erases (inScope x) (inScope x') :=
  (erases_modifyEnv _).bind fun _ => h.closing _

theorem Erases.inFrame {x x' : Run α} (h : Erases x x') : Erases (inFrame x) (inFrame x') :=
  (erases_modifyEnv _).bind fun _ => h.closing _

theorem erases_write (sink : Sink) (text : String) (pos : Position) :
    Erases (write sink text pos) (write sink text .start) := by
  intro m
  have hsink : sink.write? m.erase.transcript text = sink.write? m.transcript text := by
    unfold Sink.write?
    rw [sink.refusal?_congr (t := m.erase.transcript) m.transcript.erase_sameTexts]
  unfold write
  rw [hsink]
  cases sink.write? m.transcript text with
  | some reason => rfl
  | none =>
    show Outcome.value () _ = Outcome.value () _
    simp only [Machine.erase, Transcript.erase_record, Event.erase]

theorem erases_flush (sink : Sink) (pos : Position) : Erases (flush sink pos) (flush sink .start) := by
  intro m
  have hsink : sink.flushRefusal? m.erase.transcript = sink.flushRefusal? m.transcript :=
    sink.flushRefusal?_congr m.transcript.erase_sameTexts
  unfold flush
  rw [hsink]
  cases sink.flushRefusal? m.transcript with
  | some reason => rfl
  | none => rfl

theorem erases_loop {guard guard' : Run Bool} {body body' : Run Flow} {step step' : Run Unit}
    (hguard : Erases guard guard') (hbody : Erases body body') (hstep : Erases step step') :
    ∀ fuel : Nat, Erases (loop guard body step fuel) (loop guard' body' step' fuel)
  | 0 => erases_pending
  | fuel + 1 => by
    rw [loop, loop]
    refine hguard.bind fun b => ?_
    cases b with
    | false => exact erases_pure _
    | true =>
      refine hbody.bind fun flow => ?_
      cases flow with
      | normal => exact hstep.bind fun _ => erases_loop hguard hbody hstep fuel
      | brk => exact erases_pure _
      | ret v => exact erases_pure _

/-! ## Values and variables -/

theorem erases_coerce (v : Value) (type : Ty) (pos : Position) :
    Erases (coerce v type pos) (coerce v type .start) :=
  erases_orFail _ rfl

theorem erases_arithmetic (result : Except ArithmeticFault Int64) (pos : Position) :
    Erases (arithmetic result pos) (arithmetic result .start) := by
  cases result with
  | ok n => exact erases_pure _
  | error fault => exact erases_fail rfl

theorem erases_binary (op : BinaryOp) (left right : Value) (pos : Position) :
    Erases (binary op left right pos) (binary op left right .start) := by
  unfold binary
  cases left.integer? with
  | none => exact erases_fail rfl
  | some a =>
    cases right.integer? with
    | none => exact erases_fail rfl
    | some b => exact erases_arithmetic _ pos

theorem erases_unary (op : UnaryOp) (v : Value) (pos : Position) :
    Erases (unary op v pos) (unary op v .start) := by
  unfold unary
  cases v.integer? with
  | none => exact erases_fail rfl
  | some a => exact erases_arithmetic _ pos

theorem erases_truth (v : Value) (pos : Position) : Erases (truth v pos) (truth v .start) := by
  unfold truth
  cases v.integer? with
  | none => exact erases_fail rfl
  | some n => exact erases_pure _

theorem erases_print (sink : Sink) (args : List Value) (pos : Position) :
    Erases (print sink args pos) (print sink args .start) := by
  unfold print
  split
  · split
    · exact (erases_write sink _ pos).bind fun _ => erases_pure _
    · exact erases_fail rfl
  · exact erases_fail rfl

theorem erases_readVar (name : String) (pos : Position) :
    Erases (readVar name pos) (readVar name .start) :=
  erases_env.bind fun _ => erases_orFail _ rfl

theorem erases_assignVar (name : String) (v : Value) (pos : Position) :
    Erases (assignVar name v pos) (assignVar name v .start) := by
  refine erases_env.bind fun _ => (erases_orFail _ rfl).bind fun type => ?_
  refine (erases_coerce v type pos).bind fun stored => ?_
  exact (erases_modifyEnv _).bind fun _ => erases_pure _

theorem erases_define (name : String) (type : Ty) (v : Value) :
    Erases (define name type v) (define name type v) :=
  erases_modifyEnv _

/-! ## Expressions -/

/-- The two meanings of calls are counterparts of each other. -/
def CallsErase (call call' : Call) : Prop :=
  ∀ name args pos, Erases (call name args pos) (call' name args .start)

variable {call call' : Call}

mutual

theorem erases_eval (h : CallsErase call call') : ∀ e : Expr, Erases (eval call e) (eval call' e.erase)
  | .literal value pos => by
    rw [Expr.erase, eval, eval]
    exact erases_pure _
  | .var name pos => by
    rw [Expr.erase, eval, eval]
    exact erases_readVar name pos
  | .assign name value pos => by
    rw [Expr.erase, eval, eval]
    exact (erases_eval h value).bind fun v => erases_assignVar name v pos
  | .unary op operand pos => by
    rw [Expr.erase, eval, eval]
    exact (erases_eval h operand).bind fun v => erases_unary op v pos
  | .binary op left right pos => by
    have hleft := erases_eval h left
    have hright := erases_eval h right
    -- the second operand of `&&` and `||` is evaluated only after the first one
    have hsecond := hright.bind fun b => (erases_truth b right.pos).bind fun q =>
      erases_pure (Value.ofBool q)
    rw [← right.pos_erase] at hsecond
    rw [Expr.erase]
    cases op with
    | and =>
      rw [eval, eval, left.pos_erase]
      refine hleft.bind fun a => (erases_truth a _).bind fun p => ?_
      cases p with
      | true => exact hsecond
      | false => exact erases_pure _
    | or =>
      rw [eval, eval, left.pos_erase]
      refine hleft.bind fun a => (erases_truth a _).bind fun p => ?_
      cases p with
      | true => exact erases_pure _
      | false => exact hsecond
    | _ =>
      rw [eval, eval]
      · exact hleft.bind fun a => hright.bind fun b => erases_binary _ a b pos
      all_goals exact fun h => nomatch h
  | .call name args pos => by
    rw [Expr.erase, eval, eval]
    exact (erases_evalAll h args).bind fun vs => h name vs pos

theorem erases_evalAll (h : CallsErase call call') :
    ∀ es : List Expr, Erases (evalAll call es) (evalAll call' (Expr.eraseAll es))
  | [] => by
    rw [Expr.eraseAll, evalAll, evalAll]
    exact erases_pure _
  | e :: es => by
    rw [Expr.eraseAll, evalAll, evalAll]
    exact (erases_eval h e).bind fun v => (erases_evalAll h es).bind fun vs => erases_pure _

end

section Statements

variable (h : CallsErase call call')

include h

theorem erases_condition (e : Expr) : Erases (condition call e) (condition call' e.erase) := by
  unfold condition
  rw [e.pos_erase]
  exact (erases_eval h e).bind fun v => erases_truth v e.pos

theorem erases_guard : ∀ e? : Option Expr, Erases (guard call e?) (guard call' (e?.map Expr.erase))
  | none => erases_pure _
  | some e => erases_condition h e

theorem erases_effect : ∀ e? : Option Expr, Erases (effect call e?) (effect call' (e?.map Expr.erase))
  | none => erases_pure _
  | some e => (erases_eval h e).bind fun _ => erases_pure _

theorem erases_declare (d : VarDecl) : Erases (declare call d) (declare call' d.erase) := by
  cases d with
  | mk type name init pos =>
    cases init with
    | none => exact erases_define name type _
    | some e =>
      refine (erases_eval h e).bind fun v => ?_
      rw [e.pos_erase]
      exact (erases_coerce v type e.pos).bind fun stored => erases_define name type stored

theorem erases_declareAll :
    ∀ ds : List VarDecl, Erases (declareAll call ds) (declareAll call' (ds.map VarDecl.erase))
  | [] => erases_pure _
  | d :: ds => (erases_declare h d).bind fun _ => erases_declareAll ds

theorem erases_forInit :
    ∀ init : Option ForInit, Erases (forInit call init) (forInit call' (init.map ForInit.erase))
  | none => erases_pure _
  | some (.declare d) => erases_declare h d
  | some (.eval e) => (erases_eval h e).bind fun _ => erases_pure _

end Statements

/-! ## Statements -/

theorem startOf?_erase (key : Int64) (groups : List CaseGroup) :
    startOf? key (CaseGroup.eraseAll groups) = startOf? key groups := by
  have hlabel : ∀ g : CaseGroup, g.erase.label = g.label := by
    intro g
    cases g with
    | mk label body pos => rfl
  unfold startOf?
  rw [CaseGroup.eraseAll_eq_map, List.findIdx?_map, List.findIdx?_map]
  simp only [Function.comp_def, hlabel]

mutual

theorem erases_exec (h : CallsErase call call') (fuel : Nat) :
    ∀ s : Stmt, Erases (exec call fuel s) (exec call' fuel s.erase)
  | .declare d => by
    rw [Stmt.erase, exec, exec]
    exact (erases_declare h d).bind fun _ => erases_pure _
  | .eval e pos => by
    rw [Stmt.erase, exec, exec]
    exact (erases_eval h e).bind fun _ => erases_pure _
  | .block body pos => by
    rw [Stmt.erase, exec, exec]
    exact (erases_execAll h fuel body).inScope
  | .branch cond onTrue none pos => by
    rw [Stmt.erase, exec, exec]
    refine (erases_condition h cond).bind fun b => ?_
    cases b with
    | true => exact erases_exec h fuel onTrue
    | false => exact erases_pure _
  | .branch cond onTrue (some onFalse) pos => by
    rw [Stmt.erase, exec, exec]
    refine (erases_condition h cond).bind fun b => ?_
    cases b with
    | true => exact erases_exec h fuel onTrue
    | false => exact erases_exec h fuel onFalse
  | .whileLoop cond body pos => by
    rw [Stmt.erase, exec, exec]
    exact erases_loop (erases_condition h cond) (erases_exec h fuel body) (erases_pure _) fuel
  | .forLoop init cond step body pos => by
    rw [Stmt.erase, exec, exec]
    refine Erases.inScope ((erases_forInit h init).bind fun _ => ?_)
    exact erases_loop (erases_guard h cond) (erases_exec h fuel body) (erases_effect h step) fuel
  | .switch e groups pos => by
    rw [Stmt.erase, exec, exec, e.pos_erase]
    refine (erases_eval h e).bind fun v => ?_
    refine Erases.bind (erases_orFail v.integer? rfl) fun key => ?_
    -- labels are erased to themselves, so both sides enter the same group
    rw [startOf?_erase]
    cases startOf? key groups with
    | none => exact erases_pure _
    | some start => exact erases_execFrom h fuel start groups
  | .ret (some e) pos => by
    rw [Stmt.erase, Option.map_some, exec, exec]
    exact (erases_eval h e).bind fun _ => erases_pure _
  | .ret none pos => by
    rw [Stmt.erase, Option.map_none, exec, exec]
    exact erases_pure _
  | .brk pos => by
    rw [Stmt.erase, exec, exec]
    exact erases_pure _

theorem erases_execAll (h : CallsErase call call') (fuel : Nat) :
    ∀ body : List Stmt, Erases (execAll call fuel body) (execAll call' fuel (Stmt.eraseAll body))
  | [] => by
    rw [Stmt.eraseAll, execAll, execAll]
    exact erases_pure _
  | s :: rest => by
    rw [Stmt.eraseAll, execAll, execAll]
    refine (erases_exec h fuel s).bind fun flow => ?_
    cases flow with
    | normal => exact erases_execAll h fuel rest
    | brk => exact erases_pure _
    | ret v => exact erases_pure _

theorem erases_execFrom (h : CallsErase call call') (fuel : Nat) :
    ∀ (start : Nat) (groups : List CaseGroup),
      Erases (execFrom call fuel start groups) (execFrom call' fuel start (CaseGroup.eraseAll groups))
  | start, [] => by
    rw [CaseGroup.eraseAll]
    cases start <;> exact erases_pure _
  | start + 1, .mk label body pos :: rest => by
    rw [CaseGroup.eraseAll, execFrom, execFrom]
    exact erases_execFrom h fuel start rest
  | 0, .mk label body pos :: rest => by
    rw [CaseGroup.eraseAll, execFrom, execFrom]
    refine (erases_execAll h fuel body).bind fun flow => ?_
    cases flow with
    | normal => exact erases_execFrom h fuel 0 rest
    | brk => exact erases_pure _
    | ret v => exact erases_pure _

end

/-! ## Calls -/

theorem erases_coerceArgs (pos : Position) : ∀ (params : List Param) (args : List Value),
    Erases (coerceArgs pos params args) (coerceArgs .start (params.map Param.erase) args)
  | [], _ => erases_pure _
  | _ :: _, [] => erases_pure _
  | param :: params, v :: args => by
    rw [List.map_cons, coerceArgs, coerceArgs]
    refine (erases_coerce v param.type pos).bind fun stored => ?_
    exact (erases_coerceArgs pos params args).bind fun rest => erases_pure _

theorem erases_bindParams : ∀ (params : List Param) (args : List Value),
    Erases (bindParams params args) (bindParams (params.map Param.erase) args)
  | [], _ => erases_pure _
  | _ :: _, [] => erases_pure _
  | param :: params, v :: args => by
    rw [List.map_cons, bindParams, bindParams]
    exact (erases_define param.name param.type v).bind fun _ => erases_bindParams params args

theorem erases_result (f : FunctionDef) (flow : Flow) (pos : Position) :
    Erases (result f flow pos) (result f.erase flow .start) := by
  have hmissing : Erases (if f.name = mainName then pure (.default f.returns) else
      fail (.missingReturnValue f.name f.pos) : Run Value)
      (if f.name = mainName then pure (.default f.returns) else
        fail (.missingReturnValue f.name .start)) := by
    split
    · exact erases_pure _
    · exact erases_fail rfl
  unfold result
  show Erases (if f.returns = .void then _ else _) (if f.returns = .void then _ else _)
  split
  · exact erases_pure _
  · cases flow with
    | ret v => exact erases_coerce v f.returns pos
    | normal => exact hmissing
    | brk => exact hmissing

end Run

namespace Context

/-- A context without positions. -/
def erase (ctx : Context) : Context :=
  { ctx with functions := ctx.functions.map FunctionDef.erase }

variable (ctx : Context)

theorem function?_erase (name : String) :
    ctx.erase.function? name = (ctx.function? name).map FunctionDef.erase := by
  unfold function? erase
  rw [List.find?_map]
  rfl

theorem erases_dispatch {enter enter' : FunctionDef → List Value → Position → Run Value}
    (h : ∀ f args pos, Run.Erases (enter f args pos) (enter' f.erase args .start)) :
    Run.CallsErase (ctx.dispatch enter) (ctx.erase.dispatch enter') := by
  intro name args pos
  unfold dispatch
  split
  · exact Run.erases_print ctx.sink args pos
  · rw [ctx.function?_erase]
    cases ctx.function? name with
    | none => exact Run.erases_fail rfl
    | some f => exact h f args pos

theorem erases_call : ∀ (fuel : Nat) (f : FunctionDef) (args : List Value) (pos : Position),
    Run.Erases (ctx.call fuel f args pos) (ctx.erase.call fuel f.erase args .start)
  | 0, _, _, _ => Run.erases_pending
  | fuel + 1, f, args, pos => by
    have hparams : f.erase.params.length = f.params.length := List.length_map _
    rw [call, call, hparams]
    refine Run.erases_env.bind fun env => ?_
    show Run.Erases (if ctx.maxDepth ≤ env.depth then _ else _)
      (if ctx.maxDepth ≤ env.depth then _ else _)
    split
    · exact Run.erases_fail rfl
    · split
      · exact Run.erases_fail rfl
      · refine (Run.erases_coerceArgs pos f.params args).bind fun stored => ?_
        refine Run.Erases.bind (Run.Erases.inFrame ?_) fun flow => Run.erases_result f flow pos
        refine Run.erases_env.bind fun env => (Run.erases_record rfl).bind fun _ => ?_
        refine (Run.erases_bindParams f.params stored).bind fun _ => ?_
        exact Run.erases_execAll (ctx.erases_dispatch (erases_call fuel)) (fuel + 1) f.body

theorem erases_calls (fuel : Nat) : Run.CallsErase (ctx.calls fuel) (ctx.erase.calls fuel) :=
  ctx.erases_dispatch (ctx.erases_call fuel)

end Context

/-! ## Whole runs -/

namespace Program

variable (p : Program)

theorem ofProgram_erase (maxDepth : Nat) (sink : Sink) :
    Context.ofProgram p.erase maxDepth sink = (Context.ofProgram p maxDepth sink).erase := by
  unfold Context.ofProgram Context.erase
  rw [functions_erase, List.map_reverse]

theorem erases_callMain (ctx : Context) (fuel : Nat) :
    Run.Erases (p.callMain ctx fuel) (p.erase.callMain ctx.erase fuel) := by
  unfold callMain
  rw [function?_erase]
  cases p.function? mainName with
  | none => exact Run.erases_fail rfl
  | some f =>
    have hparams : f.erase.params.isEmpty = f.params.isEmpty := List.isEmpty_map
    show Run.Erases (if f.params.isEmpty then _ else _) (if f.erase.params.isEmpty then _ else _)
    rw [hparams]
    split
    · refine (ctx.erases_call fuel f [] f.pos).bind fun v => ?_
      exact (Run.erases_record rfl).bind fun _ => Run.erases_flush ctx.sink f.pos
    · exact Run.erases_fail rfl

theorem erases_execute (ctx : Context) (fuel : Nat) :
    Run.Erases (p.execute ctx fuel) (p.erase.execute ctx.erase fuel) := by
  unfold execute
  rw [globals_erase]
  exact (Run.erases_declareAll (ctx.erases_calls fuel) p.globals).bind fun _ =>
    p.erases_callMain ctx fuel

/-- A program without positions runs as the program, positions aside. -/
theorem run_erase (config : Config) (sink : Sink) (fuel : Nat) :
    p.erase.run config sink fuel = (p.run config sink fuel).erase := by
  unfold run
  cases config.refusal? with
  | some reason => rfl
  | none =>
    rw [ofProgram_erase]
    exact p.erases_execute _ fuel .fresh

end Program

end Primer
