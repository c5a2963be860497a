import Primer.Proofs.Machine.Call
import Primer.Proofs.Machine.Environment

/-!
# The values that execution comes across

Whatever a machine stores, it converts to the declared type first; so every variable holds a value of
its type, in programs that were never checked too. And the machine makes up only few values by itself: the
integers it computes, the initial values of variables, and no value at all. Everything else stands in the
program as a constant or is passed in. A set of values that holds what the machine makes up is therefore
never left, if it holds the constants and what is passed in.

- `Expr.literals`, `Stmt.literals`, `Program.literals`: the constants that can be evaluated. The constants
  of case labels are not among them; they are compared with and never stored.
- `Value.Closed` is said of such a set of values, `Machine.Within` of a machine whose variables hold values
  of the set and of their types.
- `Run.Within`: a computation stays within the set. `Run.eval_within` and `Run.exec_within` follow the
  syntax, and `Context.call_within` ties the knot.
-/

namespace Primer

/-! ## Constants -/

mutual

/-- The constants in an expression. -/
def Expr.literals : Expr → List Literal
  | .literal value _ => [value]
  | .var _ _ => []
  | .assign _ value _ => value.literals
  | .unary _ operand _ => operand.literals
  | .binary _ left right _ => left.literals ++ right.literals
  | .call _ args _ => Expr.listLiterals args

/-- The constants in some expressions. -/
def Expr.listLiterals : List Expr → List Literal
  | [] => []
  | e :: es => e.literals ++ Expr.listLiterals es

end

/-- The constants in an expression that may be left out. -/
def Expr.optionLiterals : Option Expr → List Literal
  | none => []
  | some e => e.literals

/-- The constants in a declaration. -/
def VarDecl.literals (d : VarDecl) : List Literal :=
  Expr.optionLiterals d.init

/-- The constants in the first clause of a `for` header. -/
def ForInit.optionLiterals : Option ForInit → List Literal
  | none => []
  | some (.declare d) => d.literals
  | some (.eval e) => e.literals

mutual

/-- The constants in a statement. -/
def Stmt.literals : Stmt → List Literal
  | .declare d => d.literals
  | .eval e _ => e.literals
  | .block body _ => Stmt.listLiterals body
  | .branch cond onTrue none _ => cond.literals ++ onTrue.literals
  | .branch cond onTrue (some onFalse) _ => cond.literals ++ (onTrue.literals ++ onFalse.literals)
  | .whileLoop cond body _ => cond.literals ++ body.literals
  | .forLoop init cond step body _ => ForInit.optionLiterals init ++
      (Expr.optionLiterals cond ++ (Expr.optionLiterals step ++ body.literals))
  | .switch scrutinee groups _ => scrutinee.literals ++ CaseGroup.listLiterals groups
  | .ret value _ => Expr.optionLiterals value
  | .brk _ => []

/-- The constants in some statements. -/
def Stmt.listLiterals : List Stmt → List Literal
  | [] => []
  | s :: rest => s.literals ++ Stmt.listLiterals rest

/-- The constants in the statements of some case groups. -/
def CaseGroup.listLiterals : List CaseGroup → List Literal
  | [] => []
  | .mk _ body _ :: rest => Stmt.listLiterals body ++ CaseGroup.listLiterals rest

end

theorem Stmt.forall_mem_branch_literals {P : Literal → Prop} {e : Expr} {s : Stmt} {s? : Option Stmt}
    {pos : Position} (h : ∀ l ∈ (Stmt.branch e s s? pos).literals, P l) :
    (∀ l ∈ e.literals, P l) ∧ (∀ l ∈ s.literals, P l) ∧ ∀ s' ∈ s?, ∀ l ∈ s'.literals, P l := by
  cases s? with
  | none =>
    rw [Stmt.literals, List.forall_mem_append] at h
    exact ⟨h.1, h.2, fun _ hs' => (nomatch hs')⟩
  | some s' =>
    rw [Stmt.literals, List.forall_mem_append, List.forall_mem_append] at h
    refine ⟨h.1, h.2.1, ?_⟩
    rintro _ ⟨⟩
    exact h.2.2

/-- The constants in the body of a function. -/
def FunctionDef.literals (f : FunctionDef) : List Literal :=
  Stmt.listLiterals f.body

/-- The constants in a program. -/
def Program.literals (p : Program) : List Literal :=
  p.globals.flatMap VarDecl.literals ++ p.functions.flatMap FunctionDef.literals

/-! ## Sets of values -/

/-- The set holds what a machine makes up by itself. -/
structure Value.Closed (V : Value → Prop) : Prop where
  int : ∀ n, V (.int n)
  void : V .void
  initial : ∀ type, V (.default type)

/-- All values are such a set. -/
theorem Value.closed_all : Value.Closed fun _ => True :=
  ⟨fun _ => trivial, trivial, fun _ => trivial⟩

/-- A character is an ASCII character. Other values are not restricted. -/
def Value.Ascii (v : Value) : Prop :=
  ∀ c, v = .char c → c.toNat < 128

instance : DecidablePred Value.Ascii
  | .char c => decidable_of_iff (c.toNat < 128)
      ⟨fun h _ heq => Value.char.inj heq ▸ h, fun h => h c rfl⟩
  | .int _ | .string _ | .void => .isTrue fun _ heq => nomatch heq

theorem Value.closed_ascii : Value.Closed Value.Ascii where
  int n c h := nomatch h
  void c h := nomatch h
  initial type c h := by
    cases type with
    | char =>
      cases h
      decide
    | int | string | void => cases h

/-- A value that is converted stays in the set, and has the type it is converted to. -/
theorem Value.Closed.coerce? {V : Value → Prop} (hV : Closed V) {v stored : Value} {type : Ty} (hv : V v)
    (h : v.coerce? type = some stored) : V stored ∧ stored.type = type := by
  unfold Value.coerce? at h
  split at h
  · cases h
    exact ⟨hV.int _, rfl⟩
  · split at h
    · next htype =>
      cases h
      exact ⟨hv, htype⟩
    · cases h

/-- The variable holds a value of its declared type, from the set. -/
structure Slot.Within (V : Value → Prop) (s : Slot) : Prop where
  typed : s.value.type = s.type
  value : V s.value

/-- Every variable holds a value of its declared type, from the set. -/
def Machine.Within (V : Value → Prop) (m : Machine) : Prop :=
  m.env.All (Slot.Within V)

/-- A value that is returned is in the set. -/
def Flow.Within (V : Value → Prop) (flow : Flow) : Prop :=
  ∀ v, flow = .ret v → V v

variable {α β : Type} {V : Value → Prop} {P : α → Prop} {Q : β → Prop}

/-! ## Computations -/

namespace Run

/-- On a machine within the set the computation gives a value with `P`, or an error, and leaves such a
machine behind. -/
def Within (V : Value → Prop) (P : α → Prop) (x : Run α) : Prop :=
  ∀ m : Machine, m.Within V →
    (x m).Satisfies (fun a m' => P a ∧ m'.Within V) fun _ m' => m'.Within V

theorem value_within {a : α} (ha : P a) : Within V P (pure a) := fun _ hm => ⟨ha, hm⟩

theorem fail_within (e : RuntimeError) : Within V P (fail e) := fun _ hm => hm

theorem orFail_within {a? : Option α} {e : RuntimeError} (h : ∀ a, a? = some a → P a) :
    Within V P (orFail a? e) := by
  cases a? with
  | none => exact fail_within e
  | some a => exact value_within (h a rfl)

theorem Within.imp {P' : α → Prop} {x : Run α} (hx : Within V P x) (h : ∀ a, P a → P' a) :
    Within V P' x :=
  fun m hm => (hx m hm).imp_value fun a _ ⟨ha, hm'⟩ => ⟨h a ha, hm'⟩

theorem Within.bind {x : Run α} {f : α → Run β} (hx : Within V P x) (hf : ∀ a, P a → Within V Q (f a)) :
    Within V Q (x >>= f) :=
  fun m hm => bind_satisfies (hx m hm) fun a m₁ ⟨ha, h₁⟩ => hf a ha m₁ h₁

theorem Within.closing {close : Environment → Environment} {x : Run α} (hx : Within V P x)
    (hclose : ∀ env : Environment, env.All (Slot.Within V) → (close env).All (Slot.Within V)) :
    Within V P (closing close x) :=
  fun m hm => closing_satisfies ((hx m hm).imp (fun _ _ ⟨ha, hm'⟩ => ⟨ha, hclose _ hm'⟩)
    fun _ _ hm' => hclose _ hm')

theorem modifyEnv_within {f : Environment → Environment}
    (h : ∀ env : Environment, env.All (Slot.Within V) → (f env).All (Slot.Within V)) :
    Within V (fun _ => True) (modifyEnv f) :=
  fun m hm => ⟨trivial, h m.env hm⟩

theorem record_within (e : Event) : Within V (fun _ => True) (record e) := fun _ hm => ⟨trivial, hm⟩

theorem Within.inScope {x : Run α} (hx : Within V P x) : Within V P (inScope x) :=
  (modifyEnv_within fun _ henv => henv.pushScope).bind fun _ _ => hx.closing fun _ henv => henv.popScope

theorem write_within (sink : Sink) (text : String) (pos : Position) :
    Within V (fun _ => True) (write sink text pos) := by
  intro m hm
  unfold write
  split
  · exact hm
  · exact ⟨trivial, hm⟩

/-! ## Values and variables -/

theorem truth_within (v : Value) (pos : Position) : Within V (fun _ => True) (truth v pos) := by
  unfold truth
  split
  · exact value_within trivial
  · exact fail_within _

theorem readVar_within (name : String) (pos : Position) : Within V V (readVar name pos) := by
  intro m hm
  rw [readVar, env_bind_apply]
  refine orFail_satisfies (fun v hv => ?_) fun _ => hm
  obtain ⟨s, hs, rfl⟩ := Option.map_eq_some_iff.mp hv
  have hslot : s.Within V := hm.lookup hs
  exact ⟨hslot.value, hm⟩

section Closed

variable (hV : Value.Closed V)

include hV

theorem coerce_within {v : Value} (hv : V v) (type : Ty) (pos : Position) :
    Within V (fun stored => V stored ∧ stored.type = type) (coerce v type pos) :=
  orFail_within fun _ h => hV.coerce? hv h

theorem arithmetic_within (result : Except ArithmeticFault Int64) (pos : Position) :
    Within V V (arithmetic result pos) := by
  cases result with
  | ok n => exact value_within (hV.int n)
  | error fault => exact fail_within _

theorem unary_within (op : UnaryOp) (v : Value) (pos : Position) : Within V V (unary op v pos) := by
  unfold unary
  split
  · exact arithmetic_within hV _ pos
  · exact fail_within _

theorem binary_within (op : BinaryOp) (left right : Value) (pos : Position) :
    Within V V (binary op left right pos) := by
  unfold binary
  split
  · exact arithmetic_within hV _ pos
  · exact fail_within _

theorem ofBool_within (b : Bool) : Within V V (pure (Value.ofBool b) : Run Value) :=
  value_within (hV.int _)

/-- What is assigned was converted to the declared type of the variable before. -/
theorem assignVar_within {v : Value} (hv : V v) (name : String) (pos : Position) :
    Within V V (assignVar name v pos) := by
  intro m hm
  rw [assignVar, env_bind_apply]
  cases hs : m.env.lookup? name with
  | none =>
    rw [bind_error (show orFail (m.env.type? name) _ m = _ by rw [Environment.type?, hs]; rfl)]
    exact hm
  | some s =>
    rw [bind_value (show orFail (m.env.type? name) _ m = _ by rw [Environment.type?, hs]; rfl)]
    cases hstored : v.coerce? s.type with
    | none =>
      rw [bind_error (show coerce v s.type pos m = _ by rw [coerce, hstored]; rfl)]
      exact hm
    | some stored =>
      rw [bind_value (show coerce v s.type pos m = _ by rw [coerce, hstored]; rfl)]
      obtain ⟨hvalue, htype⟩ := hV.coerce? hv hstored
      refine ⟨hvalue, hm.assign fun s' hs' => ⟨?_, hvalue⟩⟩
      -- the slot that is written is the one whose type was asked for
      cases hs.symm.trans hs'
      exact htype

end Closed

theorem define_within {name : String} {type : Ty} {v : Value} (hv : V v ∧ v.type = type) :
    Within V (fun _ => True) (define name type v) :=
  modifyEnv_within fun _ henv => henv.define ⟨hv.2, hv.1⟩

/-! ## Expressions -/

/-- Calls stay within the set, if their arguments are in it. -/
def CallsWithin (V : Value → Prop) (call : Call) : Prop :=
  ∀ name args pos, (∀ v ∈ args, V v) → Within V V (call name args pos)

section Syntax

variable {call : Call}

-- no case of `EvalCongruence`: what is done with the value of a part depends on its being in the set
mutual

/-- An expression whose constants are in the set evaluates to a value of the set. -/
theorem eval_within (hV : Value.Closed V) (hcall : CallsWithin V call) :
    ∀ e : Expr, (∀ l ∈ e.literals, V (.ofLiteral l)) → Within V V (eval call e)
  | .literal value pos, h => by
    rw [eval]
    exact value_within (h value (by simp [Expr.literals]))
  | .var name pos, _ => by
    rw [eval]
    exact readVar_within name pos
  | .assign name value pos, h => by
    rw [eval]
    rw [Expr.literals] at h
    exact (eval_within hV hcall value h).bind fun v hv => assignVar_within hV hv name pos
  | .unary op operand pos, h => by
    rw [eval]
    rw [Expr.literals] at h
    exact (eval_within hV hcall operand h).bind fun v _ => unary_within hV op v pos
  | .binary op left right pos, h => by
    rw [Expr.literals, List.forall_mem_append] at h
    have hleft := eval_within hV hcall left h.1
    have hright := eval_within hV hcall right h.2
    -- the second operand of `&&` and `||` counts as a truth value
    have hsecond : Within V V (eval call right >>= fun b => truth b right.pos >>= fun t =>
        (pure (.ofBool t) : Run Value)) :=
      hright.bind fun b _ => (truth_within b right.pos).bind fun t _ => ofBool_within hV t
    cases op with
    | and =>
      rw [eval]
      refine hleft.bind fun a _ => (truth_within a left.pos).bind fun t _ => ?_
      cases t with
      | true => exact hsecond
      | false => exact ofBool_within hV false
    | or =>
      rw [eval]
      refine hleft.bind fun a _ => (truth_within a left.pos).bind fun t _ => ?_
      cases t with
      | true => exact ofBool_within hV true
      | false => exact hsecond
    | _ =>
      rw [eval]
      · exact hleft.bind fun a _ => hright.bind fun b _ => binary_within hV _ a b pos
      all_goals exact fun h => nomatch h
  | .call name args pos, h => by
    rw [eval]
    rw [Expr.literals] at h
    exact (evalAll_within hV hcall args h).bind fun vs hvs => hcall name vs pos hvs

theorem evalAll_within (hV : Value.Closed V) (hcall : CallsWithin V call) :
    ∀ es : List Expr, (∀ l ∈ Expr.listLiterals es, V (.ofLiteral l)) →
      Within V (fun vs => ∀ v ∈ vs, V v) (evalAll call es)
  | [], _ => by
    rw [evalAll]
    exact value_within fun _ hv => (nomatch hv)
  | e :: es, h => by
    rw [Expr.listLiterals, List.forall_mem_append] at h
    rw [evalAll]
    refine (eval_within hV hcall e h.1).bind fun v hv => ?_
    refine (evalAll_within hV hcall es h.2).bind fun vs hvs => value_within ?_
    exact List.forall_mem_cons.mpr ⟨hv, hvs⟩

end

section

variable (hV : Value.Closed V) (hcall : CallsWithin V call)

include hV hcall

theorem condition_within {e : Expr} (h : ∀ l ∈ e.literals, V (.ofLiteral l)) :
    Within V (fun _ => True) (condition call e) :=
  (eval_within hV hcall e h).bind fun v _ => truth_within v e.pos

theorem guard_within {e? : Option Expr} (h : ∀ l ∈ Expr.optionLiterals e?, V (.ofLiteral l)) :
    Within V (fun _ => True) (guard call e?) := by
  cases e? with
  | none => exact value_within trivial
  | some e => exact condition_within hV hcall h

theorem effect_within {e? : Option Expr} (h : ∀ l ∈ Expr.optionLiterals e?, V (.ofLiteral l)) :
    Within V (fun _ => True) (effect call e?) := by
  cases e? with
  | none => exact value_within trivial
  | some e => exact (eval_within hV hcall e h).bind fun _ _ => value_within trivial

/-! ## Statements -/

theorem declare_within {d : VarDecl} (h : ∀ l ∈ d.literals, V (.ofLiteral l)) :
    Within V (fun _ => True) (declare call d) := by
  unfold declare
  unfold VarDecl.literals at h
  cases hinit : d.init with
  | none => exact define_within ⟨hV.initial d.type, Value.default_type d.type⟩
  | some e =>
    rw [hinit] at h
    refine (eval_within hV hcall e h).bind fun v hv => (coerce_within hV hv d.type e.pos).bind ?_
    exact fun stored hstored => define_within hstored

theorem forInit_within {init : Option ForInit} (h : ∀ l ∈ ForInit.optionLiterals init, V (.ofLiteral l)) :
    Within V (fun _ => True) (forInit call init) := by
  match init with
  | none => exact value_within trivial
  | some (.declare d) => exact declare_within hV hcall h
  | some (.eval e) => exact (eval_within hV hcall e h).bind fun _ _ => value_within trivial

end

theorem loop_within {guard : Run Bool} {body : Run Flow} {step : Run Unit}
    (hguard : Within V (fun _ => True) guard) (hbody : Within V (Flow.Within V) body)
    (hstep : Within V (fun _ => True) step) (fuel : Nat) :
    Within V (Flow.Within V) (loop guard body step fuel) := by
  intro m hm
  refine loop_satisfies (I := Machine.Within V) (fun m hm => ?_) (fun m hm => ?_) fuel m hm
  · refine (hguard m hm).imp_value fun b m' ⟨_, hm'⟩ => ?_
    cases b with
    | true => exact hm'
    | false => exact ⟨fun _ h => (nomatch h), hm'⟩
  · refine (hbody m hm).imp_value fun flow m' ⟨hflow, hm'⟩ => ?_
    cases flow with
    | normal => exact (hstep m' hm').imp_value fun _ _ h => h.2
    | brk => exact ⟨fun _ h => (nomatch h), hm'⟩
    | ret v => exact ⟨hflow, hm'⟩

theorem normal_within : Within V (Flow.Within V) (pure .normal : Run Flow) :=
  value_within fun _ h => (nomatch h)

mutual

/-- A statement whose constants are in the set stores and returns values of the set. -/
theorem exec_within (hV : Value.Closed V) (hcall : CallsWithin V call) (fuel : Nat) :
    ∀ s : Stmt, (∀ l ∈ s.literals, V (.ofLiteral l)) → Within V (Flow.Within V) (exec call fuel s)
  | .declare d, h => by
    rw [Stmt.literals] at h
    rw [exec]
    exact (declare_within hV hcall h).bind fun _ _ => normal_within
  | .eval e pos, h => by
    rw [Stmt.literals] at h
    rw [exec]
    exact (eval_within hV hcall e h).bind fun _ _ => normal_within
  | .block body pos, h => by
    rw [Stmt.literals] at h
    rw [exec]
    exact (execAll_within hV hcall fuel body h).inScope
  | .branch cond onTrue none pos, h => by
    obtain ⟨hcond, hTrue, -⟩ := Stmt.forall_mem_branch_literals h
    rw [exec]
    refine (condition_within hV hcall hcond).bind fun b _ => ?_
    cases b with
    | true => exact exec_within hV hcall fuel onTrue hTrue
    | false => exact normal_within
  | .branch cond onTrue (some onFalse) pos, h => by
    obtain ⟨hcond, hTrue, hFalse⟩ := Stmt.forall_mem_branch_literals h
    rw [exec]
    refine (condition_within hV hcall hcond).bind fun b _ => ?_
    cases b with
    | true => exact exec_within hV hcall fuel onTrue hTrue
    | false => exact exec_within hV hcall fuel onFalse (hFalse onFalse rfl)
  | .whileLoop cond body pos, h => by
    rw [Stmt.literals, List.forall_mem_append] at h
    rw [exec]
    exact loop_within (condition_within hV hcall h.1) (exec_within hV hcall fuel body h.2)
      (value_within trivial) fuel
  | .forLoop init cond step body pos, h => by
    rw [Stmt.literals, List.forall_mem_append, List.forall_mem_append, List.forall_mem_append] at h
    obtain ⟨hinit, hcond, hstep, hbody⟩ := h
    rw [exec]
    refine ((forInit_within hV hcall hinit).bind fun _ _ => ?_).inScope
    exact loop_within (guard_within hV hcall hcond) (exec_within hV hcall fuel body hbody)
      (effect_within hV hcall hstep) fuel
  | .switch e groups pos, h => by
    rw [Stmt.literals, List.forall_mem_append] at h
    rw [exec]
    refine (eval_within hV hcall e h.1).bind fun v _ => ?_
    have hkey : Within V (fun _ => True) (switchKey v e.pos) := orFail_within fun _ _ => trivial
    refine hkey.bind fun key _ => ?_
    cases startOf? key groups with
    | none => exact normal_within
    | some start => exact execFrom_within hV hcall fuel start groups h.2
  | .ret (some e) pos, h => by
    rw [Stmt.literals] at h
    rw [exec]
    refine (eval_within hV hcall e h).bind fun v hv => value_within ?_
    rintro _ ⟨⟩
    exact hv
  | .ret none pos, _ => by
    rw [exec]
    refine value_within ?_
    rintro _ ⟨⟩
    -- a `return` without a value is one of `void`
    exact hV.void
  | .brk pos, _ => by
    rw [exec]
    exact value_within fun _ h => (nomatch h)

theorem execAll_within (hV : Value.Closed V) (hcall : CallsWithin V call) (fuel : Nat) :
    ∀ body : List Stmt, (∀ l ∈ Stmt.listLiterals body, V (.ofLiteral l)) →
      Within V (Flow.Within V) (execAll call fuel body)
  | [], _ => by
    rw [execAll]
    exact normal_within
  | s :: rest, h => by
    rw [Stmt.listLiterals, List.forall_mem_append] at h
    rw [execAll]
    refine (exec_within hV hcall fuel s h.1).bind fun flow hflow => ?_
    cases flow with
    | normal => exact execAll_within hV hcall fuel rest h.2
    | brk => exact value_within hflow
    | ret v => exact value_within hflow

theorem execFrom_within (hV : Value.Closed V) (hcall : CallsWithin V call) (fuel : Nat) :
    ∀ (start : Nat) (groups : List CaseGroup), (∀ l ∈ CaseGroup.listLiterals groups, V (.ofLiteral l)) →
      Within V (Flow.Within V) (execFrom call fuel start groups)
  | start, [], _ => by
    cases start <;> exact normal_within
  | start + 1, .mk _ _ _ :: rest, h => by
    rw [CaseGroup.listLiterals, List.forall_mem_append] at h
    rw [execFrom]
    exact execFrom_within hV hcall fuel start rest h.2
  | 0, .mk label body pos :: rest, h => by
    rw [CaseGroup.listLiterals, List.forall_mem_append] at h
    rw [execFrom]
    refine (execAll_within hV hcall fuel body h.1).bind fun flow hflow => ?_
    cases flow with
    | normal => exact execFrom_within hV hcall fuel 0 rest h.2
    | brk => exact normal_within
    | ret v => exact value_within hflow

end

end Syntax

/-! ## Calls -/

/-- The values are in the set, and each is of the type of its parameter. -/
def Fitting (V : Value → Prop) (params : List Param) (vs : List Value) : Prop :=
  ∀ pair ∈ params.zip vs, V pair.2 ∧ pair.2.type = pair.1.type

theorem coerceArgs_within (hV : Value.Closed V) (pos : Position) :
    ∀ (params : List Param) (args : List Value), (∀ v ∈ args, V v) →
      Within V (Fitting V params) (coerceArgs pos params args)
  | [], _, _ => value_within fun _ h => (nomatch h)
  | _ :: _, [], _ => value_within fun _ h => (nomatch h)
  | param :: params, v :: args, h => by
    obtain ⟨hv, hargs⟩ := List.forall_mem_cons.mp h
    rw [coerceArgs]
    refine (coerce_within hV hv param.type pos).bind fun stored hstored => ?_
    refine (coerceArgs_within hV pos params args hargs).bind fun rest hrest => value_within ?_
    exact List.forall_mem_cons.mpr ⟨hstored, hrest⟩

theorem bindParams_within : ∀ (params : List Param) (args : List Value), Fitting V params args →
    Within V (fun _ => True) (bindParams params args)
  | [], _, _ => value_within trivial
  | _ :: _, [], _ => value_within trivial
  | param :: params, v :: args, h => by
    obtain ⟨hv, hargs⟩ := List.forall_mem_cons.mp h
    rw [bindParams]
    exact (define_within hv).bind fun _ _ => bindParams_within params args hargs

theorem result_within (hV : Value.Closed V) {f : FunctionDef} {flow : Flow} (hflow : flow.Within V)
    (pos : Position) : Within V V (result f flow pos) := by
  unfold result
  split
  · exact value_within hV.void
  · cases flow with
    | ret v => exact (coerce_within hV (hflow v rfl) f.returns pos).imp fun _ h => h.1
    | normal | brk =>
      dsimp only
      split
      · exact value_within (hV.initial f.returns)
      · exact fail_within _

theorem print_within (hV : Value.Closed V) (sink : Sink) (args : List Value) (pos : Position) :
    Within V V (print sink args pos) := by
  unfold print
  split
  · split
    · exact (write_within sink _ pos).bind fun _ _ => value_within hV.void
    · exact fail_within _
  · exact fail_within _

end Run

namespace Context

variable {ctx : Context}

theorem enter_within (hV : Value.Closed V) {args : List Value} (hargs : ∀ v ∈ args, V v) (f : FunctionDef)
    (pos : Position) : Run.Within V (fun _ => True) (ctx.enter f args pos) := by
  intro m hm
  rw [enter, Run.env_bind_apply]
  split
  · exact hm
  · split
    · exact hm
    · have hstored := Run.coerceArgs_within hV pos f.params args hargs
      have hframe : Run.Within V (fun _ => True) (Run.modifyEnv .pushFrame) :=
        Run.modifyEnv_within fun _ henv => henv.pushFrame
      have henv : Run.Within V (fun _ => True) Run.env := fun _ hm => ⟨trivial, hm⟩
      refine (hstored.bind fun stored hfit => hframe.bind fun _ _ => henv.bind fun _ _ => ?_) m hm
      exact (Run.record_within _).bind fun _ _ => Run.bindParams_within f.params stored hfit

/-- The constants of all functions are in the set. -/
def LiteralsIn (V : Value → Prop) (ctx : Context) : Prop :=
  ∀ f ∈ ctx.functions, ∀ l ∈ f.literals, V (.ofLiteral l)

theorem dispatch_within (hV : Value.Closed V)
    {enter : FunctionDef → List Value → Position → Run Value}
    (h : ∀ f ∈ ctx.functions, ∀ args pos, (∀ v ∈ args, V v) → Run.Within V V (enter f args pos)) :
    Run.CallsWithin V (ctx.dispatch enter) := by
  intro name args pos hargs
  unfold dispatch
  split
  · exact Run.print_within hV ctx.sink args pos
  · cases hf : ctx.function? name with
    | none => exact Run.fail_within _
    | some f => exact h f (List.mem_of_find?_eq_some hf) args pos hargs

/-- Calls of functions whose constants are in the set stay within it, with any amount of fuel. -/
theorem call_within (hV : Value.Closed V) (hctx : ctx.LiteralsIn V) :
    ∀ (fuel : Nat) {f : FunctionDef}, (∀ l ∈ f.literals, V (.ofLiteral l)) → ∀ args pos,
      (∀ v ∈ args, V v) → Run.Within V V (ctx.call fuel f args pos) := by
  intro fuel
  induction fuel with
  | zero =>
    intro f _ args pos _ m _
    trivial
  | succ fuel ih =>
    intro f hf args pos hargs
    -- the body calls functions of the program, and with less fuel
    have hcalls : Run.CallsWithin V (ctx.calls fuel) :=
      dispatch_within hV fun g hg args pos hargs => ih (hctx g hg) args pos hargs
    have hbody := Run.execAll_within hV hcalls (fuel + 1) f.body hf
    rw [call_succ]
    refine (enter_within hV hargs f pos).bind fun _ _ => ?_
    exact (hbody.closing fun _ henv => henv.popFrame).bind fun flow hflow =>
      Run.result_within hV hflow pos

theorem calls_within (hV : Value.Closed V) (hctx : ctx.LiteralsIn V) (fuel : Nat) :
    Run.CallsWithin V (ctx.calls fuel) :=
  dispatch_within hV fun _ hf args pos hargs => call_within hV hctx fuel (hctx _ hf) args pos hargs

end Context

end Primer
