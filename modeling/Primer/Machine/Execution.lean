import Primer.Machine.Outcome
import Primer.Tree.Builtin

/-!
# Execution

Expressions and statements run by recursion on their syntax. What they do not say themselves, the
meaning of a call, is a parameter: `Call` takes a name, the values of the arguments and the position
of the call. Loops repeat their body as often as their fuel allows.

- `Run.eval` evaluates an expression, `Run.exec` executes a statement.
- `Run.loop` is the loop behind both loop statements.
- `Context.call` ties the knot: it runs the body of a function with calls of the same kind and one
  unit of fuel less. Fuel bounds how deeply calls nest and how often each loop is repeated; an
  answer other than `pending` does not depend on it.
-/

namespace Primer

/-- How control leaves a statement. -/
inductive Flow where
  | normal
  | brk
  | ret (value : Value)
  deriving DecidableEq, Repr

/-- The meaning of calls: function name, arguments, position of the call. -/
abbrev Call := String → List Value → Position → Run Value

namespace Run

/-! ## Values -/

/-- The value as a value of type `type`. -/
def coerce (v : Value) (type : Ty) (pos : Position) : Run Value :=
  orFail (v.coerce? type) (.type (.mismatch type v.type) pos)

/-- The result of an operation on integers. -/
def arithmetic (result : Except ArithmeticFault Int64) (pos : Position) : Run Value :=
  match result with
  | .ok n => return .int n
  | .error fault => fail (.arithmetic fault pos)

/-- Applies an infix operator to two values. -/
def binary (op : BinaryOp) (left right : Value) (pos : Position) : Run Value :=
  match left.integer?, right.integer? with
  | some a, some b => arithmetic (op.compute a b) pos
  | _, _ => fail (.type (.operands op left.type right.type) pos)

/-- Applies a prefix operator to a value. -/
def unary (op : UnaryOp) (v : Value) (pos : Position) : Run Value :=
  match v.integer? with
  | some a => arithmetic (op.compute a) pos
  | none => fail (.type (.operand op v.type) pos)

/-- The truth of the value of a condition. -/
def truth (v : Value) (pos : Position) : Run Bool :=
  match v.integer? with
  | some n => return n != 0
  | none => fail (.type (.condition v.type) pos)

/-- Writes formatted text: the first argument is the format, the others are its values. -/
def print (sink : Sink) (args : List Value) (pos : Position) : Run Value :=
  match args with
  | .string fmt :: rest =>
    match format fmt rest with
    | .ok text => do
      write sink text pos
      return .void
    | .error fault => fail (.format fault pos)
  | _ => fail (.type (.printFormat ((args.head?.map Value.type).getD .void)) pos)

/-! ## Variables -/

/-- The value of a variable. -/
def readVar (name : String) (pos : Position) : Run Value := do
  orFail ((← env).value? name) (.unknownVariable name pos)

/-- Assigns to a variable and gives the value it then has. -/
def assignVar (name : String) (v : Value) (pos : Position) : Run Value := do
  let type ← orFail ((← env).type? name) (.unknownVariable name pos)
  let stored ← coerce v type pos
  modifyEnv fun e => e.assign name stored
  return stored

/-- Declares a variable. -/
def define (name : String) (type : Ty) (v : Value) : Run Unit :=
  modifyEnv fun e => e.define name type v

/-! ## Expressions -/

mutual

/-- Evaluates an expression. -/
def eval (call : Call) : Expr → Run Value
  | .literal value _ => return .ofLiteral value
  | .var name pos => readVar name pos
  | .assign name value pos => do
    let v ← eval call value
    -- the variable is looked up last: evaluating the value may have changed it
    assignVar name v pos
  | .unary op operand pos => do
    let v ← eval call operand
    unary op v pos
  | .binary .and left right _ => do
    let a ← eval call left
    -- the right operand is not evaluated where the left one decides
    if ← truth a left.pos then
      let b ← eval call right
      return .ofBool (← truth b right.pos)
    else return .ofBool false
  | .binary .or left right _ => do
    let a ← eval call left
    if ← truth a left.pos then return .ofBool true
    else
      let b ← eval call right
      return .ofBool (← truth b right.pos)
  | .binary op left right pos => do
    let a ← eval call left
    let b ← eval call right
    binary op a b pos
  | .call name args pos => do
    let vs ← evalAll call args
    call name vs pos

/-- Evaluates expressions from left to right. -/
def evalAll (call : Call) : List Expr → Run (List Value)
  | [] => return []
  | e :: es => do
    let v ← eval call e
    let vs ← evalAll call es
    return v :: vs

end

/-- Evaluates a condition. -/
def condition (call : Call) (e : Expr) : Run Bool := do
  let v ← eval call e
  truth v e.pos

/-- Evaluates a condition that may be left out, which then holds. -/
def guard (call : Call) : Option Expr → Run Bool
  | some e => condition call e
  | none => return true

/-- Evaluates an expression for its effect, if it is there. -/
def effect (call : Call) : Option Expr → Run Unit
  | some e => do
    let _ ← eval call e
  | none => return ()

/-! ## Statements -/

/-- Executes a declaration. The initial value is coerced at its own position. -/
def declare (call : Call) (d : VarDecl) : Run Unit := do
  match d.init with
  | some e =>
    let v ← eval call e
    let stored ← coerce v d.type e.pos
    define d.name d.type stored
  | none => define d.name d.type (.default d.type)

/-- Executes the first clause of a `for` header. -/
def forInit (call : Call) : Option ForInit → Run Unit
  | some (.declare decl) => declare call decl
  | some (.eval e) => do
    let _ ← eval call e
  | none => return ()

/-- Repeats `body` and then `step` as long as `guard` holds. -/
def loop (guard : Run Bool) (body : Run Flow) (step : Run Unit) : (fuel : Nat) → Run Flow
  | 0 => pending
  | fuel + 1 => do
    if ← guard then
      match ← body with
      | .normal =>
        step
        loop guard body step fuel
      -- a `break` ends the loop and goes no further
      | .brk => return .normal
      | .ret v => return .ret v
    else return .normal

/-- The number of case groups in front of the one where a switch on `key` starts: the first one with
this constant, or else the first default. -/
def startOf? (key : Int64) (groups : List CaseGroup) : Option Nat :=
  (groups.findIdx? fun g => g.label.map CaseLabel.integer == some key).or
    (groups.findIdx? fun g => g.label.isNone)

/-- The integer that a switch on a value looks for. -/
def switchKey (v : Value) (pos : Position) : Run Int64 :=
  orFail v.integer? (.type (.scrutinee v.type) pos)

mutual

/-- Executes a statement. -/
def exec (call : Call) (fuel : Nat) : Stmt → Run Flow
  | .declare decl => do
    declare call decl
    return .normal
  | .eval e _ => do
    let _ ← eval call e
    return .normal
  | .block body _ => inScope (execAll call fuel body)
  | .branch cond onTrue none _ => do
    if ← condition call cond then exec call fuel onTrue else return .normal
  | .branch cond onTrue (some onFalse) _ => do
    if ← condition call cond then exec call fuel onTrue else exec call fuel onFalse
  | .whileLoop cond body _ => loop (condition call cond) (exec call fuel body) (return ()) fuel
  | .forLoop init cond step body _ => inScope do
    forInit call init
    loop (guard call cond) (exec call fuel body) (effect call step) fuel
  | .switch scrutinee groups _ => do
    let v ← eval call scrutinee
    let key ← switchKey v scrutinee.pos
    match startOf? key groups with
    | some start => execFrom call fuel start groups
    | none => return .normal
  | .ret (some value) _ => do
    let v ← eval call value
    return .ret v
  | .ret none _ => return .ret .void
  | .brk _ => return .brk

/-- Executes statements in order, up to the first that does not end normally. -/
def execAll (call : Call) (fuel : Nat) : List Stmt → Run Flow
  | [] => return .normal
  | s :: rest => do
    match ← exec call fuel s with
    | .normal => execAll call fuel rest
    | .brk => return .brk
    | .ret v => return .ret v

/-- Executes case groups after the first `start` ones, falling through from each to the next. -/
def execFrom (call : Call) (fuel : Nat) : (start : Nat) → List CaseGroup → Run Flow
  | _, [] => return .normal
  | start + 1, _ :: rest => execFrom call fuel start rest
  | 0, .mk _ body _ :: rest => do
    match ← execAll call fuel body with
    | .normal => execFrom call fuel 0 rest
    -- the same for a `break` in a switch
    | .brk => return .normal
    | .ret v => return .ret v

end

/-! ## Calls -/

/-- The arguments of a call as values of the types of the parameters. -/
def coerceArgs (pos : Position) : (params : List Param) → (args : List Value) → Run (List Value)
  | param :: params, v :: args => do
    let stored ← coerce v param.type pos
    let rest ← coerceArgs pos params args
    return stored :: rest
  | _, _ => return []

/-- Declares the parameters of a function. -/
def bindParams : (params : List Param) → (args : List Value) → Run Unit
  | param :: params, v :: args => do
    define param.name param.type v
    bindParams params args
  | _, _ => return ()

/-- The value of a call from the way in which control left the body of the function. -/
def result (f : FunctionDef) (flow : Flow) (pos : Position) : Run Value :=
  -- what such a function returns is dropped
  if f.returns = .void then return .void
  else
    match flow with
    | .ret v => coerce v f.returns pos
    | .normal | .brk =>
      -- no other function may end without a `return`
      if f.name = mainName then return .default f.returns
      else fail (.missingReturnValue f.name f.pos)

end Run

/-- What stays the same during a run. -/
structure Context where
  /-- The functions of the program, the last one first: of two with the same name the later counts. -/
  functions : List FunctionDef
  maxDepth : Nat
  sink : Sink

namespace Context

/-- The function that a call by name means. -/
def function? (ctx : Context) (name : String) : Option FunctionDef :=
  ctx.functions.find? fun f => f.name == name

/-- Calls by name: `print`, or a function of the program that is run by `enter`. -/
def dispatch (ctx : Context) (enter : FunctionDef → List Value → Position → Run Value) : Call :=
  fun name args pos =>
    if name = printName then Run.print ctx.sink args pos
    else
      match ctx.function? name with
      | some f => enter f args pos
      | none => Run.fail (.unknownFunction name pos)

/-- Calls a function. -/
def call (ctx : Context) : (fuel : Nat) → FunctionDef → List Value → Position → Run Value
  | 0, _, _, _ => Run.pending
  | fuel + 1, f, args, pos => do
    -- the limit comes first: no argument is looked at in a call that is too deep
    if ctx.maxDepth ≤ (← Run.env).depth then Run.fail (.stackOverflow ctx.maxDepth pos)
    else if args.length ≠ f.params.length then
      Run.fail (.argumentCount f.name f.params.length args.length pos)
    else
      let stored ← Run.coerceArgs pos f.params args
      let flow ← Run.inFrame do
        Run.record (.called f.name (← Run.env).depth)
        Run.bindParams f.params stored
        -- calls in the body have less fuel; its loops have all of it
        Run.execAll (ctx.dispatch (ctx.call fuel)) (fuel + 1) f.body
      Run.result f flow pos

/-- Calls by name with the given fuel. -/
def calls (ctx : Context) (fuel : Nat) : Call :=
  ctx.dispatch (ctx.call fuel)

end Context

end Primer
