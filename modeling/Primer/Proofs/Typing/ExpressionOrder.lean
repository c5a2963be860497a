import Primer.Proofs.Grammar.Sites
import Primer.Proofs.Typing.Reports

/-!
# Errors in expressions in source order

The checker looks at the parts of an expression in the order of evaluation and reports at some of them
only after others. So errors in an expression may come out of order.

- `Expr.Orderly` lists the places where they could, and says of each that nothing behind it was reported
  before. It is about an expression in the state in which it is checked.
- `Check.ordered_expr` says that the errors come in order if and only if the expression is orderly.
-/

namespace Primer

open Check

/-! ## Rules about one position -/

namespace Check

variable {α β : Type}

/-- The value has a type that is not accepted. -/
def mismatched (expected : Ty) (found : Option Ty) : Bool :=
  found.any fun type => !expected.accepts type

/-- The value has a type that is not an integer. -/
def nonIntegral (found : Option Ty) : Bool :=
  found.any fun type => !type.isIntegral

/-- A rule for the type of a value, if it has one. -/
theorem own_any {pos : Position} {x : Option Ty → Check Unit} {bad : Ty → Bool}
    {violation : Ty → Violation} (hnone : x none = pure ())
    (hsome : ∀ type, x (some type) = reportIf (bad type) (violation type) pos) (found : Option Ty) :
    Own pos (x found) fun _ => found.any bad = true := by
  cases found with
  | none =>
    rw [hnone]
    exact (own_silent (within_pure ())).congr fun _ => iff_of_false id Bool.false_ne_true
  | some type =>
    rw [hsome]
    exact own_reportIf _ _ _

/-- An error, and a result after it. -/
theorem own_report_pure (v : Violation) (pos : Position) (a : α) :
    Own pos (report v pos >>= fun _ => pure a) fun _ => True :=
  (own_report v pos).finish fun _ => within_pure a

theorem own_requireValue (e : Expr) (found : Option Ty) :
    Own e.pos (requireValue e found) fun _ => found = some .void := by
  unfold requireValue
  by_cases hvoid : found = some .void
  · rw [if_pos hvoid]
    exact (own_report_pure _ _ none).congr fun _ => iff_of_true trivial hvoid
  · rw [if_neg hvoid]
    exact (own_silent (within_pure found)).congr fun _ => iff_of_false id hvoid

theorem own_requireType (expected : Ty) (found : Option Ty) (pos : Position) :
    Own pos (requireType expected found pos) fun _ => mismatched expected found = true :=
  own_any (x := fun found => requireType expected found pos) rfl (fun _ => rfl) found

theorem own_requireIntegral (operator : Operator) (found : Option Ty) (pos : Position) :
    Own pos (requireIntegral operator found pos) fun _ => nonIntegral found = true :=
  own_any (x := fun found => requireIntegral operator found pos) rfl (fun _ => rfl) found

/-- An operator that has an integer as its value. -/
theorem own_requireIntegral_pure (operator : Operator) (found : Option Ty) (pos : Position) :
    Own pos (requireIntegral operator found pos >>= fun _ => pure (some Ty.int)) fun _ =>
      nonIntegral found = true :=
  (own_requireIntegral operator found pos).finish fun _ => within_pure _

theorem own_resolve (name : String) (pos : Position) :
    Own pos (resolve name pos) fun c => Checker.symbolOf? c.scopes name = none := by
  refine own_get (R := fun c _ => Checker.symbolOf? c.scopes name = none) fun c => ?_
  cases hsymbol : Checker.symbolOf? c.scopes name with
  | some symbol =>
    exact (own_silent (within_nil fun _ => rfl)).congr fun _ => iff_of_false id (Option.some_ne_none _)
  | none =>
    exact (own_report_pure _ _ none).congr fun _ => iff_of_true trivial rfl

theorem own_resolveFunction (name : String) (pos : Position) :
    Own pos (resolveFunction name pos) fun c => c.functions.lookup name = none := by
  refine own_get (R := fun c _ => c.functions.lookup name = none) fun c => ?_
  cases hsignature : c.functions.lookup name with
  | some signature =>
    exact (own_silent (within_nil fun _ => rfl)).congr fun _ => iff_of_false id (Option.some_ne_none _)
  | none =>
    exact (own_report_pure _ _ none).congr fun _ => iff_of_true trivial rfl

/-! ## Arguments -/

/-- The positions of the arguments whose types are not accepted. -/
def refused : (args : List Expr) → (found : List (Option Ty)) → (params : List Ty) → List Position
  | arg :: args, found :: rest, param :: params =>
    if mismatched param found then arg.pos :: refused args rest params else refused args rest params
  | _, _, _ => []

theorem ordered_requireTypes : ∀ (args : List Expr) (found : List (Option Ty)) (params : List Ty),
    Ordered (Expr.listSites args) (requireTypes args found params) fun _ => True
  | arg :: args, found :: rest, param :: params => by
    have harg := (own_requireType param found arg.pos).ordered.mono arg.pos_sublist_sites
    rw [requireTypes, Expr.listSites]
    exact (harg.bind fun _ => ordered_requireTypes args rest params).congr fun _ _ => and_self_iff
  | [], _, _ => by
    rw [requireTypes]
    · exact ordered_pure ()
    · intros
      contradiction
  | _ :: _, [], _ => ordered_pure ()
  | _ :: _, _ :: _, [] => ordered_pure ()

/-- The types of the arguments are compared after all arguments, so a mismatch must not stand in front of
anything that was reported in them. -/
theorem inFront_requireTypes {x : Check α} {c' : Checker} :
    ∀ (args : List Expr) (found : List (Option Ty)) (params : List Ty) (c : Checker),
      InFront x c' (requireTypes args found params) c ↔
        ∀ pos ∈ refused args found params, x.UpTo c' pos
  | arg :: args, found :: rest, param :: params, c => by
    have harg := own_requireType param found arg.pos
    have hrest := (ordered_requireTypes args rest params).within
    rw [requireTypes, refused, inFront_bind_right harg.within fun _ => hrest, harg.inFront,
      inFront_requireTypes args rest params]
    by_cases hbad : mismatched param found
    · simp [hbad]
    · simp [hbad]
  | [], _, _, _ => by
    simp [requireTypes, refused, inFront_nil (within_pure ())]
  | _ :: _, [], _, _ => by
    simp [requireTypes, refused, inFront_nil (within_pure ())]
  | _ :: _, _ :: _, [], _ => by
    simp [requireTypes, refused, inFront_nil (within_pure ())]

theorem ordered_requireSignature (signature : Signature) (name : String) (args : List Expr)
    (found : List (Option Ty)) (pos : Position) : Ordered (pos :: Expr.listSites args)
      (requireSignature signature name args found pos) fun _ => True := by
  unfold requireSignature
  by_cases hlength : signature.params.length = args.length
  · rw [if_pos hlength]
    exact (ordered_requireTypes args found signature.params).mono (List.sublist_cons_self pos _)
  · rw [if_neg hlength]
    exact (own_report _ pos).ordered.mono (List.singleton_sublist.mpr List.mem_cons_self)

/-- The type that an expression has as a value. -/
def typeAt (e : Expr) (c : Checker) : Option Ty :=
  ((value e).run c).1

/-- Compares the value of an assignment with its target, if this is known. -/
def requireTarget (found : Option Ty) (pos : Position) : (target : Option Ty) → Check (Option Ty)
  | some expected => do
    requireType expected found pos
    return some expected
  | none => return none

/-- Refuses operands of an infix operator that are not integers. -/
def requireOperands (op : BinaryOp) (left right : Expr) (found found' : Option Ty) :
    Check (Option Ty) := do
  requireIntegral (.binary op) found left.pos
  requireIntegral (.binary op) found' right.pos
  return some .int

/-- Compares a call with the signature of its function, if this is known. -/
def requireFunction (name : String) (args : List Expr) (found : List (Option Ty)) (pos : Position) :
    (signature : Option Signature) → Check (Option Ty)
  | some signature => do
    requireSignature signature name args found pos
    return some signature.returns
  | none => return none

/-- Refuses a first argument of `print` that is not a string. -/
def requireFormat (pos : Position) : (found : Option Ty) → Check Unit
  | some type => reportIf (type != .string) (.typeMismatch .string type) pos
  | none => pure ()

/-- Checks the first argument of `print`. -/
def formatArg (e : Expr) : Check Unit :=
  value e >>= requireFormat e.pos

end Check

/-! ## Expressions -/

/-- If the expression has no value, then nothing behind its position was reported before that is. -/
def Expr.VoidSettled (e : Expr) (c : Checker) : Prop :=
  ((expr e).run c).1 = some .void → (expr e).UpTo c e.pos

/-- Nothing behind the position of the expression is reported while it is checked as a value. -/
def Expr.Settled (e : Expr) (c : Checker) : Prop :=
  (value e).UpTo c e.pos

/-- A call that is refused comes in order: its arguments are silent if the function is unknown or takes
another number of them, and nothing behind an argument of a wrong type is reported. -/
def Expr.CallSettled (name : String) (args : List Expr) (c : Checker) : Prop :=
  match ((values args).after c).functions.lookup name with
  | none => (values args).Quiet c
  | some signature =>
    if signature.params.length = args.length then
      ∀ pos ∈ refused args ((values args).run c).1 signature.params, (values args).UpTo c pos
    else (values args).Quiet c

mutual

/-- The errors in an expression come in order. Operators and calls report after their operands, and an
assignment looks at its target after its value. -/
def Expr.Orderly : Expr → Checker → Prop
  | .literal _ _, _ => True
  | .var _ _, _ => True
  | .assign name value pos, c =>
    (value.Orderly c ∧ value.VoidSettled c) ∧
      (Checker.symbolOf? ((Check.value value).after c).scopes name = none → (Check.value value).Quiet c) ∧
      ∀ expected, ((resolve name pos).run ((Check.value value).after c)).1 = some expected →
        mismatched expected (typeAt value c) → value.Settled c
  | .unary _ operand _, c =>
    (operand.Orderly c ∧ operand.VoidSettled c) ∧ (nonIntegral (typeAt operand c) → operand.Settled c)
  | .binary _ left right _, c =>
    (left.Orderly c ∧ left.VoidSettled c) ∧
      (right.Orderly ((value left).after c) ∧ right.VoidSettled ((value left).after c)) ∧
      (nonIntegral (typeAt left c) → left.Settled c ∧ (value right).Quiet ((value left).after c)) ∧
      (nonIntegral (typeAt right ((value left).after c)) → right.Settled ((value left).after c))
  | .call name args _, c =>
    if name = printName then Expr.printOrderly args c
    else Expr.listOrderly args c ∧ Expr.CallSettled name args c

/-- The errors in expressions used as values come in order. -/
def Expr.listOrderly : List Expr → Checker → Prop
  | [], _ => True
  | e :: es, c => (e.Orderly c ∧ e.VoidSettled c) ∧ Expr.listOrderly es ((value e).after c)

/-- The errors in the arguments of `print` come in order. -/
def Expr.printOrderly : List Expr → Checker → Prop
  | [], _ => True
  | e :: es, c =>
    ((e.Orderly c ∧ e.VoidSettled c) ∧ ((typeAt e c).any (· != .string) → e.Settled c)) ∧
      Expr.listOrderly es ((formatArg e).after c)

end

/-- The errors in an expression used as a value come in order. -/
def Expr.ValueOrderly (e : Expr) (c : Checker) : Prop :=
  e.Orderly c ∧ e.VoidSettled c

namespace Check

variable {α : Type} {e left right : Expr}

theorem ordered_value_of (h : Ordered e.sites (expr e) e.Orderly) :
    Ordered e.sites (value e) e.ValueOrderly :=
  h.own e.pos_mem_sites fun found => own_requireValue e found

/-- A rule about the value of an expression. -/
theorem Ordered.rule {P : Checker → Prop} {x : Option Ty → Check Unit} {bad : Ty → Bool}
    {violation : Ty → Violation} (h : Ordered e.sites (value e) P) (hnone : x none = pure ())
    (hsome : ∀ type, x (some type) = reportIf (bad type) (violation type) e.pos) :
    Ordered e.sites (value e >>= x) fun c => P c ∧ ((typeAt e c).any bad → e.Settled c) :=
  h.own e.pos_mem_sites (own_any hnone hsome)

theorem own_requireTarget (found expected : Option Ty) (pos : Position) :
    Own pos (requireTarget found pos expected) fun _ =>
      ∃ type, expected = some type ∧ mismatched type found = true := by
  cases expected with
  | some expected =>
    refine ((own_requireType expected found pos).finish fun _ => within_pure _).congr fun _ => ?_
    simp
  | none => exact (own_silent (within_pure none)).congr fun _ => by simp

theorem ordered_assign (h : Ordered e.sites (value e) e.ValueOrderly) (name : String) (pos : Position) :
    Ordered (pos :: e.sites) (expr (.assign name e pos)) (Expr.assign name e pos).Orderly := by
  -- the check as two parts: the value, and what is reported after it at or behind the target
  have heq : expr (.assign name e pos) =
      value e >>= fun found => resolve name pos >>= requireTarget found e.pos := by
    rw [expr]
    rfl
  have hresolve := own_resolve name pos
  have htail : ∀ found, Ordered (pos :: e.sites) (resolve name pos >>= requireTarget found e.pos)
      fun _ => True := fun found =>
    (hresolve.ordered.bind fun expected =>
      (own_requireTarget found expected e.pos).ordered.mono e.pos_sublist_sites).congr
        fun _ _ => and_self_iff
  rw [heq]
  -- the target stands in front of the value, but it is looked up after it
  refine ((h.mono (List.sublist_cons_self pos _)).late htail).congr fun hs c => ?_
  rw [inFront_bind_right hresolve.within fun expected => (own_requireTarget _ expected _).within,
    hresolve.inFront, (own_requireTarget _ _ _).inFront,
    upTo_iff_quiet h.within (List.pairwise_cons.mp hs).1, Expr.Orderly]
  refine and_congr_right fun _ => and_congr_right fun _ => ?_
  simp only [forall_exists_index, and_imp]
  exact Iff.rfl

theorem ordered_unary (h : Ordered e.sites (value e) e.ValueOrderly) (op : UnaryOp) (pos : Position) :
    Ordered (pos :: e.sites) (expr (.unary op e pos)) (Expr.unary op e pos).Orderly := by
  have heq : expr (.unary op e pos) = value e >>= fun found =>
      requireIntegral (.unary op) found e.pos >>= fun _ => pure (some .int) := by
    rw [expr]
    rfl
  rw [heq]
  have hwhole := h.own e.pos_mem_sites fun found => own_requireIntegral_pure (.unary op) found e.pos
  refine (hwhole.mono (List.sublist_cons_self pos _)).congr fun _ c => ?_
  rw [Expr.Orderly]
  exact Iff.rfl

theorem ordered_requireOperands (op : BinaryOp) (left right : Expr) (found found' : Option Ty) :
    Ordered [left.pos, right.pos] (requireOperands op left right found found') fun _ => True := by
  have hright := own_requireIntegral_pure (.binary op) found' right.pos
  refine ((own_requireIntegral (.binary op) found left.pos).ordered.bind fun _ => hright.ordered).congr ?_
  exact fun _ _ => and_self_iff

theorem inFront_requireOperands {x : Check α} {c c' : Checker} (op : BinaryOp) (left right : Expr)
    (found found' : Option Ty) : InFront x c' (requireOperands op left right found found') c ↔
      (nonIntegral found → x.UpTo c' left.pos) ∧ (nonIntegral found' → x.UpTo c' right.pos) := by
  have hleft := own_requireIntegral (.binary op) found left.pos
  have hright := own_requireIntegral_pure (.binary op) found' right.pos
  unfold requireOperands
  rw [inFront_bind_right hleft.within fun _ => hright.within, hleft.inFront, hright.inFront]

/-- Both operands are checked before the first of them is refused. -/
theorem ordered_binary (hleft : Ordered left.sites (value left) left.ValueOrderly)
    (hright : Ordered right.sites (value right) right.ValueOrderly) (op : BinaryOp) (pos : Position) :
    Ordered (left.sites ++ pos :: right.sites) (expr (.binary op left right pos))
      (Expr.binary op left right pos).Orderly := by
  have heq : expr (.binary op left right pos) = value left >>= fun found =>
      value right >>= fun found' => requireOperands op left right found found' := by
    rw [expr]
    rfl
  have hbehind : right.sites.Sublist (left.sites ++ pos :: right.sites) :=
    (List.sublist_cons_self pos _).trans (List.sublist_append_right _ _)
  have hoperands : ∀ found found', Ordered (left.sites ++ pos :: right.sites)
      (requireOperands op left right found found') fun _ => True := fun found found' =>
    (ordered_requireOperands op left right found found').mono
      (left.pos_sublist_sites.append (right.pos_sublist_sites.cons pos))
  rw [heq]
  refine ((hleft.mono (List.sublist_append_left _ _)).belated fun found =>
    (hright.mono hbehind).late (hoperands found)).congr fun hs c => ?_
  obtain ⟨-, -, hbefore⟩ := List.pairwise_append.mp hs
  have hinner : ∀ p ∈ left.sites, ∀ q ∈ right.sites, p.Before q :=
    fun p hp q hq => hbefore p hp q (List.mem_cons_of_mem pos hq)
  -- errors in the left operand stand in front of the right one, so only the belated ones matter
  have hfirst : InFront (value left) c (value right) ((value left).after c) :=
    inFront_of_before hleft.within hright.within hinner c _
  have hupTo : (value left).UpTo c right.pos :=
    upTo_of_before hleft.within (fun p hp => hinner p hp _ right.pos_mem_sites) c
  have hquiet : ∀ c', (value right).UpTo c' left.pos ↔ (value right).Quiet c' := fun _ =>
    upTo_iff_quiet hright.within (hinner _ left.pos_mem_sites)
  rw [inFront_bind_right hright.within fun found' => (hoperands _ found').within]
  simp only [inFront_requireOperands, hquiet, Expr.Orderly, Expr.ValueOrderly, Expr.Settled, typeAt, after]
  tauto

theorem resolveFunction_value (name : String) (pos : Position) (c : Checker) :
    ((resolveFunction name pos).run c).1 = c.functions.lookup name := by
  unfold resolveFunction
  rw [get_bind_run]
  cases c.functions.lookup name with
  | some signature => rfl
  | none => rfl

theorem ordered_requireFunction (name : String) (args : List Expr) (found : List (Option Ty))
    (pos : Position) (signature : Option Signature) : Ordered (pos :: Expr.listSites args)
      (requireFunction name args found pos signature) fun _ => True := by
  cases signature with
  | some signature =>
    exact (ordered_requireSignature signature name args found pos).finish fun _ => within_pure _
  | none => exact ordered_pure none

theorem inFront_requireFunction {x : Check α} {c c' : Checker} (name : String) (args : List Expr)
    (found : List (Option Ty)) (pos : Position) (signature : Option Signature) :
    InFront x c' (requireFunction name args found pos signature) c ↔
      ∀ known, signature = some known →
        if known.params.length = args.length then ∀ p ∈ refused args found known.params, x.UpTo c' p
        else x.UpTo c' pos := by
  cases signature with
  | none =>
    refine iff_of_true (inFront_nil (within_pure none) _ _) fun _ h => ?_
    exact absurd h.symm (Option.some_ne_none _)
  | some signature =>
    have hfinish : InFront x c' (requireFunction name args found pos (some signature)) c ↔
        InFront x c' (requireSignature signature name args found pos) c := by
      refine (inFront_bind_right (ordered_requireSignature signature name args found pos).within
        fun _ => within_pure (s := []) (some signature.returns)).trans (and_iff_left ?_)
      exact inFront_nil (within_pure _) _ _
    simp only [hfinish, Option.some.injEq, forall_eq']
    unfold requireSignature
    by_cases hlength : signature.params.length = args.length
    · rw [if_pos hlength, if_pos hlength]
      exact inFront_requireTypes args found signature.params c
    · rw [if_neg hlength, if_neg hlength, (own_report _ pos).inFront]
      exact true_imp_iff

/-- The function is looked up and compared with the call after all arguments. -/
theorem ordered_call {args : List Expr}
    (h : Ordered (Expr.listSites args) (values args) (Expr.listOrderly args)) {name : String}
    (hname : name ≠ printName) (pos : Position) : Ordered (pos :: Expr.listSites args)
      (expr (.call name args pos)) (Expr.call name args pos).Orderly := by
  -- the check as two parts: the arguments, and what is reported after them
  have heq : expr (.call name args pos) = values args >>= fun found =>
      resolveFunction name pos >>= requireFunction name args found pos := by
    rw [expr, if_neg hname]
    rfl
  have hfunction := own_resolveFunction name pos
  have htail := fun found => hfunction.within.followed (ordered_requireFunction name args found pos)
  rw [heq]
  refine ((h.mono (List.sublist_cons_self pos _)).late htail).congr fun hs c => ?_
  -- the name of the function stands in front of all sites of the arguments
  have hquiet : (values args).UpTo c pos ↔ (values args).Quiet c :=
    upTo_iff_quiet h.within (List.pairwise_cons.mp hs).1
  rw [inFront_bind_right hfunction.within fun known => (ordered_requireFunction _ _ _ _ known).within,
    hfunction.inFront, inFront_requireFunction, resolveFunction_value, hquiet, Expr.Orderly, if_neg hname,
    Expr.CallSettled]
  refine and_congr_right fun _ => ?_
  cases ((values args).after c).functions.lookup name with
  | none => simp
  | some signature => simp

/-- The first argument of `print` is refused before the others are checked. -/
theorem ordered_print {es : List Expr} (he : Ordered e.sites (value e) e.ValueOrderly)
    (hes : Ordered (Expr.listSites es) (values es) (Expr.listOrderly es)) (pos : Position) :
    Ordered (Expr.listSites (e :: es)) (printArgs pos (e :: es)) (Expr.printOrderly (e :: es)) := by
  have heq : printArgs pos (e :: es) = formatArg e >>= fun _ => values es >>= fun _ => pure () := by
    rw [printArgs]
    show _ = expr e >>= fun found => requireValue e found >>= fun found =>
      requireFormat e.pos found >>= fun _ => values es >>= fun _ => pure ()
    -- `do` notation puts the rest of the check into both branches
    refine congrArg (fun k => expr e >>= fun found => requireValue e found >>= k) (funext fun found => ?_)
    cases found with
    | some type => rfl
    | none => rfl
  have hformat : Ordered e.sites (formatArg e) fun c =>
      e.ValueOrderly c ∧ ((typeAt e c).any (· != .string) → e.Settled c) :=
    he.rule rfl fun _ => rfl
  rw [heq, Expr.listSites]
  refine (hformat.bind fun _ => hes.finish fun _ => within_pure ()).congr fun _ c => ?_
  rw [Expr.printOrderly]
  exact Iff.rfl

mutual

/-- The errors in an expression come in order if and only if it is orderly. -/
theorem ordered_expr : ∀ e : Expr, Ordered e.sites (expr e) e.Orderly
  | .literal literal pos => by
    rw [expr, Expr.sites]
    exact (ordered_pure _).congr fun _ _ => by rw [Expr.Orderly]
  | .var name pos => by
    rw [expr, Expr.sites]
    exact (own_resolve name pos).ordered.congr fun _ _ => by rw [Expr.Orderly]
  | .assign name value pos => by
    rw [Expr.sites]
    exact ordered_assign (ordered_value_of (ordered_expr value)) name pos
  | .unary op operand pos => by
    rw [Expr.sites]
    exact ordered_unary (ordered_value_of (ordered_expr operand)) op pos
  | .binary op left right pos => by
    rw [Expr.sites]
    have hleft := ordered_value_of (ordered_expr left)
    have hright := ordered_value_of (ordered_expr right)
    exact ordered_binary hleft hright op pos
  | .call name args pos => by
    rw [Expr.sites]
    by_cases hname : name = printName
    · rw [expr, if_pos hname]
      refine ((ordered_printArgs pos args).finish fun _ => within_pure _).congr fun _ c => ?_
      rw [Expr.Orderly, if_pos hname]
    · exact ordered_call (ordered_values args) hname pos

theorem ordered_values : ∀ es : List Expr, Ordered (Expr.listSites es) (values es) (Expr.listOrderly es)
  | [] => by
    rw [values]
    exact (ordered_pure _).congr fun _ _ => by rw [Expr.listOrderly]
  | e :: es => by
    have heq : values (e :: es) =
        value e >>= fun found => values es >>= fun rest => pure (found :: rest) := by
      rw [values]
      rfl
    rw [heq, Expr.listSites]
    refine ((ordered_value_of (ordered_expr e)).bind fun found =>
      (ordered_values es).finish fun rest => within_pure _).congr fun _ c => ?_
    rw [Expr.listOrderly]
    exact Iff.rfl

theorem ordered_printArgs (pos : Position) : ∀ es : List Expr,
    Ordered (pos :: Expr.listSites es) (printArgs pos es) (Expr.printOrderly es)
  | [] => by
    rw [printArgs, Expr.listSites]
    exact (own_report _ pos).ordered.congr fun _ _ => by rw [Expr.printOrderly]
  | e :: es =>
    (ordered_print (ordered_value_of (ordered_expr e)) (ordered_values es) pos).mono
      (List.sublist_cons_self pos _)

end

theorem ordered_value (e : Expr) : Ordered e.sites (value e) e.ValueOrderly :=
  ordered_value_of (ordered_expr e)

end Check

end Primer
