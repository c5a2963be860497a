import Primer.Typing.Statement

/-!
# Checks that only look

Most rules of the checker are computations of two simple kinds. What holds of results and reports, and of
one part after another, then holds of all of them, and a property of the checker is proved for the kind
and not for each rule.

- `Check.Refuses`: the check is put together from results and reports. It does not read the state. Rules
  that compare types are of this kind.
- `Check.Inspects`: it may look names up, too. The checks of expressions are of this kind
  (`Check.expr_inspects`).
-/

namespace Primer

/-- The violation that is reported at the end of a function. -/
def Violation.isMissingReturn : Violation → Bool
  | .missingReturn _ _ => true
  | _ => false

namespace Check

/-! ## Rules about types -/

/-- The check is put together from results and reports. None of the reports is about a missing `return`,
which shows at the end of a function only. -/
inductive Refuses : {α : Type} → Check α → Prop where
  | pure {α : Type} (a : α) : Refuses (Pure.pure a)
  | report {violation : Violation} (other : violation.isMissingReturn = false) (pos : Position) :
    Refuses (report violation pos)
  | bind {α β : Type} {x : Check α} {f : α → Check β} (first : Refuses x) (next : ∀ a, Refuses (f a)) :
    Refuses (x >>= f)

theorem reportIf_refuses (condition : Bool) {violation : Violation}
    (other : violation.isMissingReturn = false) (pos : Position) :
    Refuses (reportIf condition violation pos) := by
  cases condition with
  | true => exact .report other pos
  | false => exact .pure ()

theorem requireValue_refuses (e : Expr) (found : Option Ty) : Refuses (requireValue e found) := by
  unfold requireValue
  split
  · exact .bind (.report rfl e.pos) fun _ => .pure none
  · exact .pure found

theorem requireType_refuses (expected : Ty) (found : Option Ty) (pos : Position) :
    Refuses (requireType expected found pos) := by
  cases found with
  | some found => exact reportIf_refuses _ rfl pos
  | none => exact .pure ()

theorem requireIntegral_refuses (operator : Operator) (operand : Option Ty) (pos : Position) :
    Refuses (requireIntegral operator operand pos) := by
  cases operand with
  | some type => exact reportIf_refuses _ rfl pos
  | none => exact .pure ()

theorem requireTypes_refuses (args : List Expr) (found : List (Option Ty)) (params : List Ty) :
    Refuses (requireTypes args found params) := by
  fun_induction requireTypes args found params with
  | case1 arg args found rest param params ih =>
    exact (requireType_refuses param found arg.pos).bind fun _ => ih
  | case2 => exact .pure ()

theorem requireSignature_refuses (signature : Signature) (name : String) (args : List Expr)
    (found : List (Option Ty)) (pos : Position) :
    Refuses (requireSignature signature name args found pos) := by
  unfold requireSignature
  split
  · exact requireTypes_refuses args found signature.params
  · exact .report rfl pos

theorem labels_refuses (type? : Option Ty) : ∀ (groups : List CaseGroup) (seen : List CaseLabel)
    (hasDefault : Bool), Refuses (labels type? seen hasDefault groups)
  | [], _, _ => by
    rw [labels]
    exact .pure ()
  | .mk none body pos :: groups, seen, hasDefault => by
    rw [labels]
    exact (reportIf_refuses _ rfl pos).bind fun _ => labels_refuses type? groups seen true
  | .mk (some label) body pos :: groups, seen, hasDefault => by
    rw [labels]
    have hrest : Refuses (do
        reportIf (seen.contains label) (.duplicateCase label) pos
        labels type? (label :: seen) hasDefault groups) :=
      (reportIf_refuses _ rfl pos).bind fun _ => labels_refuses type? groups (label :: seen) hasDefault
    cases type? with
    | some type => exact (reportIf_refuses _ rfl pos).bind fun _ => hrest
    | none => exact hrest

/-! ## Expressions -/

/-- The check is put together from rules about types and from uses of variables and functions. -/
inductive Inspects : {α : Type} → Check α → Prop where
  | refuses {α : Type} {x : Check α} (h : Refuses x) : Inspects x
  | resolve (name : String) (pos : Position) : Inspects (resolve name pos)
  | resolveFunction (name : String) (pos : Position) : Inspects (resolveFunction name pos)
  | bind {α β : Type} {x : Check α} {f : α → Check β} (first : Inspects x)
    (next : ∀ a, Inspects (f a)) : Inspects (x >>= f)

variable {α β : Type}

theorem pure_inspects (a : α) : Inspects (pure a) :=
  .refuses (.pure a)

/-- A rule about types in front of the rest. -/
theorem Refuses.andThen {x : Check α} {f : α → Check β} (hx : Refuses x) (hf : ∀ a, Inspects (f a)) :
    Inspects (x >>= f) :=
  .bind (.refuses hx) hf

/-- A part of an expression that is used as a value. -/
theorem Inspects.requireValue {e : Expr} {f : Option Ty → Check β} (he : Inspects (expr e))
    (hf : ∀ found, Inspects (f found)) :
    Inspects (expr e >>= fun type => Check.requireValue e type >>= f) :=
  .bind he fun type => (requireValue_refuses e type).andThen hf

mutual

theorem expr_inspects : ∀ e : Expr, Inspects (expr e)
  | .literal value pos => by
    rw [expr]
    exact pure_inspects _
  | .var name pos => by
    rw [expr]
    exact .resolve name pos
  | .assign name value pos => by
    rw [expr]
    refine (expr_inspects value).requireValue fun found => ?_
    refine .bind (.resolve name pos) fun expected => ?_
    cases expected with
    | some expected => exact (requireType_refuses expected found _).andThen fun _ => pure_inspects _
    | none => exact pure_inspects _
  | .unary op operand pos => by
    rw [expr]
    refine (expr_inspects operand).requireValue fun found => ?_
    exact (requireIntegral_refuses _ found _).andThen fun _ => pure_inspects _
  | .binary op left right pos => by
    rw [expr]
    refine (expr_inspects left).requireValue fun leftType => ?_
    refine (expr_inspects right).requireValue fun rightType => ?_
    refine (requireIntegral_refuses _ leftType _).andThen fun _ => ?_
    exact (requireIntegral_refuses _ rightType _).andThen fun _ => pure_inspects _
  | .call name args pos => by
    rw [expr]
    split
    · exact (printArgs_inspects pos args).bind fun _ => pure_inspects _
    · refine (values_inspects args).bind fun found => ?_
      refine .bind (.resolveFunction name pos) fun signature => ?_
      cases signature with
      | some signature =>
        exact (requireSignature_refuses signature name args found pos).andThen fun _ => pure_inspects _
      | none => exact pure_inspects _

theorem values_inspects : ∀ es : List Expr, Inspects (values es)
  | [] => by
    rw [values]
    exact pure_inspects _
  | e :: es => by
    rw [values]
    refine (expr_inspects e).requireValue fun found => ?_
    exact (values_inspects es).bind fun _ => pure_inspects _

theorem printArgs_inspects (pos : Position) : ∀ es : List Expr, Inspects (printArgs pos es)
  | [] => by
    rw [printArgs]
    exact .refuses (.report rfl pos)
  | format :: rest => by
    rw [printArgs]
    refine (expr_inspects format).requireValue fun found => ?_
    have hrest := (values_inspects rest).bind fun _ => pure_inspects ()
    cases found with
    | some type => exact (reportIf_refuses _ rfl _).andThen fun _ => hrest
    | none => exact hrest

end

theorem value_inspects (e : Expr) : Inspects (value e) :=
  (expr_inspects e).bind fun type => .refuses (requireValue_refuses e type)

theorem condition_inspects (e : Expr) : Inspects (condition e) := by
  refine (value_inspects e).bind fun found => ?_
  cases found with
  | some type => exact .refuses (reportIf_refuses _ rfl _)
  | none => exact pure_inspects _

theorem effect_inspects : ∀ e? : Option Expr, Inspects (effect e?)
  | some e => (expr_inspects e).bind fun _ => pure_inspects _
  | none => pure_inspects _

theorem scrutinee_inspects (e : Expr) : Inspects (scrutinee e) := by
  refine (value_inspects e).bind fun found => ?_
  cases found with
  | some type => exact (reportIf_refuses _ rfl _).andThen fun _ => pure_inspects _
  | none => exact pure_inspects _

end Check

end Primer
