import Primer.Proofs.Soundness.Program

/-!
# The static rules under more globals

A piece of a program that keeps the static rules keeps them when more globals are in scope: every name
that it uses still means the same variable, and nothing that it declares stands in the global scope.

- `HasType.mono`: the type of an expression depends on the types of the names in scope only.
- `TypeScopes.widen` puts other globals under the local scopes, and `Stmt.Ok.widen` keeps the rules.
- `FunctionDef.Ok.widen` is the statement for functions.
-/

namespace Primer

variable {sigs : Signatures} {Γ Γ' Γ₁ : TypeScopes}

/-! ## Expressions -/

mutual

/-- An expression keeps its type where all names have the types they had. -/
theorem HasType.mono (h : ∀ n t, Γ.type? n = some t → Γ'.type? n = some t) :
    ∀ {e : Expr} {t : Ty}, HasType sigs Γ e t → HasType sigs Γ' e t
  | _, _, .literal value pos => .literal value pos
  | _, _, .var bound => .var (h _ _ bound)
  | _, _, .assign typed notVoid bound fits => .assign (typed.mono h) notVoid (h _ _ bound) fits
  | _, _, .unary typed integral => .unary (typed.mono h) integral
  | _, _, .binary left right leftIntegral rightIntegral =>
    .binary (left.mono h) (right.mono h) leftIntegral rightIntegral
  | _, _, .print format args => .print (format.mono h) (args.mono h)
  | _, _, .call notPrint declared args fit => .call notPrint declared (args.mono h) fit

theorem HasTypes.mono (h : ∀ n t, Γ.type? n = some t → Γ'.type? n = some t) :
    ∀ {es : List Expr} {ts : List Ty}, HasTypes sigs Γ es ts → HasTypes sigs Γ' es ts
  | _, _, .nil => .nil
  | _, _, .cons typed notVoid rest => .cons (typed.mono h) notVoid (rest.mono h)

end

theorem IsIntegral.mono {e : Expr} (h : ∀ n t, Γ.type? n = some t → Γ'.type? n = some t) :
    IsIntegral sigs Γ e → IsIntegral sigs Γ' e
  | ⟨t, typed, integral⟩ => ⟨t, typed.mono h, integral⟩

theorem Fits.mono {expected : Ty} {e : Expr} (h : ∀ n t, Γ.type? n = some t → Γ'.type? n = some t) :
    Fits sigs Γ expected e → Fits sigs Γ' expected e
  | ⟨t, typed, notVoid, fits⟩ => ⟨t, typed.mono h, notVoid, fits⟩

theorem HasSomeType.mono {e : Expr} (h : ∀ n t, Γ.type? n = some t → Γ'.type? n = some t) :
    HasSomeType sigs Γ e → HasSomeType sigs Γ' e
  | ⟨t, typed⟩ => ⟨t, typed.mono h⟩

/-! ## Local scopes over the globals -/

namespace TypeScopes

variable {g G : TypeScope}

/-- The scopes with `G` in the place of the global one. -/
def widen (G : TypeScope) : TypeScopes → TypeScopes
  | [] => []
  | [_] => [G]
  | scope :: scope' :: outer => scope :: widen G (scope' :: outer)

/-- One or more local scopes over the globals `g`. -/
inductive Local (g : TypeScope) : TypeScopes → Prop where
  | innermost (scope : TypeScope) : Local g [scope, g]
  | scope {Γ : TypeScopes} (scope : TypeScope) (outer : Local g Γ) : Local g (scope :: Γ)

namespace Local

theorem widen_cons (h : Local g Γ) (scope : TypeScope) :
    widen G (scope :: Γ) = scope :: widen G Γ := by
  cases h <;> rfl

/-- Names in scope stay in scope, with their types. -/
theorem type?_widen (h : Local g Γ) (hG : TypeScope.Within g G) (n : String) (t : Ty)
    (hn : Γ.type? n = some t) : (widen G Γ).type? n = some t := by
  induction h with
  | innermost scope =>
    rw [type?_cons, Option.or_eq_some_iff] at hn
    show type? [scope, G] n = some t
    rw [type?_cons, Option.or_eq_some_iff]
    refine hn.imp_right (And.imp_right fun hglobal => ?_)
    have hg : g.lookup n = some t := by simpa [type?] using hglobal
    simpa [type?] using hG n t hg
  | scope scope outer ih =>
    rw [type?_cons, Option.or_eq_some_iff] at hn
    rw [outer.widen_cons, type?_cons, Option.or_eq_some_iff]
    exact hn.imp_right (And.imp_right ih)

theorem freeHere_widen (h : Local g Γ) {n : String} (hn : Γ.FreeHere n) : (widen G Γ).FreeHere n := by
  cases h with
  | innermost scope => exact hn
  | scope scope outer =>
    rw [outer.widen_cons]
    exact hn

theorem declare (h : Local g Γ) (n : String) (t : Ty) : Local g (Γ.declare n t) := by
  cases h with
  | innermost scope => exact .innermost _
  | scope scope outer => exact .scope _ outer

theorem widen_declare (h : Local g Γ) (n : String) (t : Ty) :
    widen G (Γ.declare n t) = (widen G Γ).declare n t := by
  cases h with
  | innermost scope => rfl
  | scope scope outer =>
    rw [outer.widen_cons]
    exact outer.widen_cons _

theorem of_extends (h : Local g Γ) (he : Extends Γ Γ') : Local g Γ' := by
  induction he with
  | refl => exact h
  | declare n t _ ih => exact ih.declare n t

end Local

end TypeScopes

/-! ## Statements -/

section

variable {g G : TypeScope} (hG : TypeScope.Within g G)

include hG

theorem VarDecl.Ok.widen {d : VarDecl} (hΓ : TypeScopes.Local g Γ) (h : d.Ok sigs Γ) :
    d.Ok sigs (Γ.widen G) where
  notVoid := h.notVoid
  free := hΓ.freeHere_widen h.free
  init e he := (h.init e he).mono (hΓ.type?_widen hG)

theorem ForInit.Ok.widen {init : Option ForInit} (hΓ : TypeScopes.Local g Γ)
    (h : ForInit.Ok sigs Γ init Γ₁) : ForInit.Ok sigs (Γ.widen G) init (Γ₁.widen G) := by
  cases h with
  | none => exact .none
  | eval typed => exact .eval (typed.mono (hΓ.type?_widen hG))
  | declare ok =>
    rw [hΓ.widen_declare]
    exact .declare (ok.widen hG hΓ)

end

variable {g G : TypeScope} {returns : Ty}

mutual

/-- A statement keeps the rules under more globals. -/
theorem Stmt.Ok.widen (hG : TypeScope.Within g G) : ∀ {s : Stmt} {inLoop : Bool} {Γ Γ₁ : TypeScopes},
    TypeScopes.Local g Γ → Stmt.Ok sigs returns inLoop Γ s Γ₁ →
      Stmt.Ok sigs returns inLoop (Γ.widen G) s (Γ₁.widen G)
  | _, _, _, _, hΓ, .declare ok => by
    rw [hΓ.widen_declare]
    exact .declare (ok.widen hG hΓ)
  | _, _, _, _, hΓ, .eval typed => .eval (typed.mono (hΓ.type?_widen hG))
  | _, _, _, _, hΓ, .block bodyOk => by
    have hbody := Stmt.ListOk.widen hG (.scope [] hΓ) bodyOk
    rw [hΓ.widen_cons] at hbody
    exact .block hbody
  | _, _, _, _, hΓ, .branch condOk onTrueOk =>
    .branch (condOk.mono (hΓ.type?_widen hG)) (Stmt.Ok.widen hG hΓ onTrueOk)
  | _, _, _, _, hΓ, .branchElse condOk onTrueOk onFalseOk =>
    .branchElse (condOk.mono (hΓ.type?_widen hG)) (Stmt.Ok.widen hG hΓ onTrueOk)
      (Stmt.Ok.widen hG hΓ onFalseOk)
  | _, _, _, _, hΓ, .whileLoop condOk bodyOk =>
    .whileLoop (condOk.mono (hΓ.type?_widen hG)) (Stmt.Ok.widen hG hΓ bodyOk)
  | _, _, _, _, hΓ, .forLoop initOk condOk stepOk bodyOk => by
    -- the header has a scope of its own, in which its declaration stands
    have hheader := (TypeScopes.Local.scope [] hΓ).of_extends initOk.extends
    have hinit := initOk.widen hG (.scope [] hΓ)
    rw [hΓ.widen_cons] at hinit
    refine .forLoop hinit (fun e he => ?_) (fun e he => ?_) (Stmt.Ok.widen hG hheader bodyOk)
    · exact (condOk e he).mono (hheader.type?_widen hG)
    · exact (stepOk e he).mono (hheader.type?_widen hG)
  | _, _, _, _, hΓ, .switch typed integral labelsOk groupsOk =>
    .switch (typed.mono (hΓ.type?_widen hG)) integral labelsOk
      (CaseGroup.ListOk.widen hG hΓ groupsOk)
  | _, _, _, _, hΓ, .ret notVoid fits =>
    .ret notVoid (fits.mono (hΓ.type?_widen hG))
  | _, _, _, _, _, .retVoid isVoid => .retVoid isVoid
  | _, _, _, _, _, .brk => .brk

theorem Stmt.ListOk.widen (hG : TypeScope.Within g G) : ∀ {body : List Stmt} {inLoop : Bool}
    {Γ Γ₁ : TypeScopes}, TypeScopes.Local g Γ → Stmt.ListOk sigs returns inLoop Γ body Γ₁ →
      Stmt.ListOk sigs returns inLoop (Γ.widen G) body (Γ₁.widen G)
  | _, _, _, _, _, .nil => .nil
  | _, _, _, _, hΓ, .cons head tail =>
    .cons (Stmt.Ok.widen hG hΓ head) (Stmt.ListOk.widen hG (hΓ.of_extends head.extends) tail)

theorem CaseGroup.ListOk.widen (hG : TypeScope.Within g G) : ∀ {groups : List CaseGroup}
    {Γ : TypeScopes}, TypeScopes.Local g Γ → CaseGroup.ListOk sigs returns Γ groups →
      CaseGroup.ListOk sigs returns (Γ.widen G) groups
  | _, _, _, .nil => .nil
  | _, _, hΓ, .cons bodyOk tail =>
    .cons (Stmt.ListOk.widen hG hΓ bodyOk) (CaseGroup.ListOk.widen hG hΓ tail)

end

/-- A function may stand behind more globals. -/
theorem FunctionDef.Ok.widen {f : FunctionDef} (hG : TypeScope.Within g G) (h : f.Ok sigs g) :
    f.Ok sigs G where
  notVoid := h.notVoid
  distinct := h.distinct
  body := by
    obtain ⟨Γ, hbody⟩ := h.body
    exact ⟨Γ.widen G, hbody.widen hG (.innermost f.paramScope)⟩
  returns := h.returns

end Primer
