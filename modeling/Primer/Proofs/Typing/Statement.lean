import Primer.Proofs.Tree.Shape
import Primer.Proofs.Typing.Expression

/-!
# Accepted statements keep the static rules

Checking a statement without an error means that the statement keeps the rules in the names in scope
before it, and that the names in scope after it are those that the rules say.

The rules let the body of a loop or branch declare nothing, which the checker does not look at: that
much comes from the shape of the tree (`Stmt.Closed`).
-/

namespace Primer

/-- A statement that is no declaration leaves the names in scope as they are. -/
theorem Stmt.Ok.scopes_eq {sigs : Signatures} {returns : Ty} {inLoop : Bool} {Γ Γ' : TypeScopes}
    {s : Stmt} (h : Stmt.Ok sigs returns inLoop Γ s Γ') (hs : s.Closed) : Γ' = Γ := by
  cases h with
  | declare ok => simp [Stmt.Closed] at hs
  | _ => rfl

theorem Stmt.ListOk.scopes_eq {sigs : Signatures} {returns : Ty} {inLoop : Bool} :
    ∀ {body : List Stmt} {Γ Γ' : TypeScopes}, Stmt.ListOk sigs returns inLoop Γ body Γ' →
      Stmt.ListClosed body → Γ' = Γ
  | _, _, _, .nil, _ => rfl
  | _, _, _, .cons head tail, hs => by
    simp only [Stmt.ListClosed] at hs
    exact (tail.scopes_eq hs.2).trans (head.scopes_eq hs.1)

namespace Checker

/-! ## Declarations -/

theorem freeHere_iff (c : Checker) (name : String) :
    c.view.FreeHere name ↔ c.declaresHere name = false := by
  unfold TypeScopes.FreeHere view declaresHere
  cases c.scopes with
  | nil => simp
  | cons scope outer =>
    simp only [List.map_cons, List.head?_cons, Option.mem_some_iff, forall_eq', viewScope_lookup,
      Option.map_eq_none_iff, Option.isSome_eq_false_iff, Option.isNone_iff_eq_none]

theorem declare_of_free {c : Checker} {name : String} (kind : SymbolKind) (type : Ty)
    (pos : Position) (h : c.declaresHere name = false) :
    c.declare name kind type pos =
      (c.addSymbol name kind type (c.scopes.length - 1) c.routine pos).bind name c.symbols.length := by
  simp [declare, h]

theorem declare_step (c : Checker) (name : String) (kind : SymbolKind) (type : Ty)
    (pos : Position) : c.Step (c.declare name kind type pos) := by
  cases h : c.declaresHere name with
  | true =>
    rw [declare, if_pos h]
    exact ⟨List.prefix_append _ _, List.prefix_refl _, rfl, rfl, rfl, rfl, rfl, rfl,
      fun hv => ⟨hv.open_, hv.bound⟩⟩
  | false =>
    rw [declare_of_free kind type pos h]
    unfold bind addSymbol
    cases hs : c.scopes with
    | nil =>
      -- without a scope nothing is bound; a valid state has one
      refine ⟨List.prefix_refl _, by simp, by simp [hs], rfl, rfl, rfl, rfl, rfl, fun hv => ?_⟩
      exact absurd hs hv.open_
    | cons scope outer =>
      refine ⟨List.prefix_refl _, by simp, by simp [hs], rfl, rfl, rfl, rfl, rfl, fun hv => ?_⟩
      refine ⟨by simp, fun scope' hm b hb => ?_⟩
      have hbound := hv.bound
      simp only [hs, List.mem_cons] at hbound hm
      simp only [List.length_append, List.length_singleton]
      rcases hm with rfl | hm
      -- the new symbol has the next number, and the others keep theirs
      · rcases List.mem_cons.mp hb with rfl | hb
        · exact Nat.lt_succ_self _
        · exact Nat.lt_succ_of_lt (hbound scope (.inl rfl) b hb)
      · exact Nat.lt_succ_of_lt (hbound scope' (.inr hm) b hb)

theorem declare_view {c : Checker} (hc : c.Valid) {name : String} (kind : SymbolKind) (type : Ty)
    (pos : Position) (h : c.declaresHere name = false) :
    (c.declare name kind type pos).view = c.view.declare name type := by
  have htypes := (c.declare_step name kind type pos).types
  rw [declare_of_free kind type pos h] at htypes ⊢
  have hbound := hc.bound
  unfold bind addSymbol at htypes ⊢
  cases hs : c.scopes with
  | nil => exact absurd hs hc.open_
  | cons scope outer =>
    simp only [hs, List.mem_cons, forall_eq_or_imp] at htypes hbound
    simp only [view, hs, TypeScopes.declare, List.map_cons]
    refine congrArg₂ List.cons ?_ (List.map_congr_left fun s hm =>
      viewScope_of_types htypes (hbound.2 s hm))
    refine congrArg₂ List.cons ?_ (viewScope_of_types htypes hbound.1)
    simp [typeOf?]

end Checker

namespace Check

/-! ## Values and conditions -/

theorem value_ensures {e : Expr} {c : Checker} (hc : c.Valid) :
    Ensures (value e) c fun r c' =>
      ∃ t, r = some t ∧ HasType c.signatures c.view e t ∧ t ≠ .void ∧ c.Same c' := by
  refine bind_ensures (expr_ensures e hc) fun found c₁ _ => requireValue_ensures.imp ?_
  rintro _ c₂ _ ⟨hvoid, rfl, rfl⟩ ⟨t, rfl, ht, hsame⟩
  exact ⟨t, rfl, ht, by simpa using hvoid, hsame⟩

theorem condition_ensures {e : Expr} {c : Checker} (hc : c.Valid) :
    Ensures (condition e) c fun _ c' => IsIntegral c.signatures c.view e ∧ c.Same c' := by
  refine bind_ensures (value_ensures hc) fun found c₁ _ => ?_
  cases found with
  | none =>
    refine pure_ensures ?_
    rintro ⟨t, ht, -⟩
    cases ht
  | some type =>
    refine reportIf_ensures fun hint => ?_
    rintro ⟨t, ht, htyped, -, hsame⟩
    cases ht
    exact ⟨⟨type, htyped, by simpa using hint⟩, hsame⟩

theorem scrutinee_ensures {e : Expr} {c : Checker} (hc : c.Valid) :
    Ensures (scrutinee e) c fun r c' =>
      ∃ t, r = some t ∧ HasType c.signatures c.view e t ∧ t.isIntegral = true ∧ c.Same c' := by
  refine bind_ensures (value_ensures hc) fun found c₁ _ => ?_
  cases found with
  | none =>
    refine pure_ensures ?_
    rintro ⟨t, ht, -⟩
    cases ht
  | some type =>
    refine bind_ensures (R := fun _ c' => type.isIntegral = true ∧ c' = c₁)
      (reportIf_ensures fun h => ⟨by simpa using h, rfl⟩) fun _ c₂ _ => pure_ensures ?_
    rintro ⟨hint, rfl⟩ ⟨t, ht, htyped, -, hsame⟩
    cases ht
    exact ⟨type, rfl, htyped, hint, hsame⟩

theorem effect_ensures {e? : Option Expr} {c : Checker} (hc : c.Valid) :
    Ensures (effect e?) c fun _ c' =>
      (∀ e ∈ e?, HasSomeType c.signatures c.view e) ∧ c.Same c' := by
  cases e? with
  | none => exact pure_ensures ⟨by simp, Checker.Same.refl c⟩
  | some e =>
    refine bind_ensures (expr_ensures e hc) fun _ c₁ _ => pure_ensures ?_
    rintro ⟨t, -, ht, hsame⟩
    exact ⟨by simpa using ⟨t, ht⟩, hsame⟩

/-! ## Declarations -/

theorem declare_ensures {name : String} {kind : SymbolKind} {type : Ty} {pos : Position}
    {c : Checker} (hc : c.Valid) :
    Ensures (modify fun c => c.declare name kind type pos) c fun _ c' =>
      c.view.FreeHere name ∧ c'.view = c.view.declare name type ∧ c'.function = c.function := by
  refine modify_ensures (Checker.declare_step ..) fun he => ?_
  cases h : c.declaresHere name with
  | true => simp [Checker.declare, h, Checker.report] at he
  | false =>
    refine ⟨(Checker.freeHere_iff c name).mpr h, Checker.declare_view hc kind type pos h, ?_⟩
    rw [Checker.declare_of_free kind type pos h]
    unfold Checker.bind Checker.addSymbol
    cases c.scopes <;> rfl

theorem varDecl_ensures {d : VarDecl} {c : Checker} (hc : c.Valid) :
    Ensures (varDecl d) c fun _ c' => d.Ok c.signatures c.view ∧
      c'.view = c.view.declare d.name d.type ∧ c'.function = c.function := by
  refine bind_ensures (R := fun _ c' => d.type ≠ .void ∧ c' = c)
    (reportIf_ensures fun h => ⟨by simpa using h, rfl⟩) fun _ c₁ s₁ => ?_
  have hc₁ := s₁.valid hc
  cases hinit : d.init with
  | none =>
    refine (declare_ensures hc₁).imp ?_
    rintro _ c₂ _ ⟨hfree, hview, hfun⟩ ⟨hvoid, rfl⟩
    exact ⟨⟨hvoid, hfree, by simp [hinit]⟩, hview, hfun⟩
  | some e =>
    refine bind_ensures (value_ensures hc₁) fun found c₂ s₂ => ?_
    have hc₂ := s₂.valid hc₁
    split
    · refine bind_ensures requireType_ensures fun _ c₃ s₃ =>
        (declare_ensures (s₃.valid hc₂)).imp ?_
      rintro _ c₄ _ ⟨hfree, hview, hfun⟩ ⟨hfits, rfl⟩ ⟨t, rfl, htyped, htvoid, hsame⟩ ⟨hvoid, rfl⟩
      rw [hsame.view] at hfree hview
      refine ⟨⟨hvoid, hfree, ?_⟩, hview, hfun.trans hsame.function⟩
      rintro e' he
      cases hinit.symm.trans he
      exact ⟨t, htyped, htvoid, hfits t rfl⟩
    -- a variable of type `void` was reported
    · next hvoid' =>
      refine (declare_ensures hc₂).imp ?_
      rintro _ c₃ _ - - ⟨hvoid, -⟩
      exact absurd hvoid hvoid'

theorem forInit_ensures {init : Option ForInit} {c : Checker} (hc : c.Valid) :
    Ensures (forInit init) c fun _ c' =>
      ForInit.Ok c.signatures c.view init c'.view ∧ c'.function = c.function := by
  match init with
  | none => exact pure_ensures ⟨.none, rfl⟩
  | some (.declare d) =>
    refine (varDecl_ensures hc).imp ?_
    rintro _ c₁ _ ⟨hok, hview, hfun⟩
    exact ⟨hview ▸ .declare hok, hfun⟩
  | some (.eval e) =>
    refine bind_ensures (expr_ensures e hc) fun _ c₁ _ => pure_ensures ?_
    rintro ⟨t, -, ht, hsame⟩
    exact ⟨by rw [hsame.view]; exact .eval ⟨t, ht⟩, hsame.function⟩

/-! ## Labels and returns -/

/-- A label that fits the scrutinee of its switch. -/
def FitsScrutinee (scrutinee : Option Ty) (label : CaseLabel) : Prop :=
  ∀ t ∈ scrutinee, t.isIntegral = true → label.type = t

theorem labels_ensures {scrutinee : Option Ty} :
    ∀ {groups : List CaseGroup} {seen : List CaseLabel} {hasDefault : Bool} {c : Checker},
      Ensures (labels scrutinee seen hasDefault groups) c fun _ c' =>
        c' = c ∧ (∀ label ∈ groups.filterMap CaseGroup.label,
          FitsScrutinee scrutinee label ∧ label ∉ seen) ∧
        (groups.filterMap CaseGroup.label).Nodup ∧
        (groups.filter fun g => g.label.isNone).length ≤ if hasDefault then 0 else 1
  | [], seen, hasDefault, c => pure_ensures ⟨rfl, by simp, List.nodup_nil, Nat.zero_le _⟩
  | group :: groups, seen, hasDefault, c => by
    rw [labels]
    cases hl : group.label with
    | some label =>
      -- the rest is the same whether or not the scrutinee has a type to compare the label with
      have hrest : ∀ {c₁ : Checker},
          Ensures (do
              reportIf (seen.contains label) (.duplicateCase label) group.pos
              labels scrutinee (label :: seen) hasDefault groups) c₁ fun _ c' =>
            FitsScrutinee scrutinee label ∧ c₁ = c → c' = c ∧
              (∀ label ∈ (group :: groups).filterMap CaseGroup.label,
                FitsScrutinee scrutinee label ∧ label ∉ seen) ∧
              ((group :: groups).filterMap CaseGroup.label).Nodup ∧
              ((group :: groups).filter fun g => g.label.isNone).length ≤
                if hasDefault then 0 else 1 := by
        intro c₁
        refine bind_ensures (R := fun _ c' => label ∉ seen ∧ c' = c₁)
          (reportIf_ensures fun h => ⟨by simpa using h, rfl⟩) fun _ c₂ _ => ?_
        refine labels_ensures.imp ?_
        rintro _ c₃ _ ⟨rfl, htyped, hnodup, hdefault⟩ ⟨hnew, rfl⟩ ⟨ht, rfl⟩
        refine ⟨rfl, ?_, ?_, by simpa [hl] using hdefault⟩
        · simp only [List.filterMap_cons, hl, List.mem_cons, forall_eq_or_imp]
          exact ⟨⟨ht, hnew⟩, fun l hm =>
            ⟨(htyped l hm).1, fun h => (htyped l hm).2 (List.mem_cons_of_mem _ h)⟩⟩
        · simp only [List.filterMap_cons, hl, List.nodup_cons]
          exact ⟨fun h => (htyped label h).2 List.mem_cons_self, hnodup⟩
      cases scrutinee with
      | none => exact hrest.imp fun _ _ _ h => h ⟨fun t ht => (nomatch ht), rfl⟩
      | some type =>
        refine bind_ensures (R := fun _ c' => FitsScrutinee (some type) label ∧ c' = c)
          (reportIf_ensures fun h => ⟨?_, rfl⟩) fun _ c₁ _ => hrest
        rintro t ⟨⟩ hint
        simpa [hint] using h
    | none =>
      refine bind_ensures (R := fun _ c' => hasDefault = false ∧ c' = c)
        (reportIf_ensures fun h => ⟨h, rfl⟩) fun _ c₁ _ => labels_ensures.imp ?_
      rintro _ c₂ _ ⟨rfl, htyped, hnodup, hdefault⟩ ⟨rfl, rfl⟩
      refine ⟨rfl, by simpa [hl] using htyped, by simpa [hl] using hnodup, ?_⟩
      -- this is a default, so no other one may follow
      simp only [if_true, Nat.le_zero_eq] at hdefault
      simp [hl, hdefault]

/-- Notes a reachable `return` with a value. -/
def noteReturn (reachable : Bool) (f : CurrentFunction) : CurrentFunction :=
  { f with hasReturn := f.hasReturn || reachable }

@[simp] theorem map_noteReturn_false (f? : Option CurrentFunction) :
    f?.map (noteReturn false) = f? := by
  cases f? <;> simp [noteReturn]

@[simp] theorem map_noteReturn_map (a b : Bool) (f? : Option CurrentFunction) :
    (f?.map (noteReturn a)).map (noteReturn b) = f?.map (noteReturn (a || b)) := by
  cases f? <;> simp [noteReturn, Bool.or_assoc]

theorem markReturn_ensures {c : Checker} :
    Ensures markReturn c fun _ c' =>
      c'.view = c.view ∧ c'.function = c.function.map (noteReturn true) := by
  refine modify_ensures ⟨List.prefix_refl _, List.prefix_refl _, rfl, rfl, ?_, rfl, rfl, rfl,
    fun h => ⟨h.open_, h.bound⟩⟩ fun _ => ⟨rfl, ?_⟩
  · cases c.function <;> rfl
  · cases c.function <;> simp [noteReturn]

theorem ret_ensures {e? : Option Expr} {pos : Position} {reachable : Bool} {returns : Ty}
    {c : Checker} (hc : c.Valid) (hf : c.function.map CurrentFunction.returns = some returns) :
    Ensures (ret e? pos reachable) c fun _ c' =>
      (∀ inLoop, Stmt.Ok c.signatures returns inLoop c.view (.ret e? pos) c'.view) ∧
        c'.function = c.function.map (noteReturn (reachable && e?.isSome)) := by
  obtain ⟨f, hfun, rfl⟩ := Option.map_eq_some_iff.mp hf
  cases e? with
  | none =>
    refine get_bind_ensures ?_
    rw [hfun]
    refine reportIf_ensures fun h => ⟨fun _ => .retVoid (by simpa using h), ?_⟩
    simp [hfun, noteReturn]
  | some e =>
    refine bind_ensures (value_ensures hc) fun found c₁ s₁ => ?_
    refine get_bind_ensures ?_
    cases hfun₁ : c₁.function with
    | none =>
      -- checking the value does not leave the function
      have := s₁.function
      simp [hfun, hfun₁] at this
    | some f₁ =>
      have hreturns : f₁.returns = f.returns := by
        have := s₁.function
        simp only [hfun, hfun₁, Option.map_some, Option.some_inj, Prod.mk.injEq] at this
        exact this.2
      simp only [hreturns]
      split
      -- a function without a value must not return one
      · exact report_ensures
      · next hvoid =>
        have hok : ∀ {t : Ty}, HasType c.signatures c.view e t → t ≠ .void →
            (∀ u ∈ some t, f.returns.accepts u = true) → ∀ inLoop,
            Stmt.Ok c.signatures f.returns inLoop c.view (.ret (some e) pos) c.view :=
          fun ht htvoid hfits _ => .ret hvoid ⟨_, ht, htvoid, hfits _ rfl⟩
        cases reachable with
        | false =>
          refine requireType_ensures.imp ?_
          rintro _ c₂ _ ⟨hfits, rfl⟩ ⟨t, rfl, htyped, htvoid, hsame⟩
          refine ⟨by rw [hsame.view]; exact hok htyped htvoid hfits, ?_⟩
          rw [hsame.function]
          simp
        | true =>
          refine bind_ensures markReturn_ensures fun _ c₂ _ => requireType_ensures.imp ?_
          rintro _ c₃ _ ⟨hfits, rfl⟩ ⟨hview, hmark⟩ ⟨t, rfl, htyped, htvoid, hsame⟩
          refine ⟨by rw [hview, hsame.view]; exact hok htyped htvoid hfits, ?_⟩
          rw [hmark, hsame.function]
          rfl

/-! ## Statements -/

theorem returns_of_step {c c' : Checker} {returns : Ty} (h : c.Step c')
    (hf : c.function.map CurrentFunction.returns = some returns) :
    c'.function.map CurrentFunction.returns = some returns := by
  have := congrArg (Option.map Prod.snd) h.function
  rw [Option.map_map, Option.map_map] at this
  exact this.trans hf

/-- What is known of a statement after it was checked without an error. -/
structure Accepted (returns : Ty) (reachable : Bool) (c : Checker) (s : Stmt) (exit : Exit)
    (c' : Checker) : Prop where
  ok : Stmt.Ok c.signatures returns (c.breakable != 0) c.view s c'.view
  exit : exit = s.exit
  function : c'.function = c.function.map (noteReturn (reachable && s.returnsValue))

/-- What is known of a statement list after it was checked without an error. -/
structure AcceptedList (returns : Ty) (reachable : Bool) (c : Checker) (body : List Stmt)
    (exit : Exit) (c' : Checker) : Prop where
  ok : Stmt.ListOk c.signatures returns (c.breakable != 0) c.view body c'.view
  exit : exit = Stmt.listExit body
  function : c'.function = c.function.map (noteReturn (reachable && Stmt.listReturnsValue body))

/-- The body of a loop. -/
theorem loopBody_ensures {returns : Ty} {reachable : Bool} {c : Checker} {body : Stmt}
    (hx : Ensures (stmt reachable body) { c with breakable := c.breakable + 1 }
      (Accepted returns reachable { c with breakable := c.breakable + 1 } body))
    (hs : body.Closed) :
    Ensures (insideLoop (stmt reachable body)) c fun _ c' =>
      Stmt.Ok c.signatures returns true c.view body c.view ∧ c'.view = c.view ∧
        c'.function = c.function.map (noteReturn (reachable && body.returnsValue)) := by
  refine insideLoop_ensures (hx.imp ?_)
  rintro exit c₁ _ ⟨hok, -, hfun⟩
  have hview := hok.scopes_eq hs
  rw [hview] at hok
  exact ⟨hok, hview, hfun⟩

mutual

/-- A statement that is checked without an error keeps the rules. -/
theorem stmt_ensures {returns : Ty} : (s : Stmt) → {reachable : Bool} → {c : Checker} → c.Valid →
    c.function.map CurrentFunction.returns = some returns →
    (s.isDeclaration = true ∨ s.Closed) →
    Ensures (stmt reachable s) c (Accepted returns reachable c s)
  | .declare d, reachable, c, hc, hf, _ => by
    refine bind_ensures (varDecl_ensures hc) fun _ c₁ _ => pure_ensures ?_
    rintro ⟨hok, hview, hfun⟩
    exact ⟨hview ▸ .declare hok, rfl, by simpa [Stmt.returnsValue] using hfun⟩
  | .eval e pos, reachable, c, hc, hf, _ => by
    refine bind_ensures (expr_ensures e hc) fun _ c₁ _ => pure_ensures ?_
    rintro ⟨t, -, ht, hsame⟩
    refine ⟨?_, rfl, by simpa [Stmt.returnsValue] using hsame.function⟩
    rw [hsame.view]
    exact .eval ⟨t, ht⟩
  | .block body pos, reachable, c, hc, hf, hs => by
    have hs : Stmt.ListItems body := by simpa [Stmt.isDeclaration, Stmt.Closed] using hs
    have hc' := hc.pushScope
    refine inScope_ensures ((stmts_ensures body hc' hf hs).imp ?_)
    rintro exit c₁ s₁ ⟨hok, hexit, hfun⟩
    refine ⟨?_, by rw [hexit, Stmt.exit], by rw [Stmt.returnsValue]; exact hfun⟩
    rw [c₁.popScope_view, s₁.view_tail hc']
    exact .block hok
  | .branch cond onTrue none pos, reachable, c, hc, hf, hs => by
    have hs : onTrue.Closed := by simpa [Stmt.isDeclaration, Stmt.Closed] using hs
    refine bind_ensures (condition_ensures hc) fun _ c₁ s₁ => ?_
    refine bind_ensures (stmt_ensures onTrue (s₁.valid hc) (returns_of_step s₁ hf) (.inr hs))
      fun _ c₂ _ => pure_ensures ?_
    rintro ⟨hok, -, hfun⟩ ⟨hcond, hsame⟩
    have hview := hok.scopes_eq hs
    rw [hview, hsame.view, s₁.signatures, s₁.breakable] at hok
    refine ⟨?_, rfl, by simpa [Stmt.returnsValue, hsame.function] using hfun⟩
    rw [hview, hsame.view]
    exact .branch hcond hok
  | .branch cond onTrue (some onFalse) pos, reachable, c, hc, hf, hs => by
    have hs : onTrue.Closed ∧ onFalse.Closed := by
      simpa [Stmt.isDeclaration, Stmt.Closed] using hs
    refine bind_ensures (condition_ensures hc) fun _ c₁ s₁ => ?_
    refine bind_ensures (stmt_ensures onTrue (s₁.valid hc) (returns_of_step s₁ hf) (.inr hs.1))
      fun _ c₂ s₂ => ?_
    have s₁₂ := s₁.trans s₂
    refine bind_ensures (stmt_ensures onFalse (s₁₂.valid hc) (returns_of_step s₁₂ hf) (.inr hs.2))
      fun _ c₃ _ => pure_ensures ?_
    rintro ⟨hok', hexit', hfun'⟩ ⟨hok, hexit, hfun⟩ ⟨hcond, hsame⟩
    have hview := hok.scopes_eq hs.1
    have hview' := hok'.scopes_eq hs.2
    rw [hview, hsame.view, s₁.signatures, s₁.breakable] at hok
    rw [hview', hview, hsame.view, s₁₂.signatures, s₁₂.breakable] at hok'
    refine ⟨?_, by rw [hexit, hexit', Stmt.exit], ?_⟩
    · rw [hview', hview, hsame.view]
      exact .branchElse hcond hok hok'
    · rw [hfun', hfun, hsame.function, map_noteReturn_map, Stmt.returnsValue, Bool.and_or_distrib_left]
  | .whileLoop cond body pos, reachable, c, hc, hf, hs => by
    have hs : body.Closed := by simpa [Stmt.isDeclaration, Stmt.Closed] using hs
    refine bind_ensures (condition_ensures hc) fun _ c₁ s₁ => ?_
    have hc₁ := s₁.valid hc
    have hf₁ := returns_of_step s₁ hf
    refine bind_ensures (loopBody_ensures (stmt_ensures body ⟨hc₁.open_, hc₁.bound⟩ hf₁ (.inr hs))
      hs) fun _ c₂ _ => pure_ensures ?_
    rintro ⟨hok, hview, hfun⟩ ⟨hcond, hsame⟩
    rw [hsame.view, s₁.signatures] at hok
    refine ⟨?_, rfl, by rw [hfun, hsame.function, Stmt.returnsValue]⟩
    rw [hview, hsame.view]
    exact .whileLoop hcond hok
  | .forLoop init cond step body pos, reachable, c, hc, hf, hs => by
    have hs : body.Closed := by simpa [Stmt.isDeclaration, Stmt.Closed] using hs
    have hc' := hc.pushScope
    refine inScope_ensures (bind_ensures (forInit_ensures hc') fun _ c₁ s₁ => ?_)
    have hc₁ := s₁.valid hc'
    -- the clauses after the condition are checked alike whether or not there is a condition
    have hrest : ∀ {c₂ : Checker}, c₁.Step c₂ →
        Ensures (do effect step; let _ ← insideLoop (stmt reachable body); return Exit.continues) c₂
          fun exit c' => ((∀ e ∈ cond, IsIntegral c₁.signatures c₁.view e) ∧ c₁.Same c₂) →
            ForInit.Ok c.pushScope.signatures c.pushScope.view init c₁.view ∧
              c₁.function = c.pushScope.function →
            Accepted returns reachable c (.forLoop init cond step body pos) exit c'.popScope := by
      intro c₂ s₂
      have hc₂ := s₂.valid hc₁
      refine bind_ensures (effect_ensures hc₂) fun _ c₃ s₃ => ?_
      have hc₃ := s₃.valid hc₂
      have s₁₃ := (s₁.trans s₂).trans s₃
      have hf₃ := returns_of_step s₁₃ hf
      refine bind_ensures (loopBody_ensures (stmt_ensures body ⟨hc₃.open_, hc₃.bound⟩ hf₃
        (.inr hs)) hs) fun _ c₄ s₄ => pure_ensures ?_
      rintro ⟨hok, hview, hfun⟩ ⟨hstep, hsame'⟩ ⟨hcond, hsame⟩ ⟨hinit, hfun₁⟩
      rw [hsame'.view, hsame.view, s₁₃.signatures] at hok
      rw [hsame.view, (s₁.trans s₂).signatures] at hstep
      rw [s₁.signatures] at hcond
      refine ⟨?_, rfl, ?_⟩
      · rw [c₄.popScope_view, (s₁₃.trans s₄).view_tail hc']
        exact .forLoop hinit hcond hstep hok
      · show c₄.function = _
        rw [hfun, hsame'.function, hsame.function, hfun₁, Stmt.returnsValue]
        rfl
    cases cond with
    | none =>
      refine (hrest (Checker.Step.refl c₁)).imp fun _ _ _ h => h ⟨by simp, Checker.Same.refl c₁⟩
    | some e =>
      refine bind_ensures (condition_ensures hc₁) fun _ c₂ s₂ => (hrest s₂).imp fun _ _ _ h hcond => ?_
      exact h ⟨by simpa using hcond.1, hcond.2⟩
  | .switch e cases pos, reachable, c, hc, hf, hs => by
    have hs : CaseGroup.ListClosed cases := by simpa [Stmt.isDeclaration, Stmt.Closed] using hs
    refine bind_ensures (scrutinee_ensures hc) fun type? c₁ s₁ => ?_
    refine bind_ensures labels_ensures fun _ c₂ s₂ => ?_
    have s₁₂ := s₁.trans s₂
    have hc₂ := s₁₂.valid hc
    have hf₂ := returns_of_step s₁₂ hf
    refine bind_ensures (insideLoop_ensures (Q := fun _ c' =>
      CaseGroup.ListOk c₂.signatures returns c₂.view cases ∧ c'.view = c₂.view ∧
        c'.function = c₂.function.map (noteReturn (reachable && CaseGroup.listReturnsValue cases)))
      (groups_ensures cases ⟨hc₂.open_, hc₂.bound⟩ hf₂ rfl hs)) fun _ c₃ _ => pure_ensures ?_
    rintro ⟨hok, hview, hfun⟩ ⟨rfl, htyped, hnodup, hdefault⟩ ⟨t, rfl, hscrut, hint, hsame⟩
    rw [hsame.view, s₁.signatures] at hok
    refine ⟨?_, rfl, by rw [hfun, hsame.function, Stmt.returnsValue]⟩
    rw [hview, hsame.view]
    exact .switch hscrut hint
      ⟨fun label h => (htyped label h).1 t rfl hint, hnodup, hdefault⟩ hok
  | .ret e? pos, reachable, c, hc, hf, _ => by
    refine bind_ensures (ret_ensures hc hf) fun _ c₁ _ => pure_ensures ?_
    rintro ⟨hok, hfun⟩
    refine ⟨hok _, rfl, ?_⟩
    cases e? <;> exact hfun
  | .brk pos, reachable, c, hc, hf, _ => by
    refine get_bind_ensures ?_
    refine bind_ensures (R := fun _ c' => (c.breakable != 0) = true ∧ c' = c)
      (reportIf_ensures fun h => ⟨by simpa using h, rfl⟩) fun _ c₁ _ => pure_ensures ?_
    rintro ⟨hloop, rfl⟩
    exact ⟨by rw [hloop]; exact .brk, rfl, by simp [Stmt.returnsValue]⟩

/-- The same for statement lists. -/
theorem stmts_ensures {returns : Ty} : (body : List Stmt) → {reachable : Bool} → {c : Checker} →
    c.Valid → c.function.map CurrentFunction.returns = some returns → Stmt.ListItems body →
    Ensures (stmts reachable body) c (AcceptedList returns reachable c body)
  | [], reachable, c, hc, hf, _ => by
    exact pure_ensures ⟨.nil, rfl, by simp [Stmt.listReturnsValue]⟩
  | s :: rest, reachable, c, hc, hf, hs => by
    have hs : (s.isDeclaration = true ∨ s.Closed) ∧ Stmt.ListItems rest := by
      simpa only [Stmt.ListItems] using hs
    refine bind_ensures (stmt_ensures s hc hf hs.1) fun first c₁ s₁ => ?_
    refine bind_ensures (stmts_ensures rest (s₁.valid hc) (returns_of_step s₁ hf) hs.2)
      fun others c₂ _ => pure_ensures ?_
    rintro ⟨hok', rfl, hfun'⟩ ⟨hok, rfl, hfun⟩
    rw [s₁.signatures, s₁.breakable] at hok'
    refine ⟨.cons hok hok', rfl, ?_⟩
    rw [hfun', hfun, map_noteReturn_map, Stmt.listReturnsValue, Bool.and_or_distrib_left, Bool.and_assoc]

/-- The same for case groups. -/
theorem groups_ensures {returns : Ty} : (cases : List CaseGroup) → {reachable : Bool} →
    {c : Checker} → c.Valid → c.function.map CurrentFunction.returns = some returns →
    (c.breakable != 0) = true → CaseGroup.ListClosed cases →
    Ensures (groups reachable cases) c fun _ c' =>
      CaseGroup.ListOk c.signatures returns c.view cases ∧ c'.view = c.view ∧
        c'.function = c.function.map (noteReturn (reachable && CaseGroup.listReturnsValue cases))
  | [], reachable, c, hc, hf, _, _ =>
    pure_ensures ⟨.nil, rfl, by simp [CaseGroup.listReturnsValue]⟩
  | .mk label body pos :: rest, reachable, c, hc, hf, hb, hs => by
    have hs : Stmt.ListClosed body ∧ CaseGroup.ListClosed rest := by
      simpa only [CaseGroup.ListClosed] using hs
    refine bind_ensures (stmts_ensures body hc hf hs.1.items) fun _ c₁ s₁ => ?_
    refine (groups_ensures rest (s₁.valid hc) (returns_of_step s₁ hf) (by rw [s₁.breakable, hb])
      hs.2).imp ?_
    rintro _ c₂ _ ⟨hok', hview', hfun'⟩ ⟨hok, -, hfun⟩
    -- groups hold no declarations of their own, so all of them are checked with the same names in scope
    have hview := hok.scopes_eq hs.1
    rw [hview, hb] at hok
    rw [hview, s₁.signatures] at hok'
    refine ⟨.cons hok hok', hview'.trans hview, ?_⟩
    rw [hfun', hfun, map_noteReturn_map, CaseGroup.listReturnsValue, Bool.and_or_distrib_left]

end

end Check

end Primer
