import Primer.Proofs.Typing.Program

/-!
# What keeps the static rules is accepted

The converse of the statements about accepted programs: checking something that keeps the rules, in
the names in scope that the rules start from, reports nothing, gives the type or exit that the rules
give, and ends with the names in scope that the rules end with.

- `Check.Accepts` describes a computation that reports nothing; `Check.bind_accepts` composes such
  descriptions.
- `Check.expr_accepts`, `Check.stmt_accepts` follow the rules, one case for each.
- `Program.check_of_ok` is the statement about whole programs.
-/

namespace Primer

namespace Check

variable {α β : Type}

/-- The computation takes a step without reporting an error, and `Q` holds after it. -/
def Accepts (x : Check α) (c : Checker) (Q : α → Checker → Prop) : Prop :=
  c.Step (x.run c).2 ∧ (x.run c).2.errors = c.errors ∧ Q (x.run c).1 (x.run c).2

theorem Accepts.imp {x : Check α} {c : Checker} {Q Q' : α → Checker → Prop} (h : Accepts x c Q)
    (hQ : ∀ a c', c.Step c' → Q a c' → Q' a c') : Accepts x c Q' :=
  ⟨h.1, h.2.1, hQ _ _ h.1 h.2.2⟩

theorem pure_accepts {a : α} {c : Checker} {Q : α → Checker → Prop} (h : Q a c) :
    Accepts (pure a) c Q :=
  ⟨Checker.Step.refl c, rfl, h⟩

/-- Two computations in a row. -/
theorem bind_accepts {x : Check α} {f : α → Check β} {c : Checker} {R : α → Checker → Prop}
    {Q : β → Checker → Prop} (hx : Accepts x c R)
    (hf : ∀ a c', c.Step c' → R a c' → Accepts (f a) c' Q) : Accepts (x >>= f) c Q := by
  obtain ⟨hs, he, hR⟩ := hx
  obtain ⟨hs', he', hQ⟩ := hf _ _ hs hR
  exact ⟨hs.trans hs', he'.trans he, hQ⟩

theorem get_bind_accepts {f : Checker → Check β} {c : Checker} {Q : β → Checker → Prop}
    (h : Accepts (f c) c Q) : Accepts (get >>= f) c Q :=
  h

theorem modify_accepts {f : Checker → Checker} {c : Checker} {Q : Unit → Checker → Prop}
    (hs : c.Step (f c)) (he : (f c).errors = c.errors) (h : Q () (f c)) :
    Accepts (modify f) c Q :=
  ⟨hs, he, h⟩

theorem reportIf_accepts {condition : Bool} {violation : Violation} {pos : Position} {c : Checker}
    (h : condition = false) : Accepts (reportIf condition violation pos) c fun _ c' => c' = c := by
  subst h
  exact pure_accepts rfl

theorem inScope_accepts {x : Check α} {c : Checker} {Q : α → Checker → Prop}
    (hx : Accepts x c.pushScope fun a c' => Q a c'.popScope) : Accepts (inScope x) c Q :=
  ⟨(inScope_ensures (Q := fun _ _ => True) ⟨hx.1, fun _ => trivial⟩).1, hx.2⟩

theorem insideLoop_accepts {x : Check α} {c : Checker} {Q : α → Checker → Prop}
    (hx : Accepts x { c with breakable := c.breakable + 1 }
      fun a c' => Q a { c' with breakable := c'.breakable - 1 }) :
    Accepts (insideLoop x) c Q :=
  ⟨(insideLoop_ensures (Q := fun _ _ => True) ⟨hx.1, fun _ => trivial⟩).1, hx.2⟩

/-! ## Names and requirements -/

theorem resolve_accepts {name : String} {pos : Position} {c : Checker} (hc : c.Valid) {t : Ty}
    (h : c.view.type? name = some t) :
    Accepts (resolve name pos) c fun r c' => r = some t ∧ c.Same c' := by
  rw [Checker.view_type? hc] at h
  obtain ⟨symbol, hs, ht⟩ := Option.bind_eq_some_iff.mp h
  refine get_bind_accepts ?_
  rw [hs]
  exact bind_accepts (modify_accepts (Checker.recordUse_step ..) rfl (Checker.recordUse_same ..))
    fun _ c₁ _ hsame => pure_accepts ⟨ht, hsame⟩

theorem resolveFunction_accepts {name : String} {pos : Position} {c : Checker} {f : FunctionType}
    (h : c.signatures name = some f) :
    Accepts (resolveFunction name pos) c fun r c' =>
      ∃ s, r = some s ∧ s.params = f.params ∧ s.returns = f.returns ∧ c.Same c' := by
  obtain ⟨s, hs, rfl⟩ := Option.map_eq_some_iff.mp h
  refine get_bind_accepts ?_
  rw [hs]
  exact bind_accepts (modify_accepts (Checker.recordUse_step ..) rfl (Checker.recordUse_same ..))
    fun _ c₁ _ hsame => pure_accepts ⟨s, rfl, rfl, rfl, hsame⟩

theorem requireValue_accepts {e : Expr} {t : Ty} {c : Checker} (h : t ≠ .void) :
    Accepts (requireValue e (some t)) c fun r c' => r = some t ∧ c' = c := by
  unfold requireValue
  rw [if_neg (by simpa using h)]
  exact pure_accepts ⟨rfl, rfl⟩

theorem requireType_accepts {expected found : Ty} {pos : Position} {c : Checker}
    (h : expected.accepts found = true) :
    Accepts (requireType expected (some found) pos) c fun _ c' => c' = c :=
  reportIf_accepts (by rw [h]; rfl)

theorem requireIntegral_accepts {operator : Operator} {t : Ty} {pos : Position} {c : Checker}
    (h : t.isIntegral = true) :
    Accepts (requireIntegral operator (some t) pos) c fun _ c' => c' = c :=
  reportIf_accepts (by rw [h]; rfl)

theorem requireTypes_accepts : ∀ {args : List Expr} {ts params : List Ty} {c : Checker},
    List.Forall₂ (fun param t => Ty.accepts param t = true) params ts →
    Accepts (requireTypes args (ts.map some) params) c fun _ c' => c' = c
  | [], _, _, c, _ => pure_accepts rfl
  | _ :: _, [], [], c, .nil => pure_accepts rfl
  | arg :: args, t :: ts, param :: params, c, .cons fits rest => by
    refine bind_accepts (requireType_accepts fits) fun _ c₁ _ h₁ => ?_
    subst h₁
    exact requireTypes_accepts rest

theorem ne_void_of_isIntegral {t : Ty} (h : t.isIntegral = true) : t ≠ .void := by
  rintro rfl
  exact nomatch h

/-! ## Expressions -/

mutual

/-- An expression that has a type is given this type. -/
theorem expr_accepts : ∀ {e : Expr} {t : Ty} {c : Checker}, c.Valid →
    HasType c.signatures c.view e t → Accepts (expr e) c fun r c' => r = some t ∧ c.Same c'
  | _, _, c, _, .literal value pos => pure_accepts ⟨rfl, .refl c⟩
  | _, _, c, hc, .var bound => resolve_accepts hc bound
  | .assign name value pos, t, c, hc, .assign typed notVoid bound fits => by
    refine bind_accepts (expr_accepts hc typed) ?_
    rintro _ c₁ s₁ ⟨rfl, h₁⟩
    refine bind_accepts (requireValue_accepts notVoid) ?_
    rintro _ _ - ⟨rfl, rfl⟩
    -- the value is checked first, and it leaves the names in scope as they are
    rw [← h₁.view] at bound
    refine bind_accepts (resolve_accepts (s₁.valid hc) bound) ?_
    rintro _ c₂ _ ⟨rfl, h₂⟩
    refine bind_accepts (requireType_accepts fits) ?_
    rintro _ _ - rfl
    exact pure_accepts ⟨rfl, h₁.trans h₂⟩
  | .unary op operand pos, _, c, hc, .unary typed integral => by
    refine bind_accepts (expr_accepts hc typed) ?_
    rintro _ c₁ - ⟨rfl, h₁⟩
    refine bind_accepts (requireValue_accepts (ne_void_of_isIntegral integral)) ?_
    rintro _ _ - ⟨rfl, rfl⟩
    refine bind_accepts (requireIntegral_accepts integral) ?_
    rintro _ _ - rfl
    exact pure_accepts ⟨rfl, h₁⟩
  | .binary op left right pos, _, c, hc, .binary leftTyped rightTyped leftInt rightInt => by
    refine bind_accepts (expr_accepts hc leftTyped) ?_
    rintro _ c₁ s₁ ⟨rfl, h₁⟩
    refine bind_accepts (requireValue_accepts (ne_void_of_isIntegral leftInt)) ?_
    rintro _ _ - ⟨rfl, rfl⟩
    -- what was typed before the left operand is typed after it, too
    rw [← h₁.view, ← s₁.signatures] at rightTyped
    refine bind_accepts (expr_accepts (s₁.valid hc) rightTyped) ?_
    rintro _ c₂ - ⟨rfl, h₂⟩
    refine bind_accepts (requireValue_accepts (ne_void_of_isIntegral rightInt)) ?_
    rintro _ _ - ⟨rfl, rfl⟩
    refine bind_accepts (requireIntegral_accepts leftInt) ?_
    rintro _ _ - rfl
    refine bind_accepts (requireIntegral_accepts rightInt) ?_
    rintro _ _ - rfl
    exact pure_accepts ⟨rfl, h₁.trans h₂⟩
  -- the format is typed as a string, so it is no `void` value either
  | .call _ (format :: args) pos, _, c, hc, .print formatTyped argsTyped => by
    rw [expr, if_pos rfl]
    refine bind_accepts (R := fun _ c' => c.Same c') ?_ fun _ c₁ _ h₁ => pure_accepts ⟨rfl, h₁⟩
    rw [printArgs]
    refine bind_accepts (expr_accepts hc formatTyped) ?_
    rintro _ c₁ s₁ ⟨rfl, h₁⟩
    refine bind_accepts (requireValue_accepts (by decide)) ?_
    rintro _ _ - ⟨rfl, rfl⟩
    refine bind_accepts (reportIf_accepts rfl) ?_
    rintro _ _ - rfl
    rw [← h₁.view, ← s₁.signatures] at argsTyped
    refine bind_accepts (values_accepts (s₁.valid hc) argsTyped) ?_
    rintro _ c₂ - ⟨-, h₂⟩
    exact pure_accepts (h₁.trans h₂)
  | .call name args pos, _, c, hc, .call (f := f) notPrint declared argsTyped fit => by
    rw [expr, if_neg notPrint]
    refine bind_accepts (values_accepts hc argsTyped) ?_
    rintro _ c₁ s₁ ⟨rfl, h₁⟩
    rw [← s₁.signatures] at declared
    refine bind_accepts (resolveFunction_accepts declared) ?_
    rintro _ c₂ - ⟨s, rfl, hparams, hreturns, h₂⟩
    refine bind_accepts (R := fun _ c' => c' = c₂) ?_ ?_
    -- as many arguments as parameters, by the rule; otherwise the types would not be compared
    · have hlen : s.params.length = args.length := by
        rw [hparams, fit.length_eq, argsTyped.length_eq]
      rw [requireSignature, if_pos hlen, hparams]
      exact requireTypes_accepts fit
    · rintro _ _ - rfl
      exact pure_accepts ⟨by rw [hreturns], h₁.trans h₂⟩

theorem values_accepts : ∀ {es : List Expr} {ts : List Ty} {c : Checker}, c.Valid →
    HasTypes c.signatures c.view es ts →
    Accepts (values es) c fun r c' => r = ts.map some ∧ c.Same c'
  | _, _, c, _, .nil => pure_accepts ⟨rfl, .refl c⟩
  | e :: es, t :: ts, c, hc, .cons typed notVoid rest => by
    refine bind_accepts (expr_accepts hc typed) ?_
    rintro _ c₁ s₁ ⟨rfl, h₁⟩
    refine bind_accepts (requireValue_accepts notVoid) ?_
    rintro _ _ - ⟨rfl, rfl⟩
    rw [← h₁.view, ← s₁.signatures] at rest
    refine bind_accepts (values_accepts (s₁.valid hc) rest) ?_
    rintro _ c₂ - ⟨rfl, h₂⟩
    exact pure_accepts ⟨rfl, h₁.trans h₂⟩

end

theorem value_accepts {e : Expr} {t : Ty} {c : Checker} (hc : c.Valid)
    (h : HasType c.signatures c.view e t) (ht : t ≠ .void) :
    Accepts (value e) c fun r c' => r = some t ∧ c.Same c' := by
  refine bind_accepts (expr_accepts hc h) ?_
  rintro _ c₁ - ⟨rfl, h₁⟩
  refine (requireValue_accepts ht).imp ?_
  rintro _ _ - ⟨rfl, rfl⟩
  exact ⟨rfl, h₁⟩

theorem condition_accepts {e : Expr} {c : Checker} (hc : c.Valid)
    (h : IsIntegral c.signatures c.view e) : Accepts (condition e) c fun _ c' => c.Same c' := by
  obtain ⟨t, typed, integral⟩ := h
  refine bind_accepts (value_accepts hc typed (ne_void_of_isIntegral integral)) ?_
  rintro _ c₁ - ⟨rfl, h₁⟩
  refine (reportIf_accepts (by rw [integral]; rfl)).imp ?_
  rintro _ _ - rfl
  exact h₁

theorem scrutinee_accepts {e : Expr} {t : Ty} {c : Checker} (hc : c.Valid)
    (typed : HasType c.signatures c.view e t) (integral : t.isIntegral = true) :
    Accepts (scrutinee e) c fun r c' => r = some t ∧ c.Same c' := by
  refine bind_accepts (value_accepts hc typed (ne_void_of_isIntegral integral)) ?_
  rintro _ c₁ - ⟨rfl, h₁⟩
  refine bind_accepts (reportIf_accepts (by rw [integral]; rfl)) ?_
  rintro _ _ - rfl
  exact pure_accepts ⟨rfl, h₁⟩

theorem effect_accepts {e? : Option Expr} {c : Checker} (hc : c.Valid)
    (h : ∀ e ∈ e?, HasSomeType c.signatures c.view e) :
    Accepts (effect e?) c fun _ c' => c.Same c' := by
  cases e? with
  | none => exact pure_accepts (.refl c)
  | some e =>
    obtain ⟨t, typed⟩ := h e rfl
    refine bind_accepts (expr_accepts hc typed) ?_
    rintro _ c₁ - ⟨-, h₁⟩
    exact pure_accepts h₁

theorem guard_accepts {e? : Option Expr} {c : Checker} (hc : c.Valid)
    (h : ∀ e ∈ e?, IsIntegral c.signatures c.view e) :
    Accepts (guard e?) c fun _ c' => c.Same c' := by
  cases e? with
  | none => exact pure_accepts (.refl c)
  | some e => exact condition_accepts hc (h e rfl)

/-! ## Declarations and labels -/

theorem declare_accepts {name : String} {kind : SymbolKind} {type : Ty} {pos : Position}
    {c : Checker} (hc : c.Valid) (h : c.view.FreeHere name) :
    Accepts (modify fun c => c.declare name kind type pos) c fun _ c' =>
      c'.view = c.view.declare name type ∧ c'.function = c.function := by
  have hfree := (Checker.freeHere_iff c name).mp h
  refine modify_accepts (Checker.declare_step ..) ?_
    ⟨Checker.declare_view hc kind type pos hfree, ?_⟩
  all_goals
    rw [Checker.declare_of_free kind type pos hfree]
    unfold Checker.bind Checker.addSymbol
    cases c.scopes <;> rfl

theorem varDecl_accepts {d : VarDecl} {c : Checker} (hc : c.Valid) (h : d.Ok c.signatures c.view) :
    Accepts (varDecl d) c fun _ c' =>
      c'.view = c.view.declare d.name d.type ∧ c'.function = c.function := by
  refine bind_accepts (reportIf_accepts (by simpa using h.notVoid)) ?_
  rintro _ _ - rfl
  cases hinit : d.init with
  | none => exact declare_accepts hc h.free
  | some e =>
    obtain ⟨t, typed, notVoid, fits⟩ := h.init e hinit
    refine bind_accepts (value_accepts hc typed notVoid) ?_
    rintro _ c₁ s₁ ⟨rfl, h₁⟩
    rw [if_pos h.notVoid]
    refine bind_accepts (requireType_accepts fits) ?_
    rintro _ _ - rfl
    have hfree := h.free
    rw [← h₁.view] at hfree
    refine (declare_accepts (s₁.valid hc) hfree).imp ?_
    rintro _ c₂ - ⟨hview, hfun⟩
    exact ⟨by rw [hview, h₁.view], hfun.trans h₁.function⟩

theorem forInit_accepts {init : Option ForInit} {c : Checker} {Γ : TypeScopes} (hc : c.Valid)
    (h : ForInit.Ok c.signatures c.view init Γ) :
    Accepts (forInit init) c fun _ c' => c'.view = Γ ∧ c'.function = c.function := by
  cases h with
  | none => exact pure_accepts ⟨rfl, rfl⟩
  | eval typed =>
    obtain ⟨t, typed⟩ := typed
    refine bind_accepts (expr_accepts hc typed) ?_
    rintro _ c₁ - ⟨-, h₁⟩
    exact pure_accepts ⟨h₁.view, h₁.function⟩
  | declare ok => exact varDecl_accepts hc ok

theorem labels_accepts {t : Ty} : ∀ {groups : List CaseGroup} {seen : List CaseLabel}
    {hasDefault : Bool} {c : Checker},
    (∀ label ∈ groups.filterMap CaseGroup.label, label.type = t ∧ label ∉ seen) →
    (groups.filterMap CaseGroup.label).Nodup →
    ((groups.filter fun g => g.label.isNone).length ≤ if hasDefault then 0 else 1) →
    Accepts (labels (some t) seen hasDefault groups) c fun _ c' => c' = c
  | [], _, _, _, _, _, _ => pure_accepts rfl
  | group :: groups, seen, hasDefault, c, htyped, hnodup, hdefault => by
    rw [labels]
    cases hl : group.label with
    | some label =>
      simp only [List.filterMap_cons, hl, List.forall_mem_cons] at htyped
      simp only [List.filterMap_cons, hl, List.nodup_cons] at hnodup
      obtain ⟨⟨ht, hnew⟩, htyped⟩ := htyped
      refine bind_accepts (reportIf_accepts (by simp [ht])) ?_
      rintro _ _ - rfl
      refine bind_accepts (reportIf_accepts (by simpa using hnew)) ?_
      rintro _ _ - rfl
      -- a label seen from now on is this one or one seen before
      refine labels_accepts (fun l hm => ⟨(htyped l hm).1, ?_⟩) hnodup.2 (by simpa [hl] using hdefault)
      intro hseen
      rcases List.mem_cons.mp hseen with rfl | hseen
      · exact hnodup.1 hm
      · exact (htyped l hm).2 hseen
    | none =>
      simp only [List.filterMap_cons, hl] at htyped hnodup
      -- at most one group is without a label, so none of those behind this one is
      have hcount : (groups.filter fun g => g.label.isNone).length = 0 ∧ hasDefault = false := by
        cases hasDefault <;> simp_all
      refine bind_accepts (reportIf_accepts hcount.2) ?_
      rintro _ _ - rfl
      exact labels_accepts htyped hnodup (by simp [hcount.1])

theorem ret_accepts {e? : Option Expr} {pos : Position} {reachable : Bool} {returns : Ty}
    {inLoop : Bool} {c : Checker} {Γ : TypeScopes} (hc : c.Valid)
    (hf : c.function.map CurrentFunction.returns = some returns)
    (h : Stmt.Ok c.signatures returns inLoop c.view (.ret e? pos) Γ) :
    Accepts (ret e? pos reachable) c fun _ c' => c'.view = c.view ∧ c'.scopes = c.scopes ∧
      c'.symbols.length = c.symbols.length ∧
      c'.function = c.function.map (noteReturn (reachable && e?.isSome)) := by
  -- the checker knows the function it is in, as the rules do
  obtain ⟨f, hfun, rfl⟩ := Option.map_eq_some_iff.mp hf
  cases h with
  | retVoid isVoid =>
    refine get_bind_accepts ?_
    rw [hfun]
    refine (reportIf_accepts (by simp [isVoid])).imp ?_
    rintro _ _ - rfl
    exact ⟨rfl, rfl, rfl, by simp [hfun, noteReturn]⟩
  | ret notVoid fits =>
    obtain ⟨t, typed, tNotVoid, fits⟩ := fits
    refine bind_accepts (value_accepts hc typed tNotVoid) ?_
    rintro _ c₁ s₁ ⟨rfl, h₁⟩
    have hlength : c₁.symbols.length = c.symbols.length := by
      simpa using congrArg List.length h₁.types
    refine get_bind_accepts ?_
    rw [h₁.function, hfun]
    show Accepts (if f.returns = .void then _ else _) c₁ _
    rw [if_neg notVoid]
    -- only a `return` that control can reach is marked
    cases reachable with
    | false =>
      refine (requireType_accepts fits).imp ?_
      rintro _ _ - rfl
      exact ⟨h₁.view, h₁.scopes, hlength, by rw [h₁.function, hfun]; simp [noteReturn]⟩
    | true =>
      refine bind_accepts (R := fun _ c' => c'.view = c₁.view ∧ c'.scopes = c₁.scopes ∧
        c'.symbols.length = c₁.symbols.length ∧
        c'.function = c₁.function.map (noteReturn true)) ?_ ?_
      · obtain ⟨hs, hq⟩ := markReturn_ensures (c := c₁)
        refine modify_accepts hs rfl ⟨rfl, rfl, rfl, ?_⟩
        cases c₁.function <;> simp [noteReturn]
      · rintro _ c₂ - ⟨hview, hscopes, hsymbols, hmark⟩
        refine (requireType_accepts fits).imp ?_
        rintro _ _ - rfl
        refine ⟨hview.trans h₁.view, hscopes.trans h₁.scopes, hsymbols.trans hlength, ?_⟩
        rw [hmark, h₁.function, hfun]
        rfl

/-! ## Statements -/

/-- What checking a statement that keeps the rules comes to: the names in scope are those of the
rules, and a statement that declares nothing leaves the scopes as they were. -/
structure Walked (reachable : Bool) (c : Checker) (s : Stmt) (Γ : TypeScopes) (exit : Exit)
    (c' : Checker) : Prop where
  view : c'.view = Γ
  scopes : Γ = c.view → c'.scopes = c.scopes
  exit : exit = s.exit
  function : c'.function = c.function.map (noteReturn (reachable && s.returnsValue))

/-- The same for a statement list. -/
structure WalkedList (reachable : Bool) (c : Checker) (body : List Stmt) (Γ : TypeScopes)
    (exit : Exit) (c' : Checker) : Prop where
  view : c'.view = Γ
  scopes : Γ = c.view → c'.scopes = c.scopes
  exit : exit = Stmt.listExit body
  function : c'.function = c.function.map (noteReturn (reachable && Stmt.listReturnsValue body))

/-- The body of a loop. -/
theorem loopBody_accepts {reachable : Bool} {c : Checker} {body : Stmt}
    (hx : Accepts (stmt reachable body) { c with breakable := c.breakable + 1 }
      (Walked reachable { c with breakable := c.breakable + 1 } body c.view)) :
    Accepts (insideLoop (stmt reachable body)) c fun _ c' => c'.view = c.view ∧
      c'.scopes = c.scopes ∧
      c'.function = c.function.map (noteReturn (reachable && body.returnsValue)) := by
  refine insideLoop_accepts (hx.imp ?_)
  rintro exit c₁ - ⟨hview, hscopes, -, hfun⟩
  exact ⟨hview, hscopes rfl, hfun⟩

theorem view_ne_nil {c : Checker} (hc : c.Valid) : c.view ≠ [] := by
  simpa [Checker.view] using hc.open_

mutual

/-- A statement that keeps the rules is accepted. -/
theorem stmt_accepts {returns : Ty} : ∀ {s : Stmt} {inLoop reachable : Bool} {c : Checker}
    {Γ : TypeScopes}, c.Valid → c.function.map CurrentFunction.returns = some returns →
    (c.breakable != 0) = inLoop → Stmt.Ok c.signatures returns inLoop c.view s Γ →
    Accepts (stmt reachable s) c (Walked reachable c s Γ)
  | .declare d, _, reachable, c, _, hc, _, _, .declare ok => by
    refine bind_accepts (varDecl_accepts hc ok) ?_
    rintro _ c₁ - ⟨hview, hfun⟩
    refine pure_accepts ⟨hview, fun h => ?_, rfl, by simpa [Stmt.returnsValue] using hfun⟩
    exact absurd h (TypeScopes.declare_ne (view_ne_nil hc) _ _)
  | .eval e pos, _, reachable, c, _, hc, _, _, .eval typed => by
    obtain ⟨t, typed⟩ := typed
    refine bind_accepts (expr_accepts hc typed) ?_
    rintro _ c₁ - ⟨-, h₁⟩
    exact pure_accepts ⟨h₁.view, fun _ => h₁.scopes, rfl,
      by simpa [Stmt.returnsValue] using h₁.function⟩
  | .block body pos, _, reachable, c, _, hc, hf, hb, .block bodyOk => by
    have hc' := hc.pushScope
    refine inScope_accepts ((stmts_accepts (c := c.pushScope) hc' hf hb bodyOk).imp ?_)
    rintro exit c₁ s₁ ⟨hview, -, hexit, hfun⟩
    refine ⟨?_, fun _ => s₁.outer, by rw [hexit, Stmt.exit], by rw [Stmt.returnsValue]; exact hfun⟩
    rw [c₁.popScope_view, s₁.view_tail hc']
    rfl
  | .branch cond onTrue none pos, _, reachable, c, _, hc, hf, hb, .branch condOk onTrueOk => by
    refine bind_accepts (condition_accepts hc condOk) ?_
    rintro _ c₁ s₁ h₁
    rw [← h₁.view, ← s₁.signatures] at onTrueOk
    rw [← s₁.breakable] at hb
    refine bind_accepts (stmt_accepts (s₁.valid hc) (returns_of_step s₁ hf) hb onTrueOk) ?_
    rintro _ c₂ - ⟨hview, hscopes, -, hfun⟩
    refine pure_accepts ⟨hview.trans h₁.view, fun _ => (hscopes rfl).trans h₁.scopes, rfl, ?_⟩
    rw [hfun, h₁.function, Stmt.returnsValue]
  | .branch cond onTrue (some onFalse) pos, _, reachable, c, _, hc, hf, hb,
      .branchElse condOk onTrueOk onFalseOk => by
    refine bind_accepts (condition_accepts hc condOk) ?_
    rintro _ c₁ s₁ h₁
    rw [← h₁.view, ← s₁.signatures] at onTrueOk
    rw [← s₁.breakable] at hb
    refine bind_accepts (stmt_accepts (s₁.valid hc) (returns_of_step s₁ hf) hb onTrueOk) ?_
    rintro _ c₂ s₂ ⟨hview, hscopes, rfl, hfun⟩
    have s₁₂ := s₁.trans s₂
    have hview₂ : c₂.view = c.view := hview.trans h₁.view
    rw [← hview₂, ← s₁₂.signatures] at onFalseOk
    rw [← s₂.breakable] at hb
    refine bind_accepts (stmt_accepts (s₁₂.valid hc) (returns_of_step s₁₂ hf) hb onFalseOk) ?_
    rintro _ c₃ - ⟨hview', hscopes', rfl, hfun'⟩
    refine pure_accepts ⟨hview'.trans hview₂,
      fun _ => (hscopes' rfl).trans ((hscopes rfl).trans h₁.scopes), by rw [Stmt.exit], ?_⟩
    rw [hfun', hfun, h₁.function, map_noteReturn_map, Stmt.returnsValue, Bool.and_or_distrib_left]
  | .whileLoop cond body pos, _, reachable, c, _, hc, hf, hb, .whileLoop condOk bodyOk => by
    refine bind_accepts (condition_accepts hc condOk) ?_
    rintro _ c₁ s₁ h₁
    rw [← h₁.view, ← s₁.signatures] at bodyOk
    have hc₁ := s₁.valid hc
    have hf₁ := returns_of_step s₁ hf
    refine bind_accepts (loopBody_accepts (stmt_accepts (c := { c₁ with breakable := c₁.breakable + 1 })
      ⟨hc₁.open_, hc₁.bound⟩ hf₁ rfl bodyOk)) ?_
    rintro _ c₂ - ⟨hview, hscopes, hfun⟩
    refine pure_accepts ⟨hview.trans h₁.view, fun _ => hscopes.trans h₁.scopes, rfl, ?_⟩
    rw [hfun, h₁.function, Stmt.returnsValue]
  | .forLoop init cond step body pos, _, reachable, c, _, hc, hf, hb,
      .forLoop initOk condOk stepOk bodyOk => by
    have hc' := hc.pushScope
    refine inScope_accepts (bind_accepts (forInit_accepts (c := c.pushScope) hc' initOk) ?_)
    rintro _ c₁ s₁ ⟨rfl, hfun₁⟩
    have hc₁ := s₁.valid hc'
    -- the clauses after the condition are checked alike whether or not there is a condition
    have hrest : ∀ {c₂ : Checker}, c₁.Step c₂ → c₁.Same c₂ →
        Accepts (do effect step; let _ ← insideLoop (stmt reachable body); return Exit.continues) c₂
          fun exit c' =>
            Walked reachable c (.forLoop init cond step body pos) c.view exit c'.popScope := by
      intro c₂ s₂ h₂
      have s₁₂ := s₁.trans s₂
      rw [← h₂.view, show c.signatures = c₂.signatures from s₁₂.signatures.symm] at stepOk
      refine bind_accepts (effect_accepts (s₂.valid hc₁) stepOk) ?_
      rintro _ c₃ s₃ h₃
      have s₁₃ := s₁₂.trans s₃
      have hc₃ := s₁₃.valid hc'
      have hf₃ := returns_of_step s₁₃ hf
      rw [← h₂.view, ← h₃.view, show c.signatures = c₃.signatures from s₁₃.signatures.symm] at bodyOk
      refine bind_accepts (loopBody_accepts
        (stmt_accepts (c := { c₃ with breakable := c₃.breakable + 1 }) ⟨hc₃.open_, hc₃.bound⟩ hf₃
          rfl bodyOk)) ?_
      rintro _ c₄ s₄ ⟨-, -, hfun⟩
      refine pure_accepts ⟨?_, fun _ => (s₁₃.trans s₄).outer, rfl, ?_⟩
      · rw [c₄.popScope_view, (s₁₃.trans s₄).view_tail hc']
        rfl
      · show c₄.function = _
        rw [hfun, h₃.function, h₂.function, hfun₁, Stmt.returnsValue]
        rfl
    cases cond with
    | none => exact hrest (.refl c₁) (.refl c₁)
    | some e =>
      have hcond := condOk e rfl
      rw [show c.signatures = c₁.signatures from s₁.signatures.symm] at hcond
      exact bind_accepts (condition_accepts hc₁ hcond) fun _ c₂ s₂ h₂ => hrest s₂ h₂
  | .switch e cases pos, _, reachable, c, _, hc, hf, hb,
      .switch (t := t) typed integral labelsOk groupsOk => by
    refine bind_accepts (scrutinee_accepts hc typed integral) ?_
    rintro _ c₁ s₁ ⟨rfl, h₁⟩
    refine bind_accepts (labels_accepts (fun l hl => ⟨labelsOk.typed l hl, by simp⟩)
      labelsOk.distinct labelsOk.oneDefault) ?_
    rintro _ c₂ - h₂
    rw [h₂]
    have hc₁ := s₁.valid hc
    have hf₁ := returns_of_step s₁ hf
    rw [← h₁.view, ← s₁.signatures] at groupsOk
    refine bind_accepts (insideLoop_accepts (Q := fun _ c' => c'.view = c₁.view ∧
      c'.scopes = c₁.scopes ∧
      c'.function = c₁.function.map (noteReturn (reachable && CaseGroup.listReturnsValue cases)))
      (groups_accepts (c := { c₁ with breakable := c₁.breakable + 1 }) ⟨hc₁.open_, hc₁.bound⟩
        hf₁ rfl groupsOk)) ?_
    rintro _ c₂ - ⟨hview, hscopes, hfun⟩
    refine pure_accepts ⟨hview.trans h₁.view, fun _ => hscopes.trans h₁.scopes, rfl, ?_⟩
    rw [hfun, h₁.function, Stmt.returnsValue]
  | .ret e? pos, _, reachable, c, Γ, hc, hf, _, h => by
    refine bind_accepts (ret_accepts hc hf h) ?_
    rintro _ c₁ - ⟨hview, hscopes, -, hfun⟩
    have hΓ : Γ = c.view := by cases h <;> rfl
    refine pure_accepts ⟨hview.trans hΓ.symm, fun _ => hscopes, rfl, ?_⟩
    cases e? <;> exact hfun
  | .brk pos, _, reachable, c, _, hc, hf, hb, .brk => by
    refine get_bind_accepts (bind_accepts (reportIf_accepts (by simpa using hb)) ?_)
    rintro _ _ - rfl
    exact pure_accepts ⟨rfl, fun _ => rfl, rfl, by simp [Stmt.returnsValue]⟩

theorem stmts_accepts {returns : Ty} : ∀ {body : List Stmt} {inLoop reachable : Bool}
    {c : Checker} {Γ : TypeScopes}, c.Valid →
    c.function.map CurrentFunction.returns = some returns → (c.breakable != 0) = inLoop →
    Stmt.ListOk c.signatures returns inLoop c.view body Γ →
    Accepts (stmts reachable body) c (WalkedList reachable c body Γ)
  | [], _, reachable, c, _, hc, hf, _, .nil => by
    exact pure_accepts ⟨rfl, fun _ => rfl, rfl, by simp [Stmt.listReturnsValue]⟩
  | s :: rest, _, reachable, c, Γ, hc, hf, hb, .cons head tail => by
    refine bind_accepts (stmt_accepts hc hf hb head) ?_
    rintro _ c₁ s₁ ⟨rfl, hscopes, rfl, hfun⟩
    have hext := tail.extends
    rw [← s₁.signatures] at tail
    rw [← s₁.breakable] at hb
    refine bind_accepts (stmts_accepts (s₁.valid hc) (returns_of_step s₁ hf) hb tail) ?_
    rintro _ c₂ - ⟨rfl, hscopes', rfl, hfun'⟩
    refine pure_accepts ⟨rfl, fun hΓ => ?_, rfl, ?_⟩
    · -- nothing is declared on the way back to the same names
      have hmid : c₁.view = c.view := head.extends.antisymm (hΓ ▸ hext)
      exact (hscopes' (hΓ.trans hmid.symm)).trans (hscopes hmid)
    · rw [hfun', hfun, map_noteReturn_map, Stmt.listReturnsValue, Bool.and_or_distrib_left,
        Bool.and_assoc]

theorem groups_accepts {returns : Ty} : ∀ {cases : List CaseGroup} {reachable : Bool}
    {c : Checker}, c.Valid → c.function.map CurrentFunction.returns = some returns →
    (c.breakable != 0) = true → CaseGroup.ListOk c.signatures returns c.view cases →
    Accepts (groups reachable cases) c fun _ c' => c'.view = c.view ∧ c'.scopes = c.scopes ∧
      c'.function = c.function.map (noteReturn (reachable && CaseGroup.listReturnsValue cases))
  | [], reachable, c, hc, hf, _, .nil =>
    pure_accepts ⟨rfl, rfl, by simp [CaseGroup.listReturnsValue]⟩
  | .mk label body pos :: rest, reachable, c, hc, hf, hb, .cons bodyOk tail => by
    refine bind_accepts (stmts_accepts hc hf hb bodyOk) ?_
    rintro _ c₁ s₁ ⟨hview, hscopes, -, hfun⟩
    rw [← hview, ← s₁.signatures] at tail
    refine (groups_accepts (s₁.valid hc) (returns_of_step s₁ hf) (by rw [s₁.breakable, hb])
      tail).imp ?_
    rintro _ c₂ - ⟨hview', hscopes', hfun'⟩
    refine ⟨hview'.trans hview, hscopes'.trans (hscopes rfl), ?_⟩
    rw [hfun', hfun, map_noteReturn_map, CaseGroup.listReturnsValue, Bool.and_or_distrib_left]

end

/-! ## Functions -/

theorem param_accepts {p : Param} {c : Checker} (hc : c.Valid) (hvoid : p.type ≠ .void)
    (hfree : c.view.FreeHere p.name) :
    Accepts (param p) c fun _ c' => c'.view = c.view.declare p.name p.type := by
  refine bind_accepts (reportIf_accepts (by simpa using hvoid)) ?_
  rintro _ _ - rfl
  exact (declare_accepts hc hfree).imp fun _ _ _ h => h.1

/-- Parameters that can be declared in a state. -/
structure ParamsOk (c : Checker) (params : List Param) : Prop where
  valid : c.Valid
  notVoid : ∀ p ∈ params, p.type ≠ .void
  distinct : (params.map Param.name).Nodup
  free : ∀ p ∈ params, c.view.FreeHere p.name

/-- Behind the first parameter the others can be declared. -/
theorem ParamsOk.tail {p : Param} {params : List Param} {c c₁ : Checker}
    (h : ParamsOk c (p :: params)) (hs : c.Step c₁) (hview : c₁.view = c.view.declare p.name p.type) :
    ParamsOk c₁ params := by
  obtain ⟨hnew, hnodup⟩ := List.nodup_cons.mp h.distinct
  refine ⟨hs.valid h.valid, (List.forall_mem_cons.mp h.notVoid).2, hnodup, fun q hq scope hscope => ?_⟩
  obtain ⟨top, outer, hΓ⟩ := List.exists_cons_of_ne_nil (view_ne_nil h.valid)
  have hfree := h.free q (List.mem_cons_of_mem _ hq)
  rw [hΓ] at hfree
  rw [hview, hΓ] at hscope
  obtain rfl : (p.name, p.type) :: top = scope := Option.some.inj hscope
  rw [Lookup.lookup_cons, if_neg]
  · exact hfree top rfl
  · exact fun hname => hnew (List.mem_map.mpr ⟨q, hq, hname⟩)

theorem params_accepts : ∀ {params : List Param} {c : Checker}, ParamsOk c params →
    Accepts (params.forM param) c fun _ c' => c'.view = Param.declareAll c.view params
  | [], c, _ => pure_accepts rfl
  | p :: params, c, h => by
    refine bind_accepts (param_accepts h.valid (h.notVoid p List.mem_cons_self)
      (h.free p List.mem_cons_self)) ?_
    rintro _ c₁ s₁ h₁
    refine (params_accepts (h.tail s₁ h₁)).imp ?_
    rintro _ c₂ - h₂
    rw [h₂, h₁]
    rfl

/-- The parameters of a function can be declared in the scope that is opened for them. -/
theorem paramsOk_of_ok {c : Checker} (hc : c.AtItems) {f : FunctionDef} {sigs : Signatures}
    {globals : TypeScope} (hf : f.Ok sigs globals) :
    ParamsOk (c.enterRoutine f.name).pushScope f.params := by
  have hv : (c.enterRoutine f.name).pushScope.Valid :=
    Checker.Valid.pushScope (c := c.enterRoutine f.name) ⟨hc.valid.open_, hc.valid.bound⟩
  refine ⟨hv, hf.notVoid, hf.distinct, fun p _ scope hscope => ?_⟩
  obtain rfl : [] = scope := Option.some.inj hscope
  rfl

theorem enterFunction_accepts {c : Checker} (hc : c.AtItems) {f : FunctionDef} {globals : TypeScope}
    (hview : c.view = [globals]) (hf : f.Ok c.signatures globals) :
    (c.enterFunction f).errors = c.errors ∧ (c.enterFunction f).view = [f.paramScope, globals] := by
  obtain ⟨-, he, hparams⟩ := params_accepts (paramsOk_of_ok hc hf)
  refine ⟨he, hparams.trans ?_⟩
  show Param.declareAll ([] :: c.view) f.params = _
  rw [Param.declareAll_cons, List.append_nil, hview]
  rfl

/-- What the body of a function starts from. -/
theorem enterFunction_step {c : Checker} (hc : c.AtItems) (f : FunctionDef) :
    (c.enterFunction f).signatures = c.signatures ∧ (c.enterFunction f).breakable = 0 := by
  have hp := (Checker.enterFunction_params hc.valid f).1
  refine ⟨?_, hp.breakable.trans hc.breakable⟩
  unfold Checker.signatures
  rw [show (c.enterFunction f).functions = c.functions from hp.functions]

theorem function_accepts {c : Checker} (hc : c.AtItems) {f : FunctionDef} {globals : TypeScope}
    (hview : c.view = [globals]) (hf : f.Ok c.signatures globals) :
    c.ItemStep ((item (.function f)).run c).2 ∧
      ((item (.function f)).run c).2.errors = c.errors ∧
      ((item (.function f)).run c).2.view = c.view := by
  obtain ⟨heEnter, hviewEnter⟩ := enterFunction_accepts hc hview hf
  obtain ⟨hsigs, hbreak⟩ := enterFunction_step hc f
  obtain ⟨Γ, hbody⟩ := hf.body
  rw [← hsigs, ← hviewEnter] at hbody
  have hstmts : Accepts (stmts true f.body) (c.enterFunction f)
      (WalkedList true (c.enterFunction f) f.body Γ) :=
    stmts_accepts (Checker.enterFunction_valid hc.valid f) rfl (by rw [hbreak]; rfl) hbody
  obtain ⟨hb, heBody, hwalk⟩ := hstmts
  rw [show ((item (.function f)).run c).2 = _ from Checker.functionDef_run c f]
  generalize hc' : ((stmts true f.body).run (c.enterFunction f)).2 = c' at hb heBody hwalk ⊢
  obtain ⟨hstep, hviewEq⟩ := Checker.leaveFunction_itemStep hc hb
  refine ⟨hstep, ?_, hviewEq⟩
  -- the function has the return that its type asks for
  have hcur : c'.function = some ⟨f.name, f.returns, Stmt.listReturnsValue f.body⟩ := by
    rw [hwalk.function]
    simp [Checker.enterFunction, noteReturn]
  have hreturn : (f.returns != .void && f.name != mainName && !Stmt.listReturnsValue f.body) =
      false := by
    by_cases hvoid : f.returns = .void
    · simp [hvoid]
    · by_cases hmain : f.name = mainName
      · simp [hmain]
      · simp [hf.returns hvoid hmain]
  have hrequire : ((requireReturn f).run c').2 = c' := by
    unfold requireReturn
    rw [get_bind_run, hcur]
    dsimp only
    rw [hreturn]
    rfl
  show ((requireReturn f).run c').2.errors = c.errors
  rw [hrequire, heBody, heEnter]

theorem global_accepts {c : Checker} (hc : c.AtItems) {d : VarDecl} (hd : d.Ok c.signatures c.view) :
    c.ItemStep ((item (.global d)).run c).2 ∧ ((item (.global d)).run c).2.errors = c.errors ∧
      ((item (.global d)).run c).2.view = c.view.declare d.name d.type := by
  obtain ⟨hs, he, hview, -⟩ := varDecl_accepts hc.valid hd
  exact ⟨hs.item hc, he, hview⟩

/-! ## Programs -/

/-- Items that keep the rules are accepted. -/
theorem items_accepts : ∀ {items : List Item} {c : Checker} {globals after : TypeScope},
    c.AtItems → c.view = [globals] → Item.ListOk c.signatures globals items after →
    c.ItemStep ((items.forM item).run c).2 ∧ ((items.forM item).run c).2.errors = c.errors ∧
      ((items.forM item).run c).2.view = [after]
  | [], c, globals, _, hc, hview, .nil =>
    ⟨⟨List.prefix_refl _, List.prefix_refl _, rfl, hc⟩, rfl, hview⟩
  | .global d :: items, c, globals, after, hc, hview, .global ok tail => by
    rw [← hview] at ok
    obtain ⟨hs, he, hview'⟩ := global_accepts hc ok
    rw [hview] at hview'
    rw [← hs.signatures] at tail
    obtain ⟨hs', he', hafter⟩ := items_accepts hs.atItems hview' tail
    exact ⟨hs.trans hs', he'.trans he, hafter⟩
  | .function f :: items, c, globals, after, hc, hview, .function ok tail => by
    obtain ⟨hs, he, hview'⟩ := function_accepts hc hview ok
    rw [← hs.signatures] at tail
    obtain ⟨hs', he', hafter⟩ := items_accepts hs.atItems (hview'.trans hview) tail
    exact ⟨hs.trans hs', he'.trans he, hafter⟩

theorem registerAll_accepts : ∀ {fs : List FunctionDef} {c : Checker},
    (fs.map FunctionDef.name).Nodup → (∀ f ∈ fs, isBuiltin f.name = false) →
    (∀ f ∈ fs, c.functions.lookup f.name = none) →
    ((fs.forM register).run c).2.errors = c.errors
  | [], _, _, _, _ => rfl
  | f :: fs, c, hnodup, hbuiltin, hfree => by
    obtain ⟨hb, hbs⟩ := List.forall_mem_cons.mp hbuiltin
    obtain ⟨hl, hls⟩ := List.forall_mem_cons.mp hfree
    obtain ⟨hnew, hnodup⟩ := List.nodup_cons.mp hnodup
    -- the name is neither taken nor that of a builtin, so the function is declared
    have hrun : ((register f).run c).2 = c.declareFunction f := by
      unfold register
      rw [if_neg (by simp [hb])]
      show ((if (c.functions.lookup f.name).isSome = true then _ else _ : Check Unit).run c).2 = _
      rw [if_neg (by simp [hl])]
      rfl
    have hls' : ∀ g ∈ fs, (c.declareFunction f).functions.lookup g.name = none := by
      intro g hg
      rw [show (c.declareFunction f).functions = (f.name, _) :: c.functions from rfl,
        Lookup.lookup_cons, if_neg]
      · exact hls g hg
      · exact fun h => hnew (List.mem_map.mpr ⟨g, hg, h⟩)
    have htail := registerAll_accepts hnodup hbs hls'
    show ((fs.forM register).run ((register f).run c).2).2.errors = c.errors
    rw [hrun, htail]
    rfl

end Check

namespace Checker

/-- The state is inside the body of a function that returns `returns`. -/
structure InFunction (c : Checker) (returns : Ty) : Prop where
  function : c.function.map CurrentFunction.returns = some returns
  nested : 2 ≤ c.view.length

theorem InFunction.of_same {c c' : Checker} {returns : Ty} (h : c.InFunction returns)
    (hsame : c.Same c') : c'.InFunction returns :=
  ⟨by rw [hsame.function]; exact h.function, by rw [hsame.view]; exact h.nested⟩

theorem InFunction.of_step {c c' : Checker} {returns : Ty} (h : c.InFunction returns)
    (hs : c.Step c') (hlen : c'.view.length = c.view.length) : c'.InFunction returns :=
  ⟨Check.returns_of_step hs h.function, by rw [hlen]; exact h.nested⟩

theorem InFunction.pushScope {c : Checker} {returns : Ty} (h : c.InFunction returns) :
    c.pushScope.InFunction returns :=
  ⟨h.function, Nat.le_succ_of_le h.nested⟩

theorem InFunction.inLoop {c : Checker} {returns : Ty} (h : c.InFunction returns) :
    c.inLoop.InFunction returns :=
  ⟨h.function, h.nested⟩

end Checker

theorem Program.Ok.registered_errors {p : Program} (h : p.Ok) : (Checker.registered p).errors = [] :=
  Check.registerAll_accepts h.distinct h.notBuiltin fun _ _ => rfl

/-- A program that keeps the static rules is accepted. -/
theorem Program.check_of_ok {p : Program} (h : p.Ok) : ∃ table, check p = .ok table := by
  obtain ⟨globals, hitems⟩ := h.items
  rw [← Checker.registered_signatures h.registered_errors] at hitems
  obtain ⟨-, he, -⟩ := Check.items_accepts (Checker.registered_atItems p)
    (Checker.registered_view p) hitems
  have hnil : (Checker.ofProgram p).errors = [] := he.trans h.registered_errors
  exact ⟨_, by simp [check, hnil]; rfl⟩

end Primer
