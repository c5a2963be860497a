import Primer.Proofs.Naming.Numbering

/-!
# Renamed programs keep the static rules

Under the names of their symbols, variables keep their types, and no declaration finds its name taken:
the number of the symbol it adds is larger than all numbers in scope. Nothing else that the rules look
at is changed by renaming.

- `Checker.freshView` is what the rules see of a state under the names of the symbols.
- `Stmt.Ok.renamed` is the statement for statements, `Program.Ok.renamed` that for programs.
-/

namespace Primer

variable {fresh : Nat → String}

/-! ## Names in scope -/

namespace Checker

/-- One scope with the names of its symbols and their types. -/
def freshScope (fresh : Nat → String) (c : Checker) (scope : StaticScope) : TypeScope :=
  scope.map fun b => (fresh b.2, (c.typeOf? b.2).getD .void)

/-- The names of the symbols in scope with their types. -/
def freshView (fresh : Nat → String) (c : Checker) : TypeScopes :=
  c.scopes.map (c.freshScope fresh)

variable {c c' : Checker}

theorem freshScope_lookup (hfresh : Function.Injective fresh) (c : Checker) (k : Nat)
    (scope : StaticScope) : (c.freshScope fresh scope).lookup (fresh k) =
      if k ∈ scope.map Prod.snd then some ((c.typeOf? k).getD .void) else none := by
  induction scope with
  | nil => rfl
  | cons b rest ih =>
    show List.lookup (fresh k) ((fresh b.2, _) :: c.freshScope fresh rest) = _
    rw [Lookup.lookup_cons, ih]
    by_cases hk : k = b.2
    · simp [hk]
    · have hne : fresh k ≠ fresh b.2 := fun h => hk (hfresh h)
      simp only [if_neg hne, List.map_cons, List.mem_cons, hk, false_or]

/-- A variable has the same type under its new name. -/
theorem freshView_type? (hfresh : Function.Injective fresh) (hc : c.Valid) {name : String} {t : Ty}
    (h : c.view.type? name = some t) : (c.freshView fresh).type? (c.nameOf fresh name) = some t := by
  rw [view_type? hc] at h
  obtain ⟨k, hk, ht⟩ := Option.bind_eq_some_iff.mp h
  rw [nameOf_of_symbol hk]
  -- whichever scope binds the symbol, its new name has the type of the symbol there
  obtain ⟨scope, hscope, hmem⟩ := mem_of_symbolOf? hk
  have hfind : ∀ scopes : List StaticScope, scope ∈ scopes →
      (scopes.map (c.freshScope fresh)).findSome? (List.lookup (fresh k)) = some t := by
    intro scopes hscopes
    induction scopes with
    | nil => cases hscopes
    | cons scope' outer ih =>
      rw [List.map_cons, List.findSome?_cons, freshScope_lookup hfresh]
      by_cases hk' : k ∈ scope'.map Prod.snd
      · rw [if_pos hk', ht]
        rfl
      · rw [if_neg hk']
        -- the scope with the symbol is still ahead, as the symbol is not in this one
        rcases List.mem_cons.mp hscopes with rfl | houter
        · exact absurd hmem hk'
        · exact ih houter
  exact hfind c.scopes hscope

theorem freshScope_of_types (h : c.symbols.map Symbol.type <+: c'.symbols.map Symbol.type)
    {scope : StaticScope} (hs : ∀ b ∈ scope, b.2 < c.symbols.length) :
    c'.freshScope fresh scope = c.freshScope fresh scope :=
  List.map_congr_left fun b hb => by rw [typeOf?_of_types h (hs b hb)]

theorem Alike.freshView (h : c.Alike c') (hc : c.Valid) : c'.freshView fresh = c.freshView fresh := by
  unfold Checker.freshView
  rw [h.scopes]
  exact List.map_congr_left fun scope hscope => freshScope_of_types h.types (hc.bound scope hscope)

theorem Declares.freshView {name : String} {type : Ty} (h : c.Declares name c') (hs : c.Step c')
    (hc : c.Valid) (hview : c'.view = c.view.declare name type) :
    c'.freshView fresh = (c.freshView fresh).declare (fresh c.symbols.length) type := by
  obtain ⟨scope, outer, hscopes⟩ := hc.scopes_eq
  have hbound := hc.bound
  rw [hscopes] at hbound
  obtain ⟨hscope, houter⟩ := List.forall_mem_cons.mp hbound
  -- the rules and the checker give the new symbol one type: that of the head of the innermost scope
  have htype : (c'.typeOf? c.symbols.length).getD .void = type := by
    have hhead : c'.view.head?.bind List.head? = some (name, type) := by
      rw [hview, Checker.view, hscopes]
      rfl
    rw [Checker.view, h.cons hscopes] at hhead
    exact congrArg Prod.snd (Option.some.inj hhead)
  have hnew : c'.freshScope fresh ((name, c.symbols.length) :: scope) =
      (fresh c.symbols.length, type) :: c.freshScope fresh scope := by
    rw [← freshScope_of_types hs.types hscope, ← htype]
    rfl
  unfold Checker.freshView
  rw [h.cons hscopes, hscopes, List.map_cons, List.map_cons, TypeScopes.declare, hnew]
  refine congrArg (_ :: ·) (List.map_congr_left fun scope' hm => ?_)
  exact freshScope_of_types hs.types (houter scope' hm)

/-- The name of the symbol that comes next is not taken. -/
theorem freshView_freeHere (hfresh : Function.Injective fresh) (hc : c.Valid) :
    (c.freshView fresh).FreeHere (fresh c.symbols.length) := by
  obtain ⟨scope, outer, hscopes⟩ := hc.scopes_eq
  have hbound := hc.bound scope (by simp [hscopes])
  intro scope' hscope'
  rw [freshView, hscopes] at hscope'
  obtain rfl : c.freshScope fresh scope = scope' := Option.some.inj hscope'
  rw [freshScope_lookup hfresh, if_neg]
  intro hm
  obtain ⟨b, hb, hnumber⟩ := List.mem_map.mp hm
  exact Nat.lt_irrefl _ (hnumber ▸ hbound b hb)

end Checker

/-! ## Expressions and declarations -/

section Rules

variable {c : Checker}

mutual

theorem HasType.renamed (hfresh : Function.Injective fresh) (hc : c.Valid) :
    ∀ {e : Expr} {t : Ty}, HasType c.signatures c.view e t →
      HasType c.signatures (c.freshView fresh) (e.renamed fresh c) t
  | _, _, .literal value pos => by
    rw [Expr.renamed]
    exact .literal value pos
  | _, _, .var bound => by
    rw [Expr.renamed]
    exact .var (Checker.freshView_type? hfresh hc bound)
  | _, _, .assign typed notVoid bound fits => by
    rw [Expr.renamed]
    exact .assign (HasType.renamed hfresh hc typed) notVoid
      (Checker.freshView_type? hfresh hc bound) fits
  | _, _, .unary typed integral => by
    rw [Expr.renamed]
    exact .unary (HasType.renamed hfresh hc typed) integral
  | _, _, .binary leftTyped rightTyped leftIntegral rightIntegral => by
    rw [Expr.renamed]
    exact .binary (HasType.renamed hfresh hc leftTyped) (HasType.renamed hfresh hc rightTyped)
      leftIntegral rightIntegral
  | _, _, .print formatTyped argsTyped => by
    rw [Expr.renamed, Expr.renamedAll]
    exact .print (HasType.renamed hfresh hc formatTyped) (HasTypes.renamed hfresh hc argsTyped)
  | _, _, .call notPrint declared argsTyped fit => by
    rw [Expr.renamed]
    exact .call notPrint declared (HasTypes.renamed hfresh hc argsTyped) fit

theorem HasTypes.renamed (hfresh : Function.Injective fresh) (hc : c.Valid) :
    ∀ {es : List Expr} {ts : List Ty}, HasTypes c.signatures c.view es ts →
      HasTypes c.signatures (c.freshView fresh) (Expr.renamedAll fresh c es) ts
  | _, _, .nil => by
    rw [Expr.renamedAll]
    exact .nil
  | _, _, .cons typed notVoid rest => by
    rw [Expr.renamedAll]
    exact .cons (HasType.renamed hfresh hc typed) notVoid (HasTypes.renamed hfresh hc rest)

end

theorem IsIntegral.renamed (hfresh : Function.Injective fresh) (hc : c.Valid) {e : Expr}
    (h : IsIntegral c.signatures c.view e) :
    IsIntegral c.signatures (c.freshView fresh) (e.renamed fresh c) := by
  obtain ⟨t, typed, integral⟩ := h
  exact ⟨t, HasType.renamed hfresh hc typed, integral⟩

theorem Fits.renamed (hfresh : Function.Injective fresh) (hc : c.Valid) {expected : Ty} {e : Expr}
    (h : Fits c.signatures c.view expected e) :
    Fits c.signatures (c.freshView fresh) expected (e.renamed fresh c) := by
  obtain ⟨t, typed, notVoid, fits⟩ := h
  exact ⟨t, HasType.renamed hfresh hc typed, notVoid, fits⟩

theorem HasSomeType.renamed (hfresh : Function.Injective fresh) (hc : c.Valid) {e : Expr}
    (h : HasSomeType c.signatures c.view e) :
    HasSomeType c.signatures (c.freshView fresh) (e.renamed fresh c) := by
  obtain ⟨t, typed⟩ := h
  exact ⟨t, HasType.renamed hfresh hc typed⟩

theorem VarDecl.Ok.renamed (hfresh : Function.Injective fresh) (hc : c.Valid) {d : VarDecl}
    (h : d.Ok c.signatures c.view) :
    (d.renamed fresh c).Ok c.signatures (c.freshView fresh) where
  notVoid := h.notVoid
  free := by
    show (c.freshView fresh).FreeHere (((Check.varDecl d).after c).nameOf fresh d.name)
    rw [(Check.varDecl_declares hc h).nameOf hc]
    exact Checker.freshView_freeHere hfresh hc
  init := by
    intro e he
    obtain ⟨e', he', rfl⟩ := Option.map_eq_some_iff.mp he
    exact Fits.renamed hfresh hc (h.init e' he')

/-- The names in scope behind a declaration. -/
theorem VarDecl.Ok.freshView (hc : c.Valid) {d : VarDecl} (h : d.Ok c.signatures c.view) :
    ((Check.varDecl d).after c).freshView fresh =
      (c.freshView fresh).declare (d.renamed fresh c).name (d.renamed fresh c).type := by
  have hdeclares := Check.varDecl_declares hc h
  obtain ⟨hs, -, hview, -⟩ := Check.varDecl_accepts hc h
  show _ = (c.freshView fresh).declare (((Check.varDecl d).after c).nameOf fresh d.name) d.type
  rw [hdeclares.freshView hs hc hview, hdeclares.nameOf hc]

theorem ForInit.Ok.renamed (hfresh : Function.Injective fresh) (hc : c.Valid)
    {init : Option ForInit} {Γ : TypeScopes} (h : ForInit.Ok c.signatures c.view init Γ) :
    ForInit.Ok c.signatures (c.freshView fresh) (init.map (ForInit.renamed fresh c))
      (((Check.forInit init).after c).freshView fresh) := by
  cases h with
  | none => exact .none
  | eval typed =>
    obtain ⟨t, typed⟩ := typed
    obtain ⟨hs, -, -, hsame⟩ := Check.expr_accepts hc typed
    have hview : ((Check.forInit (some (.eval _))).after c).freshView fresh = c.freshView fresh :=
      (hsame.alike hs).freshView hc
    rw [hview]
    exact .eval (HasSomeType.renamed hfresh hc ⟨t, typed⟩)
  | declare ok =>
    have hview : ((Check.forInit (some (.declare _))).after c).freshView fresh = _ :=
      VarDecl.Ok.freshView hc ok
    rw [hview]
    exact .declare (VarDecl.Ok.renamed hfresh hc ok)

end Rules

/-! ## What renaming leaves alone -/

mutual

theorem Stmt.exit_renamed : ∀ (s : Stmt) (c : Checker) (r : Bool), (s.renamed fresh c r).exit = s.exit
  | .declare _, _, _ | .eval _ _, _, _ | .branch _ _ none _, _, _ | .whileLoop _ _ _, _, _
  | .forLoop _ _ _ _ _, _, _ | .switch _ _ _, _, _ | .ret _ _, _, _ | .brk _, _, _ => by
    simp only [Stmt.renamed, Stmt.exit]
  | .block body _, _, _ => by
    simp only [Stmt.renamed, Stmt.exit, Stmt.listExit_renamed body]
  | .branch _ onTrue (some onFalse) _, _, _ => by
    simp only [Stmt.renamed, Stmt.exit, Stmt.exit_renamed onTrue, Stmt.exit_renamed onFalse]

theorem Stmt.listExit_renamed : ∀ (body : List Stmt) (c : Checker) (r : Bool),
    Stmt.listExit (Stmt.renamedAll fresh c r body) = Stmt.listExit body
  | [], _, _ => by simp only [Stmt.renamedAll]
  | s :: rest, _, _ => by
    simp only [Stmt.renamedAll, Stmt.listExit, Stmt.exit_renamed s, Stmt.listExit_renamed rest]

end

mutual

theorem Stmt.returnsValue_renamed : ∀ (s : Stmt) (c : Checker) (r : Bool),
    (s.renamed fresh c r).returnsValue = s.returnsValue
  | .declare _, _, _ | .eval _ _, _, _ | .brk _, _, _ | .ret none _, _, _ | .ret (some _) _, _, _ => by
    simp only [Stmt.renamed, Stmt.returnsValue, Option.map_none, Option.map_some]
  | .block body _, _, _ => by
    simp only [Stmt.renamed, Stmt.returnsValue, Stmt.listReturnsValue_renamed body]
  | .branch _ onTrue none _, _, _ => by
    simp only [Stmt.renamed, Stmt.returnsValue, Stmt.returnsValue_renamed onTrue]
  | .branch _ onTrue (some onFalse) _, _, _ => by
    simp only [Stmt.renamed, Stmt.returnsValue, Stmt.returnsValue_renamed onTrue,
      Stmt.returnsValue_renamed onFalse]
  | .whileLoop _ body _, _, _ => by
    simp only [Stmt.renamed, Stmt.returnsValue, Stmt.returnsValue_renamed body]
  | .forLoop _ _ _ body _, _, _ => by
    simp only [Stmt.renamed, Stmt.returnsValue, Stmt.returnsValue_renamed body]
  | .switch _ groups _, _, _ => by
    simp only [Stmt.renamed, Stmt.returnsValue, CaseGroup.listReturnsValue_renamed groups]

theorem Stmt.listReturnsValue_renamed : ∀ (body : List Stmt) (c : Checker) (r : Bool),
    Stmt.listReturnsValue (Stmt.renamedAll fresh c r body) = Stmt.listReturnsValue body
  | [], _, _ => by simp only [Stmt.renamedAll]
  | s :: rest, _, _ => by
    simp only [Stmt.renamedAll, Stmt.listReturnsValue, Stmt.returnsValue_renamed s,
      Stmt.exit_renamed s, Stmt.listReturnsValue_renamed rest]

theorem CaseGroup.listReturnsValue_renamed : ∀ (groups : List CaseGroup) (c : Checker) (r : Bool),
    CaseGroup.listReturnsValue (CaseGroup.renamedAll fresh c r groups) =
      CaseGroup.listReturnsValue groups
  | [], _, _ => by simp only [CaseGroup.renamedAll]
  | .mk label body pos :: rest, _, _ => by
    simp only [CaseGroup.renamedAll, CaseGroup.listReturnsValue, Stmt.listReturnsValue_renamed body,
      CaseGroup.listReturnsValue_renamed rest]

end

theorem CaseGroup.labels_renamed : ∀ (groups : List CaseGroup) (c : Checker) (r : Bool),
    (CaseGroup.renamedAll fresh c r groups).map CaseGroup.label = groups.map CaseGroup.label
  | [], _, _ => by simp only [CaseGroup.renamedAll]
  | .mk label body pos :: rest, _, _ => by
    simp only [CaseGroup.renamedAll, List.map_cons, CaseGroup.label, CaseGroup.labels_renamed rest]

/-- Whether labels keep the rules depends on the labels alone. -/
theorem CaseGroup.LabelsOk.of_labels {t : Ty} {groups groups' : List CaseGroup}
    (h : CaseGroup.LabelsOk t groups)
    (hlabels : groups'.map CaseGroup.label = groups.map CaseGroup.label) :
    CaseGroup.LabelsOk t groups' := by
  have hconstants : groups'.filterMap CaseGroup.label = groups.filterMap CaseGroup.label := by
    have := congrArg (List.filterMap id) hlabels
    rwa [List.filterMap_map, List.filterMap_map] at this
  have hdefaults : (groups'.filter fun g => g.label.isNone).length =
      (groups.filter fun g => g.label.isNone).length := by
    have := congrArg (List.countP Option.isNone) hlabels
    rwa [List.countP_map, List.countP_map, List.countP_eq_length_filter,
      List.countP_eq_length_filter] at this
  constructor
  · rw [hconstants]
    exact h.typed
  · rw [hconstants]
    exact h.distinct
  · rw [hdefaults]
    exact h.oneDefault

/-! ## Statements -/

section Statements

variable {returns : Ty}

/-- A statement that declares nothing keeps the rules in every state with the same names in scope. -/
theorem Check.Stands.renamed {c c₁ : Checker} {l : Bool} {s : Stmt} {r : Bool}
    (h : Check.Stands c c₁ returns l s) (hc : c.Valid)
    (hok : Stmt.Ok c₁.signatures returns l (c₁.freshView fresh) (s.renamed fresh c₁ r)
      (((Check.stmt r s).after c₁).freshView fresh)) :
    Stmt.Ok c.signatures returns l (c.freshView fresh) (s.renamed fresh c₁ r)
      (c.freshView fresh) := by
  rw [(Check.stmt_alike h.inside r h.ok).freshView h.inside.valid, h.alike.freshView hc,
    h.alike.signatures] at hok
  exact hok

mutual

theorem Stmt.Ok.renamed (hfresh : Function.Injective fresh) :
    ∀ (s : Stmt) {c : Checker} {inLoop : Bool} {Γ : TypeScopes} (r : Bool),
      c.Inside returns inLoop → Stmt.Ok c.signatures returns inLoop c.view s Γ →
      Stmt.Ok c.signatures returns inLoop (c.freshView fresh) (s.renamed fresh c r)
        (((Check.stmt r s).after c).freshView fresh)
  | .declare d, c, inLoop, _, r, h, .declare ok => by
    -- a declaration is the one statement after which the names in scope differ
    have hafter : (Check.stmt r (.declare d)).after c = (Check.varDecl d).after c := rfl
    rw [Stmt.renamed, hafter, VarDecl.Ok.freshView h.valid ok]
    exact .declare (VarDecl.Ok.renamed hfresh h.valid ok)
  | .eval e pos, c, inLoop, _, r, h, .eval typed => by
    rw [(Check.stmt_alike h r (.eval typed)).freshView h.valid, Stmt.renamed]
    exact .eval (HasSomeType.renamed hfresh h.valid typed)
  | .block body pos, c, inLoop, _, r, h, .block bodyOk => by
    rw [(Check.stmt_alike h r (.block bodyOk)).freshView h.valid, Stmt.renamed]
    exact .block (Stmt.ListOk.renamed hfresh body r h.pushScope bodyOk)
  | .branch cond onTrue none pos, c, inLoop, _, r, h, .branch condOk onTrueOk => by
    rw [(Check.stmt_alike h r (.branch condOk onTrueOk)).freshView h.valid, Stmt.renamed]
    have hTrue := Check.branch_stands h condOk onTrueOk
    refine .branch (IsIntegral.renamed hfresh h.valid condOk) ?_
    exact hTrue.renamed h.valid (Stmt.Ok.renamed hfresh onTrue r hTrue.inside hTrue.ok)
  | .branch cond onTrue (some onFalse) pos, c, inLoop, _, r, h,
      .branchElse condOk onTrueOk onFalseOk => by
    rw [(Check.stmt_alike h r (.branchElse condOk onTrueOk onFalseOk)).freshView h.valid,
      Stmt.renamed]
    have hTrue := Check.branch_stands h condOk onTrueOk
    have hFalse := Check.branchElse_stands h r condOk onTrueOk onFalseOk
    refine .branchElse (IsIntegral.renamed hfresh h.valid condOk) ?_ ?_
    · exact hTrue.renamed h.valid (Stmt.Ok.renamed hfresh onTrue r hTrue.inside hTrue.ok)
    · exact hFalse.renamed h.valid (Stmt.Ok.renamed hfresh onFalse r hFalse.inside hFalse.ok)
  | .whileLoop cond body pos, c, inLoop, _, r, h, .whileLoop condOk bodyOk => by
    rw [(Check.stmt_alike h r (.whileLoop condOk bodyOk)).freshView h.valid, Stmt.renamed]
    have hbody := Check.whileLoop_stands h condOk bodyOk
    refine .whileLoop (IsIntegral.renamed hfresh h.valid condOk) ?_
    exact hbody.renamed h.valid (Stmt.Ok.renamed hfresh body r hbody.inside hbody.ok)
  | .forLoop init cond step body pos, c, inLoop, _, r, h,
      .forLoop initOk condOk stepOk bodyOk => by
    rw [(Check.stmt_alike h r (.forLoop initOk condOk stepOk bodyOk)).freshView h.valid,
      Stmt.renamed]
    have hinit := ForInit.Ok.renamed hfresh h.pushScope.valid initOk
    have hsigs : ((Check.forInit init).after c.pushScope).signatures = c.signatures :=
      (Check.forInit_inside h.pushScope initOk).2.1
    have hstands := Check.forLoop_stands h initOk condOk stepOk bodyOk
    -- the state after `init` is that in which condition, step and body are checked
    generalize (Check.forInit init).after c.pushScope = c₁ at hinit hsigs hstands ⊢
    refine .forLoop hinit ?_ ?_ ?_
    all_goals rw [← hsigs]
    · intro e he
      obtain ⟨e', he', rfl⟩ := Option.map_eq_some_iff.mp he
      exact IsIntegral.renamed hfresh hstands.inside.valid (hstands.condOk e' he')
    · intro e he
      obtain ⟨e', he', rfl⟩ := Option.map_eq_some_iff.mp he
      rw [← hstands.stepAlike.signatures, ← hstands.stepAlike.freshView hstands.inside.valid]
      exact HasSomeType.renamed hfresh hstands.stepInside.valid (hstands.stepOk e' he')
    · exact hstands.body.renamed hstands.inside.valid
        (Stmt.Ok.renamed hfresh body r hstands.body.inside hstands.body.ok)
  | .switch e groups pos, c, inLoop, _, r, h, .switch typed integral labelsOk groupsOk => by
    rw [(Check.stmt_alike h r (.switch typed integral labelsOk groupsOk)).freshView h.valid,
      Stmt.renamed]
    -- the state in front of the groups is alike, so the new names are those of the statement
    obtain ⟨h₁, hin₁, groupsOk⟩ := Check.switch_stands h typed integral labelsOk groupsOk rfl
    refine .switch (HasType.renamed hfresh h.valid typed) integral
      (labelsOk.of_labels (CaseGroup.labels_renamed groups _ r)) ?_
    rw [← h₁.signatures, ← h₁.freshView h.valid]
    exact CaseGroup.ListOk.renamed hfresh groups r hin₁ groupsOk
  | .ret (some e) pos, c, inLoop, _, r, h, .ret notVoid fits => by
    rw [(Check.stmt_alike h r (.ret notVoid fits)).freshView h.valid, Stmt.renamed]
    exact .ret notVoid (Fits.renamed hfresh h.valid fits)
  | .ret none pos, c, inLoop, _, r, h, .retVoid isVoid => by
    rw [(Check.stmt_alike h r (.retVoid isVoid)).freshView h.valid, Stmt.renamed]
    exact .retVoid isVoid
  | .brk pos, c, _, _, r, h, .brk => by
    rw [(Check.stmt_alike h r .brk).freshView h.valid, Stmt.renamed]
    exact .brk

theorem Stmt.ListOk.renamed (hfresh : Function.Injective fresh) :
    ∀ (body : List Stmt) {c : Checker} {inLoop : Bool} {Γ : TypeScopes} (r : Bool),
      c.Inside returns inLoop → Stmt.ListOk c.signatures returns inLoop c.view body Γ →
      Stmt.ListOk c.signatures returns inLoop (c.freshView fresh) (Stmt.renamedAll fresh c r body)
        (((Check.stmts r body).after c).freshView fresh)
  | [], c, inLoop, _, r, h, .nil => by
    rw [Stmt.renamedAll]
    exact .nil
  | s :: rest, c, inLoop, _, r, h, .cons head tail => by
    rw [Stmt.renamedAll]
    obtain ⟨hs, hwalk⟩ := Check.stmt_walked h r head
    rw [← hwalk.view, ← hs.signatures] at tail
    refine .cons (Stmt.Ok.renamed hfresh s r h head) ?_
    rw [← hs.signatures]
    exact Stmt.ListOk.renamed hfresh rest _ (Check.stmt_inside h r head) tail

theorem CaseGroup.ListOk.renamed (hfresh : Function.Injective fresh) :
    ∀ (groups : List CaseGroup) {c : Checker} (r : Bool), c.Inside returns true →
      CaseGroup.ListOk c.signatures returns c.view groups →
      CaseGroup.ListOk c.signatures returns (c.freshView fresh)
        (CaseGroup.renamedAll fresh c r groups)
  | [], c, r, h, .nil => by
    rw [CaseGroup.renamedAll]
    exact .nil
  | .mk label body pos :: rest, c, r, h, .cons bodyOk tail => by
    rw [CaseGroup.renamedAll]
    obtain ⟨h₁, hin₁⟩ := Check.stmts_inside h r bodyOk
    have hbody := Stmt.ListOk.renamed hfresh body r h bodyOk
    rw [h₁.freshView h.valid] at hbody
    rw [← h₁.view, ← h₁.signatures] at tail
    refine .cons hbody ?_
    rw [← h₁.signatures, ← h₁.freshView h.valid]
    exact CaseGroup.ListOk.renamed hfresh rest r hin₁ tail

end

end Statements

/-! ## Functions -/

theorem Param.types_renamed : ∀ (params : List Param) (c : Checker),
    (Param.renamedAll fresh c params).map Param.type = params.map Param.type
  | [], _ => rfl
  | p :: params, _ => congrArg (p.type :: ·) (Param.types_renamed params _)

theorem FunctionDef.type_renamed (f : FunctionDef) (c : Checker) :
    (f.renamed fresh c).type = f.type := by
  unfold FunctionDef.type
  exact congrArg (FunctionType.mk · f.returns) (Param.types_renamed f.params _)

/-- The names in scope behind parameters. -/
theorem Param.declareAll_renamed : ∀ {params : List Param} {c : Checker}, Check.ParamsOk c params →
    Param.declareAll (c.freshView fresh) (Param.renamedAll fresh c params) =
      ((params.forM Check.param).after c).freshView fresh
  | [], _, _ => rfl
  | p :: params, c, h => by
    obtain ⟨hs, hdeclares, hview, htail⟩ := h.declares
    show Param.declareAll ((c.freshView fresh).declare _ p.type) (Param.renamedAll fresh _ params) =
      ((params.forM Check.param).after ((Check.param p).after c)).freshView fresh
    rw [hdeclares.nameOf h.valid, ← hdeclares.freshView hs h.valid hview]
    exact Param.declareAll_renamed htail

/-- Parameters are named after the next symbols in a row. -/
theorem Param.numbers_renamed : ∀ {params : List Param} {c : Checker}, Check.ParamsOk c params →
    c.Numbers fresh ((Param.renamedAll fresh c params).map Param.name)
      ((params.forM Check.param).after c)
  | [], _, _ => .nil rfl
  | p :: params, c, h => by
    obtain ⟨-, hdeclares, -, htail⟩ := h.declares
    show c.Numbers fresh ([((Check.param p).after c).nameOf fresh p.name] ++ _)
      ((params.forM Check.param).after ((Check.param p).after c))
    rw [hdeclares.nameOf h.valid]
    exact (Checker.Numbers.of_declares hdeclares).append (Param.numbers_renamed htail)

section Functions

variable {sigs : Signatures} {c : Checker} {g : TypeScope} {f : FunctionDef}

/-- The names in scope in the body of a renamed function. -/
theorem FunctionDef.Ok.freshView_enter (h : c.AtTop sigs) (hf : f.Ok sigs g) :
    (c.enterFunction f).freshView fresh = (f.renamed fresh c).paramScope :: c.freshView fresh := by
  have hparams := Check.paramsOk_of_ok h.atItems hf
  have hdeclared := Param.declareAll_cons [] (c.freshView fresh) (f.renamed fresh c).params
  rw [List.append_nil] at hdeclared
  exact (Param.declareAll_renamed hparams).symm.trans hdeclared

theorem FunctionDef.Ok.renamed (hfresh : Function.Injective fresh) (h : c.AtTop sigs)
    (hview : c.view = [g]) (hf : f.Ok sigs g) {g' : TypeScope} (hfreshView : c.freshView fresh = [g']) :
    (f.renamed fresh c).Ok sigs g' where
  notVoid := by
    intro p hp
    have htype : p.type ∈ f.params.map Param.type := by
      rw [← Param.types_renamed f.params (c.enterRoutine f.name).pushScope]
      exact List.mem_map_of_mem hp
    obtain ⟨q, hq, hqp⟩ := List.mem_map.mp htype
    rw [← hqp]
    exact hf.notVoid q hq
  -- the parameters are new symbols, and different numbers have different names
  distinct := (Param.numbers_renamed (Check.paramsOk_of_ok h.atItems hf)).nodup hfresh
  body := by
    obtain ⟨hin, hsigs, hviewBody⟩ := h.enterFunction hview hf
    obtain ⟨Γ, hbody⟩ := hf.body
    rw [← hsigs, ← hviewBody] at hbody
    have hrenamed := Stmt.ListOk.renamed hfresh f.body true hin hbody
    rw [hsigs, FunctionDef.Ok.freshView_enter h hf, hfreshView] at hrenamed
    exact ⟨_, hrenamed⟩
  returns := by
    intro hvoid hmain
    show Stmt.listReturnsValue (Stmt.renamedAll fresh (c.enterFunction f) true f.body) = true
    rw [Stmt.listReturnsValue_renamed]
    exact hf.returns hvoid hmain

end Functions

/-! ## Programs -/

/-- Items that keep the rules keep them under the new names. -/
theorem Item.Walk.renamed (hfresh : Function.Injective fresh) {sigs : Signatures} {c c' : Checker}
    {items : List Item} (h : Item.Walk sigs c items c') :
    ∀ {g : TypeScope}, c.freshView fresh = [g] →
      ∃ g', Item.ListOk sigs g (Item.renamedAll fresh c items) g' := by
  induction h with
  | nil => exact fun _ => ⟨_, .nil⟩
  | @global c c' d rest top ok _ ih =>
    intro g hg
    have hvalid := top.atItems.valid
    have ok : d.Ok c.signatures c.view := top.signatures ▸ ok
    have hrenamed := VarDecl.Ok.renamed hfresh hvalid ok
    have hafter : ((Check.varDecl d).after c).freshView fresh = (c.freshView fresh).declare _ d.type :=
      ok.freshView hvalid
    rw [hg] at hafter hrenamed
    rw [top.signatures] at hrenamed
    obtain ⟨g', htail⟩ := ih hafter
    exact ⟨g', .global hrenamed htail⟩
  | @function c c' g₀ f rest top view ok _ ih =>
    intro g hg
    -- what is declared in a function is out of scope behind it
    obtain ⟨halike, -⟩ := top.function_alike view ok
    obtain ⟨g', htail⟩ := ih ((halike.freshView top.atItems.valid).trans hg)
    exact ⟨g', .function (FunctionDef.Ok.renamed hfresh top view ok hg) htail⟩

/-- The second function is the first one, renamed where it stands in a program with the globals `G`. -/
inductive FunctionDef.Renames (fresh : Nat → String) (sigs : Signatures) (G : StaticScope) :
    FunctionDef → FunctionDef → Prop where
  | intro {c : Checker} {g : TypeScope} {scope : StaticScope} {f : FunctionDef} (top : c.AtTop sigs)
    (view : c.view = [g]) (ok : f.Ok sigs g) (scopes : c.scopes = [scope])
    (within : StaticScope.Within scope G) : FunctionDef.Renames fresh sigs G f (f.renamed fresh c)

theorem FunctionDef.Renames.name {sigs : Signatures} {G : StaticScope} {f f' : FunctionDef}
    (h : FunctionDef.Renames fresh sigs G f f') : f'.name = f.name := by
  cases h
  rfl

theorem FunctionDef.Renames.type {sigs : Signatures} {G : StaticScope} {f f' : FunctionDef}
    (h : FunctionDef.Renames fresh sigs G f f') : f'.type = f.type := by
  cases h
  exact FunctionDef.type_renamed f _

/-- Renaming goes function by function. -/
theorem Item.Walk.functions {sigs : Signatures} {c c' : Checker} {items : List Item}
    (h : Item.Walk sigs c items c') {G : StaticScope} (hG : c'.scopes = [G]) :
    List.Forall₂ (FunctionDef.Renames fresh sigs G) (Item.functions items)
      (Item.functions (Item.renamedAll fresh c items)) := by
  induction h with
  | nil => exact .nil
  | global _ _ _ ih => exact ih hG
  | @function c c' g f rest top view ok tail ih =>
    obtain ⟨scope, hscope⟩ := top.atItems.scopes_eq
    have hwithin := (Item.Walk.function top view ok tail).within hG hscope
    exact .cons (.intro top view ok hscope hwithin) (ih hG)

namespace FunctionDef

variable {sigs : Signatures} {G : StaticScope} {fs fs' : List FunctionDef}

theorem names_eq_of_renames (h : List.Forall₂ (Renames fresh sigs G) fs fs') :
    fs'.map FunctionDef.name = fs.map FunctionDef.name := by
  induction h with
  | nil => rfl
  | cons head _ ih => rw [List.map_cons, List.map_cons, head.name, ih]

/-- A name means a function and its counterpart, or nothing on both sides. -/
theorem find?_of_renames (h : List.Forall₂ (Renames fresh sigs G) fs fs') (name : String) :
    (∃ f f', fs.find? (fun f => f.name == name) = some f ∧
        fs'.find? (fun f => f.name == name) = some f' ∧ Renames fresh sigs G f f') ∨
      fs.find? (fun f => f.name == name) = none ∧ fs'.find? (fun f => f.name == name) = none := by
  induction h with
  | nil => exact .inr ⟨rfl, rfl⟩
  | @cons f f' fs fs' head _ ih =>
    rw [List.find?_cons, List.find?_cons, head.name]
    cases f.name == name with
    | true => exact .inl ⟨f, f', rfl, rfl, head⟩
    | false => exact ih

end FunctionDef

namespace Program

variable {p : Program} {c : Checker} {G : StaticScope}

/-- A renamed program declares the same functions. -/
theorem signatures_renamed (h : Item.Walk p.signatures (Checker.registered p) p.items c)
    (hG : c.scopes = [G]) : (p.renamed fresh).signatures = p.signatures := by
  funext name
  obtain ⟨f, f', hf, hf', hrenames⟩ | ⟨hf, hf'⟩ := FunctionDef.find?_of_renames (h.functions hG) name
  · exact (congrArg (Option.map FunctionDef.type) hf').trans
      ((congrArg some hrenames.type).trans (congrArg (Option.map FunctionDef.type) hf).symm)
  · exact (congrArg (Option.map FunctionDef.type) hf').trans
      (congrArg (Option.map FunctionDef.type) hf).symm

/-- A program that keeps the rules keeps them under the new names. -/
theorem Ok.renamed (hfresh : Function.Injective fresh) (h : p.Ok) : (p.renamed fresh).Ok := by
  obtain ⟨c, hwalk⟩ := h.walk
  obtain ⟨G, hG⟩ := hwalk.atTop_end.atItems.scopes_eq
  have hnames : (p.renamed fresh).functions.map FunctionDef.name = p.functions.map FunctionDef.name :=
    FunctionDef.names_eq_of_renames (hwalk.functions hG)
  constructor
  case distinct =>
    rw [hnames]
    exact h.distinct
  case notBuiltin =>
    intro f' hf'
    have hname : f'.name ∈ p.functions.map FunctionDef.name := by
      rw [← hnames]
      exact List.mem_map_of_mem hf'
    obtain ⟨f, hf, he⟩ := List.mem_map.mp hname
    rw [← he]
    exact h.notBuiltin f hf
  case items =>
    rw [signatures_renamed hwalk hG]
    -- nothing is in scope when the first item is checked
    refine hwalk.renamed hfresh (g := []) ?_
    rw [Checker.freshView, Checker.registered_scopes]
    rfl

end Program

end Primer
