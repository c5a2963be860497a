import Mathlib.Data.List.Nodup
import Primer.Proofs.Naming.Renaming
import Primer.Proofs.Typing.Complete

/-!
# The numbers of symbols along the walk

Every declaration adds one symbol, whose number is the number of symbols before it, and binds its name
to it in the innermost scope. So the names in scope always have different symbols, although the same
name may stand for several of them in different scopes.

- `Checker.Distinct` says that the names in scope have different symbols.
- `Checker.Declares` says what a declaration does to the scopes.
- `Checker.Numbers` says which names the symbols have that are added between two states.
- `Checker.Inside` collects what is known of a state inside a function, and `Check.stmt_inside` says
  that statements which keep the rules lead from one such state to another.
- `Check.Stands` says in which state a part of a statement is checked.
- `Item.Walk` is the walk over the items of a program, and `Item.Walk.within` says that a global keeps
  its symbol to the end of the program.
-/

namespace Primer

/-- The names in these scopes have different symbols. -/
def DistinctSymbols (Δ : List StaticScope) : Prop :=
  (Δ.flatten.map Prod.snd).Nodup

section Distinct

variable {S : StaticScope} {Δ : List StaticScope}

theorem DistinctSymbols.append (h : DistinctSymbols (S :: Δ)) :
    (S.map Prod.snd ++ Δ.flatten.map Prod.snd).Nodup := by
  rw [← List.map_append]
  exact h

theorem DistinctSymbols.head (h : DistinctSymbols (S :: Δ)) : (S.map Prod.snd).Nodup :=
  (List.nodup_append.mp h.append).1

theorem DistinctSymbols.tail (h : DistinctSymbols (S :: Δ)) : DistinctSymbols Δ :=
  (List.nodup_append.mp h.append).2.1

end Distinct

namespace Checker

variable {c c' : Checker} {name : String}

/-- The names in scope have different symbols. -/
def Distinct (c : Checker) : Prop :=
  DistinctSymbols c.scopes

/-- A name was declared in the innermost scope, with a symbol of its own. -/
structure Declares (c : Checker) (name : String) (c' : Checker) : Prop where
  scopes : c'.scopes = c.scopes.modifyHead ((name, c.symbols.length) :: ·)
  symbols : c'.symbols.length = c.symbols.length + 1

theorem Declares.cons (h : c.Declares name c') {scope : StaticScope} {outer : List StaticScope}
    (hs : c.scopes = scope :: outer) :
    c'.scopes = ((name, c.symbols.length) :: scope) :: outer := by
  rw [h.scopes, hs]
  rfl

theorem Declares.tail (h : c.Declares name c') : c'.scopes.tail = c.scopes.tail := by
  rw [h.scopes]
  cases c.scopes <;> rfl

theorem Valid.scopes_eq (hc : c.Valid) : ∃ scope outer, c.scopes = scope :: outer :=
  List.exists_cons_of_ne_nil hc.open_

theorem symbolOf?_cons (S : StaticScope) (outer : List StaticScope) (name : String) :
    symbolOf? (S :: outer) name = (S.lookup name).or (symbolOf? outer name) := by
  rw [symbolOf?, List.findSome?_cons]
  cases S.lookup name <;> rfl

theorem mem_of_symbolOf? {scopes : List StaticScope} {k : Nat} (h : symbolOf? scopes name = some k) :
    ∃ scope ∈ scopes, k ∈ scope.map Prod.snd := by
  obtain ⟨scope, hscope, hlookup⟩ := List.exists_of_findSome?_eq_some h
  exact ⟨scope, hscope, List.mem_map.mpr ⟨_, Lookup.mem_of_lookup hlookup, rfl⟩⟩

/-- A symbol of an outer scope is not one of the inner scope. -/
theorem not_mem_of_distinct {S : StaticScope} {Δ : List StaticScope} {k : Nat}
    (h : DistinctSymbols (S :: Δ)) (hk : symbolOf? Δ name = some k) : k ∉ S.map Prod.snd := by
  intro hmem
  obtain ⟨scope, hscope, hkscope⟩ := mem_of_symbolOf? hk
  obtain ⟨b, hb, rfl⟩ := List.mem_map.mp hkscope
  have houter : b.2 ∈ Δ.flatten.map Prod.snd :=
    List.mem_map_of_mem (List.mem_flatten_of_mem hscope hb)
  exact (List.nodup_append.mp h.append).2.2 b.2 hmem b.2 houter rfl

theorem nameOf_of_symbol {fresh : Nat → String} {k : Nat} (h : symbolOf? c.scopes name = some k) :
    c.nameOf fresh name = fresh k := by
  rw [nameOf, h]
  rfl

theorem symbol_of_type? (hc : c.Valid) {t : Ty} (h : c.view.type? name = some t) :
    ∃ k, symbolOf? c.scopes name = some k := by
  rw [view_type? hc] at h
  obtain ⟨k, hk, -⟩ := Option.bind_eq_some_iff.mp h
  exact ⟨k, hk⟩

/-- The declared name means the new symbol. -/
theorem Declares.symbolOf? (h : c.Declares name c') (hc : c.Valid) :
    symbolOf? c'.scopes name = some c.symbols.length := by
  obtain ⟨scope, outer, hs⟩ := hc.scopes_eq
  rw [h.cons hs, symbolOf?_cons, Lookup.lookup_cons, if_pos rfl]
  rfl

theorem Declares.nameOf (h : c.Declares name c') (hc : c.Valid) (fresh : Nat → String) :
    c'.nameOf fresh name = fresh c.symbols.length :=
  nameOf_of_symbol (h.symbolOf? hc)

theorem Declares.distinct (h : c.Declares name c') (hc : c.Valid) (hd : c.Distinct) :
    c'.Distinct := by
  obtain ⟨scope, outer, hs⟩ := hc.scopes_eq
  have hbound := hc.bound
  unfold Distinct at hd ⊢
  rw [hs] at hd hbound
  rw [h.cons hs]
  refine List.nodup_cons.mpr ⟨fun hm => ?_, hd⟩
  -- the new number is larger than all numbers in scope
  obtain ⟨b, hb, hnumber⟩ := List.mem_map.mp hm
  have hb : b ∈ (scope :: outer).flatten := hb
  obtain ⟨scope', hscope', hb⟩ := List.mem_flatten.mp hb
  have hlt : b.2 < c.symbols.length := hbound scope' hscope' b hb
  exact Nat.lt_irrefl _ (hnumber ▸ hlt)

theorem Same.symbols_length (h : c.Same c') : c'.symbols.length = c.symbols.length := by
  simpa using congrArg List.length h.types

theorem Same.declares {c₁ : Checker} (h : c.Same c₁) (h' : c₁.Declares name c') :
    c.Declares name c' := by
  constructor
  · rw [h'.scopes, h.scopes, h.symbols_length]
  · rw [h'.symbols, h.symbols_length]

theorem declare_declares (hc : c.Valid) (h : c.view.FreeHere name) (kind : SymbolKind) (type : Ty)
    (pos : Position) : c.Declares name (c.declare name kind type pos) := by
  obtain ⟨scope, outer, hs⟩ := hc.scopes_eq
  rw [declare_of_free kind type pos ((freeHere_iff c name).mp h)]
  constructor
  · simp [bind, addSymbol, hs]
  · simp [bind, addSymbol, hs]

end Checker

namespace Check

variable {c : Checker}

theorem varDecl_declares {d : VarDecl} (hc : c.Valid) (h : d.Ok c.signatures c.view) :
    c.Declares d.name ((varDecl d).after c) := by
  have haccepts : Accepts (varDecl d) c fun _ c' => c.Declares d.name c' := by
    refine bind_accepts (reportIf_accepts (by simpa using h.notVoid)) ?_
    rintro _ _ - rfl
    cases hinit : d.init with
    | none =>
      exact ⟨(declare_accepts hc h.free).1, (declare_accepts hc h.free).2.1,
        Checker.declare_declares hc h.free ..⟩
    | some e =>
      obtain ⟨t, typed, notVoid, fits⟩ := h.init e hinit
      refine bind_accepts (value_accepts hc typed notVoid) ?_
      rintro _ c₁ s₁ ⟨rfl, h₁⟩
      rw [if_pos h.notVoid]
      refine bind_accepts (requireType_accepts fits) ?_
      rintro _ _ - rfl
      -- checking the initial value declares nothing, so the name is still free
      have hfree := h.free
      rw [← h₁.view] at hfree
      have hc₁ := s₁.valid hc
      exact ⟨(declare_accepts hc₁ hfree).1, (declare_accepts hc₁ hfree).2.1,
        h₁.declares (Checker.declare_declares hc₁ hfree ..)⟩
  exact haccepts.2.2

theorem param_declares {p : Param} (hc : c.Valid) (hvoid : p.type ≠ .void)
    (hfree : c.view.FreeHere p.name) : c.Declares p.name ((param p).after c) := by
  have hreport : (p.type == .void) = false := by simpa using hvoid
  have hafter : (param p).after c = c.declare p.name .parameter p.type p.pos := by
    unfold param after
    rw [hreport]
    rfl
  rw [hafter]
  exact Checker.declare_declares hc hfree ..

end Check

/-! ## Names in a row -/

/-- From `c` to `c'` one symbol is added for each of the names, and they are the names of these symbols,
in this order. -/
structure Checker.Numbers (fresh : Nat → String) (c : Checker) (names : List String) (c' : Checker) :
    Prop where
  symbols : c'.symbols.length = c.symbols.length + names.length
  names : names = (List.range' c.symbols.length names.length).map fresh

namespace Checker.Numbers

variable {fresh : Nat → String} {c c₁ c' : Checker} {names names' : List String}

theorem nil (h : c'.symbols.length = c.symbols.length) : c.Numbers fresh [] c' :=
  ⟨h, rfl⟩

theorem of_declares {name : String} (h : c.Declares name c') :
    c.Numbers fresh [fresh c.symbols.length] c' :=
  ⟨h.symbols, rfl⟩

theorem append (h : c.Numbers fresh names c₁) (h' : c₁.Numbers fresh names' c') :
    c.Numbers fresh (names ++ names') c' := by
  have hnames := h.names
  have hnames' := h'.names
  rw [h.symbols] at hnames'
  constructor
  · rw [h'.symbols, h.symbols, List.length_append, Nat.add_assoc]
  · rw [List.length_append, ← List.range'_append_1, List.map_append, ← hnames, ← hnames']

/-- Only the numbers of symbols in the two states count. -/
theorem congr {c₂ c₂' : Checker} (h : c.Numbers fresh names c')
    (hc : c₂.symbols.length = c.symbols.length) (hc' : c₂'.symbols.length = c'.symbols.length) :
    c₂.Numbers fresh names c₂' := by
  constructor
  · rw [hc', hc, h.symbols]
  · rw [hc]
    exact h.names

theorem nodup (h : c.Numbers fresh names c') (hfresh : Function.Injective fresh) : names.Nodup := by
  rw [h.names]
  exact List.Nodup.map hfresh List.nodup_range'

end Checker.Numbers

theorem Check.Accepts.numbers {fresh : Nat → String} {α : Type} {x : Check α} {c : Checker}
    (hx : Check.Accepts x c fun _ c' => c.Same c') : c.Numbers fresh [] (x.after c) :=
  .nil hx.2.2.symbols_length

/-! ## States inside a function -/

namespace Checker

/-- What is known of a state inside the body of a function: `inLoop` says whether a loop or switch is
open. -/
structure Inside (c : Checker) (returns : Ty) (inLoop : Bool) : Prop where
  valid : c.Valid
  distinct : c.Distinct
  function : c.InFunction returns
  breakable : (c.breakable != 0) = inLoop

variable {c c' : Checker} {returns : Ty} {l : Bool}

theorem Inside.of_scopes (h : c.Inside returns l) (hs : c.Step c') (he : c'.scopes = c.scopes) :
    c'.Inside returns l where
  valid := hs.valid h.valid
  distinct := by
    unfold Distinct
    rw [he]
    exact h.distinct
  function := h.function.of_step hs (by simp [view, he])
  breakable := by
    rw [hs.breakable]
    exact h.breakable

theorem Inside.of_declares {name : String} (h : c.Inside returns l) (hs : c.Step c')
    (hd : c.Declares name c') : c'.Inside returns l where
  valid := hs.valid h.valid
  distinct := hd.distinct h.valid h.distinct
  function := h.function.of_step hs (by simp [view, hd.scopes])
  breakable := by
    rw [hs.breakable]
    exact h.breakable

theorem Inside.scopes_length (h : c.Inside returns l) : 2 ≤ c.scopes.length := by
  have hlen := h.function.nested
  rwa [view, List.length_map] at hlen

theorem Inside.pushScope (h : c.Inside returns l) : c.pushScope.Inside returns l :=
  ⟨h.valid.pushScope, h.distinct, h.function.pushScope, h.breakable⟩

theorem Inside.inLoop (h : c.Inside returns l) : c.inLoop.Inside returns true :=
  ⟨h.valid.inLoop, h.distinct, h.function.inLoop, by simp [Checker.inLoop]⟩

/-- Two states with the same names in scope, which mean the same: what the rules say of a piece of a
program in one of them, they say in the other. -/
structure Alike (c c' : Checker) : Prop where
  types : c.symbols.map Symbol.type <+: c'.symbols.map Symbol.type
  scopes : c'.scopes = c.scopes
  view : c'.view = c.view
  signatures : c'.signatures = c.signatures

theorem Same.alike (hs : c.Step c') (h : c.Same c') : c.Alike c' :=
  ⟨hs.types, h.scopes, h.view, hs.signatures⟩

theorem Alike.trans {c'' : Checker} (h : c.Alike c') (h' : c'.Alike c'') : c.Alike c'' :=
  ⟨h.types.trans h'.types, h'.scopes.trans h.scopes, h'.view.trans h.view,
    h'.signatures.trans h.signatures⟩

theorem Alike.inLoop (h : c.Alike c') : c.Alike c'.inLoop :=
  ⟨h.types, h.scopes, h.view, h.signatures⟩

end Checker

namespace Check

/-- The head of a switch: the value that decides, and all labels. -/
theorem switchHead_accepts {c : Checker} (hc : c.Valid) {e : Expr} {t : Ty} {groups : List CaseGroup}
    (typed : HasType c.signatures c.view e t) (integral : t.isIntegral = true)
    (hlabels : CaseGroup.LabelsOk t groups) :
    Accepts (do let type ← scrutinee e; labels type [] false groups) c fun _ c' => c.Same c' := by
  refine bind_accepts (scrutinee_accepts hc typed integral) ?_
  rintro _ c₁ - ⟨rfl, h₁⟩
  have hdone : Accepts (labels (some t) [] false groups) c₁ fun _ c' => c' = c₁ :=
    labels_accepts (fun l hl => ⟨hlabels.typed l hl, by simp⟩) hlabels.distinct hlabels.oneDefault
  refine hdone.imp ?_
  rintro _ _ - rfl
  exact h₁

variable {c : Checker} {returns : Ty} {inLoop : Bool} {Γ : TypeScopes} (h : c.Inside returns inLoop)

include h

/-- A check that declares nothing leads to a state of the same function. -/
theorem Accepts.inside {α : Type} {x : Check α} (hx : Accepts x c fun _ c' => c.Same c') :
    c.Alike (x.after c) ∧ (x.after c).Inside returns inLoop :=
  ⟨hx.2.2.alike hx.1, h.of_scopes hx.1 hx.2.2.scopes⟩

theorem condition_inside {e : Expr} (ok : IsIntegral c.signatures c.view e) :
    c.Alike ((condition e).after c) ∧ ((condition e).after c).Inside returns inLoop :=
  (condition_accepts h.valid ok).inside h

theorem guard_inside {e? : Option Expr} (ok : ∀ e ∈ e?, IsIntegral c.signatures c.view e) :
    c.Alike ((guard e?).after c) ∧ ((guard e?).after c).Inside returns inLoop :=
  (guard_accepts h.valid ok).inside h

theorem effect_inside {e? : Option Expr} (ok : ∀ e ∈ e?, HasSomeType c.signatures c.view e) :
    c.Alike ((effect e?).after c) ∧ ((effect e?).after c).Inside returns inLoop :=
  (effect_accepts h.valid ok).inside h

/-- The first clause of a `for` header leads to a state of the same function. -/
theorem forInit_inside {init : Option ForInit} (ok : ForInit.Ok c.signatures c.view init Γ) :
    ((forInit init).after c).view = Γ ∧ ((forInit init).after c).signatures = c.signatures ∧
      ((forInit init).after c).Inside returns inLoop := by
  obtain ⟨hs, -, hview, -⟩ := forInit_accepts h.valid ok
  refine ⟨hview, hs.signatures, ?_⟩
  cases ok with
  | none => exact h
  | eval typed =>
    obtain ⟨t, typed⟩ := typed
    exact h.of_scopes hs (expr_accepts h.valid typed).2.2.2.scopes
  | declare ok => exact h.of_declares hs (varDecl_declares h.valid ok)

/-- The first clause of a `for` header changes the innermost scope only. -/
theorem forInit_tail {init : Option ForInit} (ok : ForInit.Ok c.signatures c.view init Γ) :
    ((forInit init).after c).scopes.tail = c.scopes.tail := by
  cases ok with
  | none => rfl
  | eval typed =>
    obtain ⟨t, typed⟩ := typed
    exact congrArg List.tail (expr_accepts h.valid typed).2.2.2.scopes
  | declare ok => exact (varDecl_declares h.valid ok).tail

variable {s : Stmt} {body : List Stmt} (r : Bool)

theorem stmt_walked (ok : Stmt.Ok c.signatures returns inLoop c.view s Γ) :
    c.Step ((stmt r s).after c) ∧ Walked r c s Γ ((stmt r s).run c).1 ((stmt r s).after c) := by
  have haccepts : Accepts (stmt r s) c (Walked r c s Γ) :=
    stmt_accepts h.valid h.function.function h.breakable ok
  exact ⟨haccepts.1, haccepts.2.2⟩

/-- A statement leads to a state of the same function. -/
theorem stmt_inside (ok : Stmt.Ok c.signatures returns inLoop c.view s Γ) :
    ((stmt r s).after c).Inside returns inLoop := by
  obtain ⟨hs, hwalk⟩ := stmt_walked h r ok
  cases ok with
  | declare ok => exact h.of_declares hs (varDecl_declares h.valid ok)
  | _ => exact h.of_scopes hs (hwalk.scopes rfl)

/-- A statement that declares nothing leaves the names in scope as they are. -/
theorem stmt_alike (ok : Stmt.Ok c.signatures returns inLoop c.view s c.view) :
    c.Alike ((stmt r s).after c) := by
  obtain ⟨hs, hwalk⟩ := stmt_walked h r ok
  exact ⟨hs.types, hwalk.scopes rfl, hwalk.view, hs.signatures⟩

/-- A statement changes the innermost scope only. -/
theorem stmt_tail (ok : Stmt.Ok c.signatures returns inLoop c.view s Γ) :
    ((stmt r s).after c).scopes.tail = c.scopes.tail := by
  obtain ⟨-, hwalk⟩ := stmt_walked h r ok
  cases ok with
  | declare ok => exact (varDecl_declares h.valid ok).tail
  | _ => rw [hwalk.scopes rfl]

theorem stmts_inside (ok : Stmt.ListOk c.signatures returns inLoop c.view body c.view) :
    c.Alike ((stmts r body).after c) ∧ ((stmts r body).after c).Inside returns inLoop := by
  have haccepts : Accepts (stmts r body) c (WalkedList r c body c.view) :=
    stmts_accepts h.valid h.function.function h.breakable ok
  obtain ⟨hs, -, hwalk⟩ := haccepts
  have hscopes : ((stmts r body).after c).scopes = c.scopes := hwalk.scopes rfl
  exact ⟨⟨hs.types, hscopes, hwalk.view, hs.signatures⟩, h.of_scopes hs hscopes⟩

/-! ### The parts of a statement -/

/-- A statement is checked in the state `c₁`, in which the same names are in scope as in `c`. -/
structure Stands (c c₁ : Checker) (returns : Ty) (inLoop : Bool) (s : Stmt) : Prop where
  alike : c.Alike c₁
  inside : c₁.Inside returns inLoop
  ok : Stmt.Ok c₁.signatures returns inLoop c₁.view s c₁.view

omit h in
theorem Stands.of_alike {c₁ : Checker} (halike : c.Alike c₁) (hin : c₁.Inside returns inLoop)
    (ok : Stmt.Ok c.signatures returns inLoop c.view s c.view) : Stands c c₁ returns inLoop s := by
  rw [← halike.view, ← halike.signatures] at ok
  exact ⟨halike, hin, ok⟩

variable {cond : Expr} {onTrue onFalse : Stmt}

theorem branch_stands (condOk : IsIntegral c.signatures c.view cond)
    (onTrueOk : Stmt.Ok c.signatures returns inLoop c.view onTrue c.view) :
    Stands c ((condition cond).after c) returns inLoop onTrue := by
  obtain ⟨h₁, hin₁⟩ := condition_inside h condOk
  exact .of_alike h₁ hin₁ onTrueOk

/-- The second branch is checked behind the first. -/
theorem branchElse_stands (condOk : IsIntegral c.signatures c.view cond)
    (onTrueOk : Stmt.Ok c.signatures returns inLoop c.view onTrue c.view)
    (onFalseOk : Stmt.Ok c.signatures returns inLoop c.view onFalse c.view) :
    Stands c ((stmt r onTrue).after ((condition cond).after c)) returns inLoop onFalse := by
  obtain ⟨h₁, hin₁, onTrueOk⟩ := branch_stands h condOk onTrueOk
  have h₂ := h₁.trans (stmt_alike hin₁ r onTrueOk)
  exact .of_alike h₂ (stmt_inside hin₁ r onTrueOk) onFalseOk

theorem whileLoop_stands (condOk : IsIntegral c.signatures c.view cond)
    (bodyOk : Stmt.Ok c.signatures returns true c.view s c.view) :
    Stands c ((condition cond).after c).inLoop returns true s := by
  obtain ⟨h₁, hin₁⟩ := condition_inside h condOk
  exact .of_alike h₁.inLoop hin₁.inLoop bodyOk

/-- The parts of a `for` loop behind its first clause are checked in the states `c₁` for the condition,
`c₂` for the step, and inside of a loop in `c₃` for the body. -/
structure ForStands (c₁ c₂ c₃ : Checker) (returns : Ty) (inLoop : Bool) (cond step : Option Expr)
    (body : Stmt) : Prop where
  inside : c₁.Inside returns inLoop
  condOk : ∀ e ∈ cond, IsIntegral c₁.signatures c₁.view e
  stepAlike : c₁.Alike c₂
  stepInside : c₂.Inside returns inLoop
  stepOk : ∀ e ∈ step, HasSomeType c₂.signatures c₂.view e
  body : Stands c₁ c₃.inLoop returns true body

theorem forLoop_stands {init : Option ForInit} {cond step : Option Expr}
    (initOk : ForInit.Ok c.signatures ([] :: c.view) init Γ)
    (condOk : ∀ e ∈ cond, IsIntegral c.signatures Γ e)
    (stepOk : ∀ e ∈ step, HasSomeType c.signatures Γ e)
    (bodyOk : Stmt.Ok c.signatures returns true Γ s Γ) :
    ForStands ((forInit init).after c.pushScope)
      ((guard cond).after ((forInit init).after c.pushScope))
      ((effect step).after ((guard cond).after ((forInit init).after c.pushScope)))
      returns inLoop cond step s := by
  obtain ⟨hview₁, hsigs₁, hin₁⟩ := forInit_inside h.pushScope initOk
  have hsigs₁ : ((forInit init).after c.pushScope).signatures = c.signatures := hsigs₁
  rw [← hview₁, ← hsigs₁] at condOk stepOk bodyOk
  obtain ⟨h₂, hin₂⟩ := guard_inside hin₁ condOk
  rw [← h₂.view, ← h₂.signatures] at stepOk
  obtain ⟨h₃, hin₃⟩ := effect_inside hin₂ stepOk
  exact ⟨hin₁, condOk, h₂, hin₂, stepOk, .of_alike (h₂.trans h₃).inLoop hin₃.inLoop bodyOk⟩

theorem switch_stands {e : Expr} {t : Ty} {groups : List CaseGroup}
    (typed : HasType c.signatures c.view e t) (integral : t.isIntegral = true)
    (hlabels : CaseGroup.LabelsOk t groups)
    (groupsOk : CaseGroup.ListOk c.signatures returns c.view groups) {c₁ : Checker}
    (hc₁ : c₁ = after (do let type ← scrutinee e; labels type [] false groups) c) :
    c.Alike c₁.inLoop ∧ c₁.inLoop.Inside returns true ∧
      CaseGroup.ListOk c₁.inLoop.signatures returns c₁.inLoop.view groups := by
  subst hc₁
  obtain ⟨h₁, hin₁⟩ := (switchHead_accepts h.valid typed integral hlabels).inside h
  rw [← h₁.inLoop.view, ← h₁.inLoop.signatures] at groupsOk
  exact ⟨h₁.inLoop, hin₁.inLoop, groupsOk⟩

end Check

/-! ## Functions -/

namespace Check

variable {c : Checker} {p : Param} {params : List Param}

/-- The first of some parameters is declared, and behind it the others can be. -/
theorem ParamsOk.declares (h : ParamsOk c (p :: params)) :
    c.Step ((param p).after c) ∧ c.Declares p.name ((param p).after c) ∧
      ((param p).after c).view = c.view.declare p.name p.type ∧
      ParamsOk ((param p).after c) params := by
  have hvoid := h.notVoid p List.mem_cons_self
  have hfree := h.free p List.mem_cons_self
  obtain ⟨hs, -, hview⟩ := param_accepts h.valid hvoid hfree
  exact ⟨hs, param_declares h.valid hvoid hfree, hview, h.tail hs hview⟩

theorem params_distinct : ∀ {params : List Param} {c : Checker}, ParamsOk c params → c.Distinct →
    ((params.forM param).after c).Distinct
  | [], _, _, hd => hd
  | p :: params, c, h, hd => by
    obtain ⟨-, hdeclares, -, htail⟩ := h.declares
    show ((params.forM param).after ((param p).after c)).Distinct
    exact params_distinct htail (hdeclares.distinct h.valid hd)

end Check

namespace Checker

/-- What is known of a state between two items of a program with the functions `sigs`. -/
structure AtTop (c : Checker) (sigs : Signatures) : Prop where
  atItems : c.AtItems
  distinct : c.Distinct
  signatures : c.signatures = sigs

variable {c : Checker} {sigs : Signatures} {g : TypeScope}

/-- The body of a function starts inside the function, with its parameters in scope. -/
theorem AtTop.enterFunction (h : c.AtTop sigs) (hview : c.view = [g]) {f : FunctionDef}
    (hf : f.Ok sigs g) :
    (c.enterFunction f).Inside f.returns false ∧ (c.enterFunction f).signatures = sigs ∧
      (c.enterFunction f).view = [f.paramScope, g] := by
  have hf' : f.Ok c.signatures g := h.signatures ▸ hf
  obtain ⟨hsigs, hbreak⟩ := Check.enterFunction_step h.atItems f
  obtain ⟨-, hview'⟩ := Check.enterFunction_accepts h.atItems hview hf'
  refine ⟨⟨enterFunction_valid h.atItems.valid f, ?_, ⟨rfl, ?_⟩, ?_⟩, hsigs.trans h.signatures, hview'⟩
  · exact Check.params_distinct (Check.paramsOk_of_ok h.atItems hf) h.distinct
  · rw [hview']
    exact Nat.le_refl 2
  · rw [hbreak]
    rfl

/-- Checking a function leaves the names in scope as they are. -/
theorem AtTop.function_alike (h : c.AtTop sigs) (hview : c.view = [g]) {f : FunctionDef}
    (hf : f.Ok sigs g) :
    c.Alike ((Check.functionDef f).after c) ∧ ((Check.functionDef f).after c).AtTop sigs := by
  have hf' : f.Ok c.signatures g := h.signatures ▸ hf
  obtain ⟨hstep, -, hview'⟩ := Check.function_accepts h.atItems hview hf'
  obtain ⟨hin, hsigs, hviewBody⟩ := h.enterFunction hview hf
  obtain ⟨Γ, hbody⟩ := hf.body
  rw [← hsigs, ← hviewBody] at hbody
  have haccepts : Check.Accepts (Check.stmts true f.body) (c.enterFunction f)
      (Check.WalkedList true (c.enterFunction f) f.body Γ) :=
    Check.stmts_accepts hin.valid hin.function.function hin.breakable hbody
  have hscopes : ((Check.functionDef f).after c).scopes = c.scopes :=
    leaveFunction_scopes h.atItems haccepts.1
  refine ⟨⟨hstep.types, hscopes, hview', hstep.signatures⟩, hstep.atItems, ?_,
    hstep.signatures.trans h.signatures⟩
  unfold Distinct
  rw [hscopes]
  exact h.distinct

/-- Behind a global the walk is between two items again. -/
theorem AtTop.global (h : c.AtTop sigs) {d : VarDecl} (hd : d.Ok sigs c.view) :
    ((Check.varDecl d).after c).AtTop sigs := by
  have hd' : d.Ok c.signatures c.view := h.signatures ▸ hd
  obtain ⟨hstep, -, -⟩ := Check.global_accepts h.atItems hd'
  have hdistinct := (Check.varDecl_declares h.atItems.valid hd').distinct h.atItems.valid h.distinct
  exact ⟨hstep.atItems, hdistinct, hstep.signatures.trans h.signatures⟩

end Checker

/-! ## Programs -/

/-- The walk over the items of a program that keep the rules, from one state to another. -/
inductive Item.Walk (sigs : Signatures) : Checker → List Item → Checker → Prop where
  | nil {c : Checker} (top : c.AtTop sigs) : Item.Walk sigs c [] c
  | global {c c' : Checker} {d : VarDecl} {rest : List Item} (top : c.AtTop sigs)
    (ok : d.Ok sigs c.view) (tail : Item.Walk sigs ((Check.varDecl d).after c) rest c') :
    Item.Walk sigs c (.global d :: rest) c'
  | function {c c' : Checker} {g : TypeScope} {f : FunctionDef} {rest : List Item}
    (top : c.AtTop sigs) (view : c.view = [g]) (ok : f.Ok sigs g)
    (tail : Item.Walk sigs ((Check.functionDef f).after c) rest c') :
    Item.Walk sigs c (.function f :: rest) c'

theorem Item.ListOk.walk {sigs : Signatures} {g g' : TypeScope} {items : List Item}
    (h : Item.ListOk sigs g items g') :
    ∀ {c : Checker}, c.AtTop sigs → c.view = [g] → ∃ c', Item.Walk sigs c items c' := by
  induction h with
  | nil => exact fun top _ => ⟨_, .nil top⟩
  | @global g _ d rest ok _ ih =>
    intro c top hview
    have ok' : d.Ok sigs c.view := hview ▸ ok
    have hafter : ((Check.varDecl d).after c).view = [(d.name, d.type) :: g] := by
      have hd : d.Ok c.signatures c.view := top.signatures ▸ ok'
      obtain ⟨-, -, hview', -⟩ := Check.varDecl_accepts top.atItems.valid hd
      rw [hview] at hview'
      exact hview'
    obtain ⟨c', hwalk⟩ := ih (top.global ok') hafter
    exact ⟨c', .global top ok' hwalk⟩
  | @function g _ f rest ok _ ih =>
    intro c top hview
    obtain ⟨halike, htop⟩ := top.function_alike hview ok
    obtain ⟨c', hwalk⟩ := ih htop (halike.view.trans hview)
    exact ⟨c', .function top hview ok hwalk⟩

/-! ## Globals -/

/-- Whatever the first scope binds, the second binds to the same symbol. -/
def StaticScope.Within (g G : StaticScope) : Prop :=
  ∀ name k, g.lookup name = some k → G.lookup name = some k

theorem Checker.AtItems.scopes_eq {c : Checker} (h : c.AtItems) : ∃ g, c.scopes = [g] :=
  List.length_eq_one_iff.mp h.global

/-- A new global takes no name away from another. -/
theorem VarDecl.Ok.within {sigs : Signatures} {c : Checker} {d : VarDecl} (h : d.Ok sigs c.view)
    {g : StaticScope} (hg : c.scopes = [g]) (k : Nat) : StaticScope.Within g ((d.name, k) :: g) := by
  have hfree : g.lookup d.name = none := by
    have hhere := (Checker.freeHere_iff c d.name).mp h.free
    rw [Checker.declaresHere, hg] at hhere
    simpa using hhere
  intro name k' hname
  rw [Lookup.lookup_cons]
  by_cases he : name = d.name
  · rw [he, hfree] at hname
    exact nomatch hname
  · rw [if_neg he]
    exact hname

/-- The globals before some items are among those behind them. -/
theorem Item.Walk.within {sigs : Signatures} {c c' : Checker} {items : List Item}
    (h : Item.Walk sigs c items c') {G : StaticScope} (hG : c'.scopes = [G]) :
    ∀ {g : StaticScope}, c.scopes = [g] → StaticScope.Within g G := by
  induction h with
  | nil =>
    intro g hg
    rw [hg] at hG
    cases hG
    exact fun _ _ hk => hk
  | @global c c' d rest top ok _ ih =>
    intro g hg
    have hd : d.Ok c.signatures c.view := top.signatures ▸ ok
    have hdeclares := Check.varDecl_declares top.atItems.valid hd
    intro name k hk
    exact ih hG (hdeclares.cons hg) name k (ok.within hg _ name k hk)
  | function top view ok _ ih =>
    intro g hg
    exact ih hG ((top.function_alike view ok).1.scopes.trans hg)

theorem Item.Walk.atTop_end {sigs : Signatures} {c c' : Checker} {items : List Item}
    (h : Item.Walk sigs c items c') : c'.AtTop sigs := by
  induction h with
  | nil top => exact top
  | global _ _ _ ih => exact ih
  | function _ _ _ _ ih => exact ih

/-- The checker walks over the items of a program that keeps the rules. -/
theorem Program.Ok.walk {p : Program} (h : p.Ok) :
    ∃ c, Item.Walk p.signatures (Checker.registered p) p.items c := by
  obtain ⟨globals, hitems⟩ := h.items
  have hsigs := Checker.registered_signatures h.registered_errors
  have hdistinct : (Checker.registered p).Distinct := by
    unfold Checker.Distinct
    rw [Checker.registered_scopes]
    exact List.nodup_nil
  exact hitems.walk ⟨Checker.registered_atItems p, hdistinct, hsigs⟩ (Checker.registered_view p)

end Primer
