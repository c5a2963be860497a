import Primer.Proofs.Typing.Walk

/-!
# Accepted expressions have types

Checking an expression without an error gives it the type that the rules give it, and leaves the
names in scope and the types of all symbols alone. The only trace it leaves is the lines of the uses.

The statements follow the order in which parts are checked; each relies on what the parts before it
ensure.
-/

namespace Primer

namespace Checker

theorem recordUse_types (c : Checker) (symbol line : Nat) :
    (c.recordUse symbol line).symbols.map Symbol.type = c.symbols.map Symbol.type := by
  refine List.ext_getElem? fun i => ?_
  simp only [recordUse, List.getElem?_map, List.getElem?_modify]
  split <;> cases c.symbols[i]? <;> rfl

theorem recordUse_step (c : Checker) (symbol line : Nat) : c.Step (c.recordUse symbol line) where
  errors := List.prefix_refl _
  types := (recordUse_types c symbol line).symm ▸ List.prefix_refl _
  outer := rfl
  functions := rfl
  function := rfl
  breakable := rfl
  routine := rfl
  routines := rfl
  valid := fun h => ⟨h.open_, fun scope hs b hb => by
    simpa [recordUse] using h.bound scope hs b hb⟩

theorem recordUse_same (c : Checker) (symbol line : Nat) : c.Same (c.recordUse symbol line) :=
  ⟨rfl, recordUse_types c symbol line, rfl⟩

theorem typeOf?_isSome {c : Checker} (hc : c.Valid) {name : String} {symbol : Nat}
    (hs : symbolOf? c.scopes name = some symbol) : (c.typeOf? symbol).isSome := by
  obtain ⟨scope, hmem, hl⟩ := List.exists_of_findSome?_eq_some hs
  have hlt : symbol < c.symbols.length := hc.bound scope hmem _ (Lookup.mem_of_lookup hl)
  simp [typeOf?, hlt]

end Checker

namespace Check

/-! ## Names -/

theorem resolve_ensures {name : String} {pos : Position} {c : Checker} (hc : c.Valid) :
    Ensures (resolve name pos) c fun r c' =>
      ∃ t, r = some t ∧ c.view.type? name = some t ∧ c.Same c' := by
  refine get_bind_ensures ?_
  cases hs : Checker.symbolOf? c.scopes name with
  | none => exact report_pure_ensures
  | some symbol =>
    refine bind_ensures (R := fun _ c' => c.Same c') (modify_ensures
      (Checker.recordUse_step ..) fun _ => Checker.recordUse_same ..) fun _ c₁ _ => ?_
    refine pure_ensures fun hsame => ?_
    have ht : c.view.type? name = c.typeOf? symbol := by rw [Checker.view_type? hc, hs]; rfl
    obtain ⟨t, h⟩ := Option.isSome_iff_exists.mp (Checker.typeOf?_isSome hc hs)
    exact ⟨t, h, ht.trans h, hsame⟩

theorem resolveFunction_ensures {name : String} {pos : Position} {c : Checker} :
    Ensures (resolveFunction name pos) c fun r c' =>
      ∃ s, r = some s ∧ c.functions.lookup name = some s ∧ c.Same c' := by
  refine get_bind_ensures ?_
  cases hs : c.functions.lookup name with
  | none => exact report_pure_ensures
  | some signature =>
    refine bind_ensures (R := fun _ c' => c.Same c') (modify_ensures
      (Checker.recordUse_step ..) fun _ => Checker.recordUse_same ..) fun _ c₁ _ => ?_
    exact pure_ensures fun hsame => ⟨signature, rfl, rfl, hsame⟩

/-! ## Requirements -/

theorem requireValue_ensures {e : Expr} {found : Option Ty} {c : Checker} :
    Ensures (requireValue e found) c fun r c' => found ≠ some .void ∧ r = found ∧ c' = c := by
  unfold requireValue
  split
  · exact report_pure_ensures
  · next h => exact pure_ensures ⟨h, rfl, rfl⟩

theorem requireType_ensures {expected : Ty} {found : Option Ty} {pos : Position} {c : Checker} :
    Ensures (requireType expected found pos) c fun _ c' =>
      (∀ t ∈ found, expected.accepts t = true) ∧ c' = c := by
  unfold requireType
  cases found with
  | none => exact pure_ensures ⟨by simp, rfl⟩
  | some t => exact reportIf_ensures fun h => ⟨by simpa using h, rfl⟩

theorem requireIntegral_ensures {operator : Operator} {operand : Option Ty} {pos : Position}
    {c : Checker} : Ensures (requireIntegral operator operand pos) c fun _ c' =>
      (∀ t ∈ operand, t.isIntegral = true) ∧ c' = c := by
  unfold requireIntegral
  cases operand with
  | none => exact pure_ensures ⟨by simp, rfl⟩
  | some t => exact reportIf_ensures fun h => ⟨by simpa using h, rfl⟩

theorem requireTypes_ensures :
    ∀ {args : List Expr} {found : List (Option Ty)} {params : List Ty} {c : Checker},
      Ensures (requireTypes args found params) c fun _ c' =>
        (∀ ts : List Ty, found = ts.map some → args.length = ts.length →
          params.length = ts.length →
          List.Forall₂ (fun param t => param.accepts t = true) params ts) ∧ c' = c
  | arg :: args, found :: rest, param :: params, c => by
    refine bind_ensures requireType_ensures fun _ c₁ _ => requireTypes_ensures.imp ?_
    rintro _ c₂ _ ⟨hrest, rfl⟩ ⟨hfirst, rfl⟩
    refine ⟨fun ts hts ha hp => ?_, rfl⟩
    obtain ⟨t, ts, rfl, rfl, rfl⟩ := List.map_eq_cons_iff.mp hts.symm
    exact .cons (hfirst t rfl) (hrest ts rfl (Nat.succ.inj ha) (Nat.succ.inj hp))
  -- the shorter lists are ruled out by the lengths, which agree wherever this is used
  | [], found, params, c => by
    refine pure_ensures ⟨fun ts _ ha hp => ?_, rfl⟩
    obtain rfl : ts = [] := List.eq_nil_of_length_eq_zero ha.symm
    obtain rfl : params = [] := List.eq_nil_of_length_eq_zero hp
    exact .nil
  | arg :: args, [], params, c => by
    refine pure_ensures ⟨fun ts hts ha _ => ?_, rfl⟩
    rw [List.map_eq_nil_iff.mp hts.symm] at ha
    exact nomatch ha
  | arg :: args, found :: rest, [], c => by
    refine pure_ensures ⟨fun ts hts _ hp => ?_, rfl⟩
    rw [List.eq_nil_of_length_eq_zero hp.symm] at hts
    exact nomatch hts

theorem requireSignature_ensures {signature : Signature} {name : String} {args : List Expr}
    {found : List (Option Ty)} {pos : Position} {c : Checker} :
    Ensures (requireSignature signature name args found pos) c fun _ c' =>
      (∀ ts : List Ty, found = ts.map some → args.length = ts.length →
        List.Forall₂ (fun param t => param.accepts t = true) signature.params ts) ∧ c' = c := by
  unfold requireSignature
  split
  · next h =>
    refine requireTypes_ensures.imp ?_
    rintro _ c₁ _ ⟨hfit, rfl⟩
    exact ⟨fun ts hts ha => hfit ts hts ha (h.trans ha), rfl⟩
  · exact report_ensures

/-! ## Expressions -/

mutual

/-- An expression that is checked without an error has the type that checking gives it. -/
theorem expr_ensures : (e : Expr) → {c : Checker} → c.Valid →
    Ensures (expr e) c fun r c' =>
      ∃ t, r = some t ∧ HasType c.signatures c.view e t ∧ c.Same c'
  | .literal value pos, c, _ => pure_ensures ⟨_, rfl, .literal value pos, Checker.Same.refl c⟩
  | .var name pos, c, hc => by
    refine (resolve_ensures hc).imp ?_
    rintro _ c₁ _ ⟨t, rfl, ht, hsame⟩
    exact ⟨t, rfl, .var ht, hsame⟩
  | .assign name value pos, c, hc => by
    refine bind_ensures (expr_ensures value hc) fun found c₁ s₁ => ?_
    refine bind_ensures requireValue_ensures fun checked c₂ s₂ => ?_
    refine bind_ensures (resolve_ensures (s₂.valid (s₁.valid hc))) fun bound c₃ _ => ?_
    cases bound with
    -- an unknown target was reported, so there is nothing to show
    | none => exact pure_ensures fun ⟨_, h, _⟩ => nomatch h
    | some expected =>
      refine bind_ensures requireType_ensures fun _ c₄ _ => pure_ensures ?_
      -- from the last part to the first: what each of them ensures if no error was reported
      rintro ⟨hfits, rfl⟩ ⟨t, ht, hbound, hsame'⟩ ⟨hvoid, rfl, rfl⟩ ⟨u, rfl, hu, hsame⟩
      cases ht
      rw [hsame.view] at hbound
      exact ⟨_, rfl, .assign hu (by simpa using hvoid) hbound (hfits u rfl), hsame.trans hsame'⟩
  | .unary op operand pos, c, hc => by
    refine bind_ensures (expr_ensures operand hc) fun found c₁ s₁ => ?_
    refine bind_ensures requireValue_ensures fun checked c₂ s₂ => ?_
    refine bind_ensures requireIntegral_ensures fun _ c₃ _ => pure_ensures ?_
    rintro ⟨hint, rfl⟩ ⟨-, rfl, rfl⟩ ⟨u, rfl, hu, hsame⟩
    exact ⟨_, rfl, .unary hu (hint u rfl), hsame⟩
  | .binary op left right pos, c, hc => by
    refine bind_ensures (expr_ensures left hc) fun found c₁ s₁ => ?_
    refine bind_ensures requireValue_ensures fun checked c₂ s₂ => ?_
    have hc₂ := s₂.valid (s₁.valid hc)
    refine bind_ensures (expr_ensures right hc₂) fun found' c₃ s₃ => ?_
    refine bind_ensures requireValue_ensures fun checked' c₄ s₄ => ?_
    refine bind_ensures requireIntegral_ensures fun _ c₅ _ => ?_
    refine bind_ensures requireIntegral_ensures fun _ c₆ _ => pure_ensures ?_
    rintro ⟨hint', rfl⟩ ⟨hint, rfl⟩ ⟨-, rfl, rfl⟩ ⟨u', rfl, hu', hsame'⟩ ⟨-, rfl, rfl⟩
      ⟨u, rfl, hu, hsame⟩
    -- the right operand was checked with the same names in scope as the left one
    rw [hsame.view, s₁.signatures] at hu'
    exact ⟨_, rfl, .binary hu hu' (hint u rfl) (hint' u' rfl), hsame.trans hsame'⟩
  | .call name args pos, c, hc => by
    rw [expr]
    split
    · next hname =>
      refine bind_ensures (printArgs_ensures pos args hc) fun _ c₁ _ => pure_ensures ?_
      rintro ⟨format, rest, ts, rfl, hformat, hrest, hsame⟩
      exact ⟨_, rfl, hname ▸ .print hformat hrest, hsame⟩
    · next hname =>
      refine bind_ensures (values_ensures args hc) fun found c₁ s₁ => ?_
      refine bind_ensures resolveFunction_ensures fun signature? c₂ _ => ?_
      cases signature? with
      | none => exact pure_ensures fun ⟨_, h, _⟩ => nomatch h
      | some signature =>
        refine bind_ensures requireSignature_ensures fun _ c₃ _ => pure_ensures ?_
        rintro ⟨hfit, rfl⟩ ⟨s, hs, hlookup, hsame'⟩ ⟨ts, rfl, hts, hsame⟩
        cases hs
        -- checking the arguments leaves the functions alone
        have hsig : c.signatures name = some ⟨signature.params, signature.returns⟩ := by
          rw [← s₁.signatures]
          simp [Checker.signatures, hlookup]
        exact ⟨_, rfl, .call hname hsig hts (hfit ts rfl hts.length_eq), hsame.trans hsame'⟩

/-- The same for expressions used as values. -/
theorem values_ensures : (es : List Expr) → {c : Checker} → c.Valid →
    Ensures (values es) c fun r c' =>
      ∃ ts : List Ty, r = ts.map some ∧ HasTypes c.signatures c.view es ts ∧ c.Same c'
  | [], c, _ => pure_ensures ⟨[], rfl, .nil, Checker.Same.refl c⟩
  | e :: es, c, hc => by
    refine bind_ensures (expr_ensures e hc) fun found c₁ s₁ => ?_
    refine bind_ensures requireValue_ensures fun checked c₂ s₂ => ?_
    refine bind_ensures (values_ensures es (s₂.valid (s₁.valid hc))) fun rest c₃ _ => pure_ensures ?_
    rintro ⟨ts, rfl, hts, hsame'⟩ ⟨hvoid, rfl, rfl⟩ ⟨t, rfl, ht, hsame⟩
    rw [hsame.view, s₁.signatures] at hts
    exact ⟨t :: ts, rfl, .cons ht (by simpa using hvoid) hts, hsame.trans hsame'⟩

/-- The same for the arguments of `print`. -/
theorem printArgs_ensures (pos : Position) : (args : List Expr) → {c : Checker} → c.Valid →
    Ensures (printArgs pos args) c fun _ c' =>
      ∃ format rest ts, args = format :: rest ∧ HasType c.signatures c.view format .string ∧
        HasTypes c.signatures c.view rest ts ∧ c.Same c'
  | [], c, _ => report_ensures
  | format :: rest, c, hc => by
    refine bind_ensures (expr_ensures format hc) fun found c₁ s₁ => ?_
    refine bind_ensures requireValue_ensures fun checked c₂ s₂ => ?_
    have hc₂ := s₂.valid (s₁.valid hc)
    cases checked with
    | none =>
      refine bind_ensures (values_ensures rest hc₂) fun _ c₃ _ => pure_ensures ?_
      -- a format without a type was reported as a `void` value or in itself
      rintro - ⟨-, rfl, -⟩ ⟨_, h, -⟩
      exact nomatch h
    | some type =>
      refine bind_ensures (R := fun _ c' => type = .string ∧ c' = c₂)
        (reportIf_ensures fun h => ⟨by simpa using h, rfl⟩) fun _ c₃ s₃ => ?_
      refine bind_ensures (values_ensures rest (s₃.valid hc₂)) fun _ c₄ _ => pure_ensures ?_
      rintro ⟨ts, rfl, hts, hsame'⟩ ⟨rfl, rfl⟩ ⟨-, rfl, rfl⟩ ⟨t, ht, hformat, hsame⟩
      cases ht
      rw [hsame.view, s₁.signatures] at hts
      exact ⟨format, rest, ts, rfl, hformat, hts, hsame.trans hsame'⟩

end

end Check

end Primer
