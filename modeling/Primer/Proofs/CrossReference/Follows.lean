import Primer.Proofs.CrossReference.Occurrence
import Primer.Proofs.Naming.Numbering

/-!
# The state of the checker behind some occurrences

While the checker finds no error, its state is a function of what it has met so far. Its symbols are the
functions of the program and then the declarations in the order in which they were met. A name in scope
has the symbol of the declaration that it refers to.

- `Checker.Follows` ties the state to the occurrences in front of it.
- There is one lemma for each kind of occurrence, which says what the checker has to do to follow it:
  `Follows.use`, `Follows.call`, `Follows.declare`, `Follows.enter` and `Follows.leave`.
-/

namespace Primer

open Occurrence

section Modify

variable {α : Type} (f : α → α)

theorem modify_append_of_lt : ∀ {l : List α} {i : Nat}, i < l.length → ∀ l' : List α,
    (l ++ l').modify i f = l.modify i f ++ l'
  | _ :: _, 0, _, _ => rfl
  | a :: _, _ + 1, h, l' => congrArg (a :: ·) (modify_append_of_lt (Nat.lt_of_succ_lt_succ h) l')

theorem modify_append_length_add (l' : List α) (i : Nat) : ∀ l : List α,
    (l ++ l').modify (l.length + i) f = l ++ l'.modify i f
  | [] => by rw [List.nil_append, List.length_nil, Nat.zero_add, List.nil_append]
  | a :: l => by
    rw [List.length_cons, Nat.add_right_comm]
    exact congrArg (a :: ·) (modify_append_length_add l' i l)

end Modify

/-- The symbol of a declaration that is used on the lines `uses`. -/
def Declaration.symbol (d : Declaration) (uses : List Nat) : Symbol :=
  ⟨d.name, d.kind, d.type, d.level, d.routine, d.line, uses.reverse⟩

/-- The symbol of a function that is called on the lines `calls`. -/
def FunctionDef.symbol (f : FunctionDef) (calls : List Nat) : Symbol :=
  ⟨f.name, .function, f.returns, 0, 0, f.pos.line, calls.reverse⟩

/-- A symbol with one more use. -/
def Symbol.usedOn (line : Nat) (s : Symbol) : Symbol :=
  { s with uses := line :: s.uses }

theorem Declaration.symbol_snoc (d : Declaration) (uses : List Nat) (line : Nat) :
    d.symbol (uses ++ [line]) = (d.symbol uses).usedOn line := by
  simp only [symbol, Symbol.usedOn, List.reverse_append, List.reverse_singleton, List.singleton_append]

theorem FunctionDef.symbol_snoc (f : FunctionDef) (calls : List Nat) (line : Nat) :
    f.symbol (calls ++ [line]) = (f.symbol calls).usedOn line := by
  simp only [symbol, Symbol.usedOn, List.reverse_append, List.reverse_singleton, List.singleton_append]

namespace Occurrence

/-- The symbols of the functions `fs` behind some occurrences. -/
def functionSymbols (fs : List FunctionDef) (os : List Occurrence) : List Symbol :=
  fs.map fun f => f.symbol (callLines f.name os)

/-- The symbols of what some occurrences declare, behind them. -/
def declaredSymbols (os : List Occurrence) : List Symbol :=
  (declarations os).mapIdx fun i d => d.symbol (linesTo i os)

variable {fs : List FunctionDef} {os : List Occurrence} {o : Occurrence} {name : String} {line i k : Nat}

theorem functionSymbols_length (fs : List FunctionDef) (os : List Occurrence) :
    (functionSymbols fs os).length = fs.length :=
  List.length_map _

theorem declaredSymbols_length (os : List Occurrence) :
    (declaredSymbols os).length = (declarations os).length :=
  List.length_mapIdx

/-- An occurrence that is no call leaves the functions as they are. -/
theorem functionSymbols_snoc (h : o.call? = none) :
    functionSymbols fs (os ++ [o]) = functionSymbols fs os := by
  refine List.map_congr_left fun f _ => ?_
  have hcalls : callLines f.name [o] = [] := by rw [callLines, List.filterMap_cons_none h]; rfl
  rw [callLines_append, hcalls, List.append_nil]

/-- An occurrence that is neither a declaration nor a use leaves the declarations as they are. -/
theorem declaredSymbols_snoc (hdeclared : o.declared? = none) (href : o.reference? os = none) :
    declaredSymbols (os ++ [o]) = declaredSymbols os := by
  have hnone : declarations [o] = [] := List.filterMap_cons_none hdeclared
  have hlines : ∀ i, linesTo i (os ++ [o]) = linesTo i os := linesTo_snoc_of_none href
  unfold declaredSymbols
  simp only [declarations_append, hnone, List.append_nil, hlines]

theorem declaredSymbols_declare (d : Declaration) :
    declaredSymbols (os ++ [.declare d]) = declaredSymbols os ++ [d.symbol []] := by
  have hlines : ∀ i, linesTo i (os ++ [.declare d]) = linesTo i os := linesTo_snoc_of_none rfl
  have hnew : linesTo (declarations os).length os = [] := linesTo_of_le (Nat.le_refl _)
  unfold declaredSymbols
  rw [declarations_append, show declarations [.declare d] = [d] from rfl, List.mapIdx_append]
  simp only [hlines, List.mapIdx_cons, List.mapIdx_nil, Nat.zero_add, hnew]

/-- A use adds its line to the declaration that it refers to. -/
theorem declaredSymbols_use (h : target? name os = some i) (line : Nat) :
    declaredSymbols (os ++ [.use name line]) = (declaredSymbols os).modify i (Symbol.usedOn line) := by
  have href : reference? os (.use name line) = some (i, line) := by
    rw [reference?, h, Option.map_some]
  refine List.ext_getElem? fun j => ?_
  rw [List.getElem?_modify, declaredSymbols, declaredSymbols, List.getElem?_mapIdx, List.getElem?_mapIdx,
    declarations_append, show declarations [.use name line] = [] from rfl, List.append_nil, linesTo_snoc,
    href]
  cases (declarations os)[j]? with
  | none => rfl
  | some d =>
    by_cases hij : i = j
    · subst hij
      simpa using d.symbol_snoc (linesTo i os) line
    · simp [hij]

/-- A call adds its line to the function of its name, if the functions have different names. -/
theorem functionSymbols_call
    (h : ∀ j, (fs.map FunctionDef.name)[j]? = some name ↔ j = k) (line : Nat) :
    functionSymbols fs (os ++ [.call name line]) =
      (functionSymbols fs os).modify k (Symbol.usedOn line) := by
  refine List.ext_getElem? fun j => ?_
  rw [List.getElem?_modify, functionSymbols, functionSymbols, List.getElem?_map, List.getElem?_map]
  have hj := h j
  rw [List.getElem?_map] at hj
  cases hf : fs[j]? with
  | none => rfl
  | some f =>
    rw [hf, Option.map_some, Option.some_inj] at hj
    by_cases hname : f.name = name
    · have hcalls : callLines f.name [.call name line] = [line] := by simp [callLines, call?, hname]
      simp [← hj.mp hname, callLines_append, hcalls, f.symbol_snoc]
    · have hcalls : callLines f.name [.call name line] = [] := by
        simp [callLines, call?, Ne.symm hname]
      have hkj : k ≠ j := fun hkj => hname (hj.mpr hkj.symm)
      simp [callLines_append, hcalls, hkj]

/-- An occurrence that mentions a name mentions one that is declared in front of it, or a function. -/
def Refers (fs : List FunctionDef) (before : List Occurrence) : Occurrence → Prop
  | .use name _ => ∃ i, target? name before = some i
  | .call name _ => name ∈ fs.map FunctionDef.name
  | _ => True

/-- All names that are mentioned are declared. -/
def AllRefer (fs : List FunctionDef) (os : List Occurrence) : Prop :=
  ∀ before o after, os = before ++ o :: after → o.Refers fs before

theorem AllRefer.nil : AllRefer fs [] :=
  fun _ _ _ h => absurd h.symm (List.append_ne_nil_of_right_ne_nil _ (List.cons_ne_nil _ _))

theorem AllRefer.snoc (h : AllRefer fs os) (ho : o.Refers fs os) : AllRefer fs (os ++ [o]) := by
  intro before o' after hsplit
  rcases List.eq_nil_or_concat after with rfl | ⟨after, last, rfl⟩
  · obtain ⟨rfl, hlast⟩ := List.append_inj' hsplit rfl
    cases hlast
    exact ho
  · rw [List.concat_eq_append, ← List.cons_append, ← List.append_assoc] at hsplit
    exact h before o' after (List.append_inj' hsplit rfl).1

end Occurrence

/-- Where a walk over a program is. -/
structure Place where
  /-- The sections opened so far. -/
  sections : List (String × Bool)
  /-- The number of the section being filled. -/
  routine : Nat
  /-- How many scopes are open inside the global one. -/
  level : Nat
  routine_lt : routine < sections.length

/-- The place inside one more scope. -/
def Place.inner (place : Place) : Place :=
  { place with level := place.level + 1 }

namespace Checker

/-- The state behind the occurrences `os` of a program with the functions `fs`. -/
structure Follows (fs : List FunctionDef) (os : List Occurrence) (place : Place) (c : Checker) : Prop where
  /-- A name has the symbol of the declaration it refers to, and so it does after scopes are left. -/
  scopes : ∀ k name, symbolOf? (c.scopes.drop k) name =
    (target? name (os ++ List.replicate k .leave)).map (fs.length + ·)
  symbols : c.symbols = functionSymbols fs os ++ declaredSymbols os
  functions : ∀ name k, (c.functions.lookup name).map Signature.symbol = some k ↔
    (fs.map FunctionDef.name)[k]? = some name
  level : c.scopes.length = place.level + 1
  sections : c.routines = place.sections
  routine : c.routine = place.routine
  refers : AllRefer fs os
  inSections : ∀ d ∈ declarations os, d.routine < place.sections.length

namespace Follows

variable {fs : List FunctionDef} {os : List Occurrence} {place : Place} {c : Checker} {name : String}
  {i k : Nat}

/-- An occurrence that declares nothing leaves the declarations in their sections. -/
theorem inSections_snoc (h : c.Follows fs os place) {o : Occurrence} (ho : o.declared? = none) :
    ∀ d ∈ declarations (os ++ [o]), d.routine < place.sections.length := by
  rw [declarations_append, show declarations [o] = [] from List.filterMap_cons_none ho, List.append_nil]
  exact h.inSections

theorem symbols_length (h : c.Follows fs os place) :
    c.symbols.length = fs.length + (declarations os).length := by
  rw [h.symbols, List.length_append, functionSymbols_length, declaredSymbols_length]

/-- A name has the symbol of the declaration it refers to. -/
theorem symbol_eq (h : c.Follows fs os place) (name : String) :
    symbolOf? c.scopes name = (target? name os).map (fs.length + ·) := by
  have hzero := h.scopes 0 name
  rwa [List.replicate_zero, List.append_nil] at hzero

/-- A use is followed by recording it with the symbol of what it refers to. -/
theorem use (h : c.Follows fs os place) (hi : target? name os = some i) (line : Nat) :
    (c.recordUse (fs.length + i) line).Follows fs (os ++ [.use name line]) place where
  scopes k name' := by
    rw [target?_skip (fun _ _ => rfl) (fun _ => rfl)]
    exact h.scopes k name'
  symbols := by
    show c.symbols.modify (fs.length + i) (Symbol.usedOn line) = _
    rw [h.symbols, functionSymbols_snoc rfl, declaredSymbols_use hi,
      ← modify_append_length_add, functionSymbols_length]
  functions := h.functions
  level := h.level
  sections := h.sections
  routine := h.routine
  refers := h.refers.snoc ⟨i, hi⟩
  inSections := h.inSections_snoc rfl

/-- A call is followed by recording it with the symbol of the function. -/
theorem call (h : c.Follows fs os place) (hk : (c.functions.lookup name).map Signature.symbol = some k)
    (line : Nat) : (c.recordUse k line).Follows fs (os ++ [.call name line]) place where
  scopes k name' := by
    rw [target?_skip (fun _ _ => rfl) (fun _ => rfl)]
    exact h.scopes k name'
  symbols := by
    have hname := (h.functions name k).mp hk
    -- the names of the functions are different, since each is registered with one symbol
    have honly : ∀ j, (fs.map FunctionDef.name)[j]? = some name ↔ j = k := by
      intro j
      rw [← h.functions name j, hk, Option.some_inj]
      exact eq_comm
    have hlt : k < (functionSymbols fs os).length := by
      have hlt := (List.getElem?_eq_some_iff.mp hname).1
      rw [List.length_map] at hlt
      rwa [functionSymbols_length]
    show c.symbols.modify k (Symbol.usedOn line) = _
    rw [h.symbols, modify_append_of_lt _ hlt, functionSymbols_call honly,
      declaredSymbols_snoc rfl rfl]
  functions := h.functions
  level := h.level
  sections := h.sections
  routine := h.routine
  refers := h.refers.snoc (List.mem_of_getElem? ((h.functions name k).mp hk))
  inSections := h.inSections_snoc rfl

/-- A scope is entered by opening one. -/
theorem enter (h : c.Follows fs os place) : c.pushScope.Follows fs (os ++ [.enter]) place.inner where
  scopes k name := by
    cases k with
    -- the new scope is empty, so the names are found where they were found before
    | zero =>
      show symbolOf? ([] :: c.scopes) name = (target? name (os ++ [.enter] ++ [])).map _
      rw [symbolOf?_cons, List.lookup_nil, Option.none_or, List.append_nil, target?_enter]
      exact h.symbol_eq name
    | succ k =>
      -- leaving the scope again takes back the entering
      show symbolOf? (c.scopes.drop k) name = _
      rw [h.scopes k name, ← target?_enter_leave, List.append_assoc]
      rfl
  symbols := by
    rw [functionSymbols_snoc rfl, declaredSymbols_snoc rfl rfl]
    exact h.symbols
  functions := h.functions
  level := congrArg (· + 1) h.level
  sections := h.sections
  routine := h.routine
  refers := h.refers.snoc trivial
  inSections := h.inSections_snoc rfl

/-- A scope is left by closing the innermost one. -/
theorem leave (h : c.Follows fs os place.inner) : c.popScope.Follows fs (os ++ [.leave]) place where
  scopes k name := by
    show symbolOf? (c.scopes.tail.drop k) name = _
    rw [List.drop_tail, h.scopes (k + 1) name, List.append_assoc]
    rfl
  symbols := by
    rw [functionSymbols_snoc rfl, declaredSymbols_snoc rfl rfl]
    exact h.symbols
  functions := h.functions
  level := by
    show c.scopes.tail.length = _
    rw [List.length_tail, h.level]
    rfl
  sections := h.sections
  routine := h.routine
  refers := h.refers.snoc trivial
  inSections := h.inSections_snoc rfl

/-- The innermost scope before and after a declaration. -/
theorem scopes_declare (h : c.Follows fs os place) (hfree : c.declaresHere name = false)
    (kind : SymbolKind) (type : Ty) (pos : Position) :
    ∃ scope outer, c.scopes = scope :: outer ∧ c.declare name kind type pos =
      { c with
        scopes := ((name, fs.length + (declarations os).length) :: scope) :: outer
        symbols := c.symbols ++ [⟨name, kind, type, place.level, place.routine, pos.line, []⟩] } := by
  cases hscopes : c.scopes with
  | nil => exact absurd (hscopes ▸ h.level) (Nat.succ_ne_zero _).symm
  | cons scope outer =>
    refine ⟨scope, outer, rfl, ?_⟩
    rw [declare_of_free kind type pos hfree, ← h.symbols_length, ← h.routine,
      show place.level = c.scopes.length - 1 from by rw [h.level]; rfl]
    simp only [bind, addSymbol, hscopes]

/-- A declaration is followed by declaring the name in the innermost scope. -/
theorem declare (h : c.Follows fs os place) (hfree : c.declaresHere name = false)
    (kind : SymbolKind) (type : Ty) (pos : Position) :
    (c.declare name kind type pos).Follows fs
      (os ++ [.declare ⟨name, kind, type, place.level, place.routine, pos.line⟩]) place := by
  obtain ⟨scope, outer, hscopes, hdeclare⟩ := h.scopes_declare hfree kind type pos
  rw [hdeclare]
  refine ⟨fun k name' => ?_, ?_, h.functions, ?_, h.sections, h.routine, h.refers.snoc trivial, ?_⟩
  · generalize hd : (⟨name, kind, type, place.level, place.routine, pos.line⟩ : Declaration) = d
    have hname : d.name = name := by rw [← hd]
    cases k with
    -- a declaration in the innermost scope hides the one further out
    | zero =>
      have hrest := h.symbol_eq name'
      rw [hscopes, symbolOf?_cons] at hrest
      show symbolOf? (((name, _) :: scope) :: outer) name' = (target? name' (os ++ [.declare d] ++ [])).map _
      rw [symbolOf?_cons, Lookup.lookup_cons, List.append_nil, target?_declare, hname]
      by_cases hsame : name' = name
      · rw [if_pos hsame, if_pos hsame.symm]
        rfl
      · rw [if_neg hsame, if_neg (Ne.symm hsame)]
        exact hrest
    | succ k =>
      -- once the innermost scope is left, its declaration is out of sight
      have hrest := h.scopes (k + 1) name'
      rw [hscopes, List.drop_succ_cons] at hrest
      show symbolOf? (outer.drop k) name' = _
      rw [hrest, List.append_assoc]
      exact congrArg _ (target?_declare_leave d name' k os).symm
  · show c.symbols ++ [_] = _
    rw [functionSymbols_snoc rfl, declaredSymbols_declare, ← List.append_assoc, ← h.symbols]
    rfl
  · rw [← h.level, hscopes]
    rfl
  · intro d hd
    rw [declarations_append, List.mem_append] at hd
    rcases hd with hd | hd
    · exact h.inSections d hd
    · cases List.mem_singleton.mp hd
      exact place.routine_lt

end Follows

end Checker

end Primer
