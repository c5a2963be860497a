import Primer.Proofs.CrossReference.Table

/-!
# Looking a local name up

The sections of a cross-reference table are found by name. Functions have different names, but nothing
keeps a program from having the name of one of its functions. The section of the program comes first, so it
then hides the section of the function.

- `Entry.Earliest` is the entry that a look-up should find: the one for the name with the smallest line of
  declaration. `Entry.find?_sort` says that it comes first in a sorted section.
- `Occurrence.DeclaresAt` says to which section declarations belong and how deep they stand. An entry of
  the program is therefore no entry of a function.
- `lookup?_local_iff` says when a look-up finds the entry of a local name.
- `sharedName_hidden` is a program in which it does not.
-/

namespace Primer

open Occurrence

/-! ## The earliest entry -/

namespace Entry

/-- The line of the declaration. -/
def line (e : Entry) : Nat :=
  e.lines.headD 0

/-- Among the entries, this one is for the name and has the smallest line of declaration; of several with
this line it comes first. -/
structure Earliest (entries : List Entry) (name : String) (e : Entry) : Prop where
  named : e.name = name
  split : ∃ before after, entries = before ++ e :: after ∧
    (∀ x ∈ before, x.name = name → e.line < x.line) ∧ ∀ x ∈ after, x.name = name → e.line ≤ x.line

variable {entries : List Entry} {name : String} {e : Entry}

theorem Earliest.mem (h : Earliest entries name e) : e ∈ entries := by
  obtain ⟨before, after, rfl, -, -⟩ := h.split
  exact List.mem_append_right _ List.mem_cons_self

theorem Earliest.le (h : Earliest entries name e) {x : Entry} (hx : x ∈ entries) (hname : x.name = name) :
    e.line ≤ x.line := by
  obtain ⟨before, after, rfl, hbefore, hafter⟩ := h.split
  rcases List.mem_append.mp hx with hx | hx
  · exact Nat.le_of_lt (hbefore x hx hname)
  · rcases List.mem_cons.mp hx with rfl | hx
    · exact Nat.le_refl _
    · exact hafter x hx hname

/-- An entry in front that is not for the name, or that is declared later, makes no difference. -/
theorem Earliest.cons (h : Earliest entries name e) {x : Entry} (hx : x.name = name → e.line < x.line) :
    Earliest (x :: entries) name e := by
  obtain ⟨before, after, rfl, hbefore, hafter⟩ := h.split
  exact ⟨h.named, x :: before, after, rfl, List.forall_mem_cons.mpr ⟨hx, hbefore⟩, hafter⟩

theorem earliest_head (hname : e.name = name) (hle : ∀ x ∈ entries, x.name = name → e.line ≤ x.line) :
    Earliest (e :: entries) name e :=
  ⟨hname, [], entries, rfl, List.forall_mem_nil _, hle⟩

theorem find?_insert_of_ne (h : e.name ≠ name) : ∀ l : List Entry,
    (insert e l).find? (fun x => x.name == name) = l.find? fun x => x.name == name
  | [] => by simp [insert, h]
  | x :: l => by
    rw [insert]
    split
    · rw [List.find?_cons_of_neg (by simpa using h)]
    · rw [List.find?_cons, List.find?_cons, find?_insert_of_ne h l]

/-- An entry is put in front of the first one for its name, unless this one is declared earlier. -/
theorem find?_insert_of_eq (h : e.name = name) : ∀ l : List Entry, l.Pairwise Ordered →
    (insert e l).find? (fun x => x.name == name) =
      match l.find? fun x => x.name == name with
      | some x => if e.line ≤ x.line then some e else some x
      | none => some e
  | [], _ => by simp [insert, h]
  | x :: l, hsorted => by
    obtain ⟨hx, hl⟩ := List.pairwise_cons.mp hsorted
    by_cases hname : x.name = name
    · rw [List.find?_cons_of_pos (by simpa using hname), insert]
      have hprecedes : e.precedes x = decide (e.line ≤ x.line) := by
        rw [precedes, if_pos (h.trans hname.symm)]
        rfl
      by_cases hle : e.line ≤ x.line
      · simp [hprecedes, hle, h]
      · simp [hprecedes, hle, hname]
    · rw [List.find?_cons_of_neg (by simpa using hname), insert]
      split
      · next hprecedes =>
        -- behind an entry for a later name there is none for this one
        have hlt : e.name < x.name := by
          rcases precedes_iff.mp hprecedes with hlt | ⟨heq, -⟩
          · exact hlt
          · exact absurd (heq.symm.trans h) hname
        have hnone : l.find? (fun x => x.name == name) = none := by
          refine List.find?_eq_none.mpr fun y hy hyname => ?_
          have hyname : y.name = name := by simpa using hyname
          rcases hx y hy with hxy | ⟨hxy, -⟩
          · rw [hyname, ← h] at hxy
            exact String.lt_asymm hlt hxy
          · exact hname (hxy.trans hyname)
        rw [List.find?_cons_of_pos (by simpa using h), hnone]
      · rw [List.find?_cons_of_neg (by simpa using hname), find?_insert_of_eq h l hl]

/-- In a sorted section the earliest entry for a name comes first. -/
theorem find?_sort : ∀ l : List Entry, (∃ x ∈ l, x.name = name) →
    ∃ e, (sort l).find? (fun x => x.name == name) = some e ∧ Earliest l name e
  | [], h => by
    obtain ⟨_, hx, -⟩ := h
    cases hx
  | a :: l, h => by
    -- insertion keeps the order, so the first entry of the name is the new one or that of the tail
    have hsort : sort (a :: l) = insert a (sort l) := rfl
    rw [hsort]
    by_cases hl : ∃ x ∈ l, x.name = name
    · obtain ⟨e, hfind, hearliest⟩ := find?_sort l hl
      by_cases ha : a.name = name
      · rw [find?_insert_of_eq ha _ (sort_ordered l), hfind]
        by_cases hle : a.line ≤ e.line
        · exact ⟨a, if_pos hle, earliest_head ha fun x hx hname => Nat.le_trans hle (hearliest.le hx hname)⟩
        · exact ⟨e, if_neg hle, hearliest.cons fun _ => Nat.lt_of_not_le hle⟩
      · rw [find?_insert_of_ne ha]
        exact ⟨e, hfind, hearliest.cons fun hname => absurd hname ha⟩
    -- no entry of the tail has the name, so the new one is the first and only one
    · have hnone : (sort l).find? (fun x => x.name == name) = none :=
        List.find?_eq_none.mpr fun x hx hname =>
          hl ⟨x, (sort_perm l).mem_iff.mp hx, by simpa using hname⟩
      obtain ⟨x, hx, hname⟩ := h
      obtain rfl : x = a := (List.mem_cons.mp hx).resolve_right fun hx => hl ⟨x, hx, hname⟩
      rw [find?_insert_of_eq hname _ (sort_ordered l), hnone]
      exact ⟨x, rfl, earliest_head hname fun y hy hyname => absurd ⟨y, hy, hyname⟩ hl⟩

end Entry

/-! ## Where names are declared -/

namespace Occurrence

/-- All that is declared belongs to the section and stands inside of at least `level` scopes. -/
def DeclaresAt (routine level : Nat) (os : List Occurrence) : Prop :=
  ∀ d ∈ declarations os, d.routine = routine ∧ level ≤ d.level

variable {routine level : Nat} {os os' : List Occurrence}

theorem DeclaresAt.append (h : DeclaresAt routine level os) (h' : DeclaresAt routine level os') :
    DeclaresAt routine level (os ++ os') := by
  intro d hd
  rw [declarations_append, List.mem_append] at hd
  exact hd.elim (h d) (h' d)

theorem DeclaresAt.mono {level' : Nat} (h : DeclaresAt routine level' os) (hle : level ≤ level') :
    DeclaresAt routine level os :=
  fun d hd => ⟨(h d hd).1, Nat.le_trans hle (h d hd).2⟩

theorem declaresAt_of_nil (h : declarations os = []) : DeclaresAt routine level os := by
  intro d hd
  rw [h] at hd
  cases hd

theorem declaresAt_enter : DeclaresAt routine level [.enter] :=
  declaresAt_of_nil rfl

/-- What stands in a scope of its own. -/
theorem DeclaresAt.scope (h : DeclaresAt routine (level + 1) os) :
    DeclaresAt routine level (.enter :: os ++ [.leave]) :=
  (declaresAt_enter.append (h.mono (Nat.le_succ level))).append
    (declaresAt_of_nil rfl)

end Occurrence

mutual

/-- Expressions declare nothing. -/
theorem Expr.declarations_eq_nil : ∀ e : Expr, declarations e.occurrences = []
  | .literal _ _ => rfl
  | .var _ _ => rfl
  | .assign name value pos => by
    rw [Expr.occurrences, declarations_append, value.declarations_eq_nil]
    rfl
  | .unary _ operand _ => by
    rw [Expr.occurrences]
    exact operand.declarations_eq_nil
  | .binary _ left right _ => by
    rw [Expr.occurrences, declarations_append, left.declarations_eq_nil, right.declarations_eq_nil]
    rfl
  | .call name args pos => by
    rw [Expr.occurrences, declarations_append, Expr.listDeclarations_eq_nil args]
    split <;> rfl

theorem Expr.listDeclarations_eq_nil : ∀ es : List Expr, declarations (Expr.listOccurrences es) = []
  | [] => rfl
  | e :: es => by
    rw [Expr.listOccurrences, declarations_append, e.declarations_eq_nil, Expr.listDeclarations_eq_nil es]
    rfl

end

theorem Expr.optionDeclarations_eq_nil : ∀ e? : Option Expr, declarations (Expr.optionOccurrences e?) = []
  | none => rfl
  | some e => e.declarations_eq_nil

section

variable (routine : Nat)

theorem Expr.declaresAt (e : Expr) (level : Nat) : DeclaresAt routine level e.occurrences :=
  declaresAt_of_nil e.declarations_eq_nil

theorem Expr.option_declaresAt (e? : Option Expr) (level : Nat) :
    DeclaresAt routine level (Expr.optionOccurrences e?) :=
  declaresAt_of_nil (Expr.optionDeclarations_eq_nil e?)

theorem VarDecl.declaresAt (d : VarDecl) (level : Nat) :
    DeclaresAt routine level (d.occurrences routine level) := by
  refine (Expr.option_declaresAt routine d.init level).append fun d' hd' => ?_
  cases List.mem_singleton.mp hd'
  exact ⟨rfl, Nat.le_refl level⟩

theorem ForInit.declaresAt (init : Option ForInit) (level : Nat) :
    DeclaresAt routine level (ForInit.occurrences routine level init) := by
  match init with
  | none => exact declaresAt_of_nil rfl
  | some (.declare d) => exact d.declaresAt routine level
  | some (.eval e) => exact e.declaresAt routine level

mutual

theorem Stmt.declaresAt : ∀ (s : Stmt) (level : Nat),
    DeclaresAt routine level (s.occurrences routine level)
  | .declare d, level => by
    rw [Stmt.occurrences]
    exact d.declaresAt routine level
  | .eval e _, level => by
    rw [Stmt.occurrences]
    exact e.declaresAt routine level
  | .block body _, level => by
    rw [Stmt.occurrences]
    exact (Stmt.list_declaresAt body (level + 1)).scope
  | .branch cond onTrue none _, level => by
    rw [Stmt.occurrences]
    exact (cond.declaresAt routine level).append (onTrue.declaresAt level)
  | .branch cond onTrue (some onFalse) _, level => by
    rw [Stmt.occurrences]
    exact ((cond.declaresAt routine level).append (onTrue.declaresAt level)).append
      (onFalse.declaresAt level)
  | .whileLoop cond body _, level => by
    rw [Stmt.occurrences]
    exact (cond.declaresAt routine level).append (body.declaresAt level)
  | .forLoop init cond step body _, level => by
    rw [Stmt.occurrences]
    refine DeclaresAt.scope (((DeclaresAt.append ?_ ?_).append ?_).append (body.declaresAt (level + 1)))
    · exact ForInit.declaresAt routine init (level + 1)
    · exact Expr.option_declaresAt routine cond (level + 1)
    · exact Expr.option_declaresAt routine step (level + 1)
  | .switch e groups _, level => by
    rw [Stmt.occurrences]
    exact (e.declaresAt routine level).append (CaseGroup.list_declaresAt groups level)
  | .ret value _, level => by
    rw [Stmt.occurrences]
    exact Expr.option_declaresAt routine value level
  | .brk _, level => by
    rw [Stmt.occurrences]
    exact declaresAt_of_nil rfl

theorem Stmt.list_declaresAt : ∀ (body : List Stmt) (level : Nat),
    DeclaresAt routine level (Stmt.listOccurrences routine level body)
  | [], _ => by
    rw [Stmt.listOccurrences]
    exact declaresAt_of_nil rfl
  | s :: rest, level => by
    rw [Stmt.listOccurrences]
    exact (s.declaresAt level).append (Stmt.list_declaresAt rest level)

theorem CaseGroup.list_declaresAt : ∀ (groups : List CaseGroup) (level : Nat),
    DeclaresAt routine level (CaseGroup.listOccurrences routine level groups)
  | [], _ => by
    rw [CaseGroup.listOccurrences]
    exact declaresAt_of_nil rfl
  | .mk _ body _ :: rest, level => by
    rw [CaseGroup.listOccurrences]
    exact (Stmt.list_declaresAt body level).append (CaseGroup.list_declaresAt rest level)

end

theorem FunctionDef.declaresAt (f : FunctionDef) : DeclaresAt routine 1 (f.occurrences routine) := by
  have hparams : DeclaresAt routine 1 (f.params.map (Param.occurrence routine)) := by
    intro d hd
    obtain ⟨o, ho, hdeclared⟩ := List.mem_filterMap.mp hd
    obtain ⟨p, -, rfl⟩ := List.mem_map.mp ho
    cases hdeclared
    exact ⟨rfl, Nat.le_refl 1⟩
  exact (declaresAt_enter.append
    (hparams.append (Stmt.list_declaresAt routine f.body 1))).append (declaresAt_of_nil rfl)

end

/-- Globals belong to the program and stand in no scope; all else belongs to a function. -/
theorem Item.level_of_mem_declarations : ∀ (items : List Item) (functions : Nat),
    ∀ d ∈ declarations (Item.listOccurrences functions items),
      (d.routine = 0 ∧ d.level = 0) ∨ (functions < d.routine ∧ 1 ≤ d.level)
  | [], _, _, hd => by cases hd
  | .global g :: rest, functions, d, hd => by
    rw [Item.listOccurrences, declarations_append, List.mem_append] at hd
    rcases hd with hd | hd
    · rw [VarDecl.occurrences, declarations_append, Expr.optionDeclarations_eq_nil] at hd
      cases List.mem_singleton.mp hd
      exact .inl ⟨rfl, rfl⟩
    · exact Item.level_of_mem_declarations rest functions d hd
  | .function f :: rest, functions, d, hd => by
    rw [Item.listOccurrences, declarations_append, List.mem_append] at hd
    rcases hd with hd | hd
    · obtain ⟨hroutine, hlevel⟩ := f.declaresAt (functions + 1) d hd
      exact .inr ⟨by omega, hlevel⟩
    · rcases Item.level_of_mem_declarations rest (functions + 1) d hd with h | ⟨hroutine, hlevel⟩
      · exact .inl h
      · exact .inr ⟨by omega, hlevel⟩

/-- What a function declares is declared in its program, in the section of the function. -/
theorem Item.mem_declarations : ∀ (items : List Item) (functions k : Nat) (f : FunctionDef),
    (Item.functions items)[k]? = some f → ∀ d ∈ declarations (f.occurrences (functions + k + 1)),
      d ∈ declarations (Item.listOccurrences functions items)
  | [], _, _, _, hf, _, _ => by cases hf
  | .global g :: rest, functions, k, f, hf, d, hd => by
    rw [Item.listOccurrences, declarations_append]
    exact List.mem_append_right _ (Item.mem_declarations rest functions k f hf d hd)
  | .function g :: rest, functions, k, f, hf, d, hd => by
    rw [Item.listOccurrences, declarations_append]
    cases k with
    | zero =>
      cases hf
      exact List.mem_append_left _ hd
    | succ k =>
      refine List.mem_append_right _ (Item.mem_declarations rest (functions + 1) k f hf d ?_)
      rwa [show functions + (k + 1) + 1 = functions + 1 + k + 1 by omega] at hd

namespace Program

variable {p : Program} {k : Nat} {e : Entry}

theorem level_of_mem_section_zero (h : e ∈ p.sectionEntries 0) : e.level = 0 := by
  rw [sectionEntries, if_pos rfl, List.mem_append] at h
  rcases h with h | h
  · obtain ⟨f, -, rfl⟩ := List.mem_map.mp h
    rfl
  · obtain ⟨⟨d, i⟩, hd, rfl⟩ := List.mem_map.mp h
    obtain ⟨hd, hroutine⟩ := List.mem_filter.mp hd
    have hd : d ∈ declarations p.occurrences := List.fst_mem_of_mem_zipIdx hd
    rcases Item.level_of_mem_declarations p.items 0 d hd with ⟨-, hlevel⟩ | ⟨hlt, -⟩
    · exact hlevel
    · have : d.routine = 0 := by simpa using hroutine
      omega

theorem level_of_mem_section_succ (h : e ∈ p.sectionEntries (k + 1)) : 1 ≤ e.level := by
  rw [sectionEntries, if_neg (Nat.succ_ne_zero k), List.nil_append] at h
  obtain ⟨⟨d, i⟩, hd, rfl⟩ := List.mem_map.mp h
  obtain ⟨hd, hroutine⟩ := List.mem_filter.mp hd
  have hd : d ∈ declarations p.occurrences := List.fst_mem_of_mem_zipIdx hd
  rcases Item.level_of_mem_declarations p.items 0 d hd with ⟨hzero, -⟩ | ⟨-, hlevel⟩
  · have : d.routine = k + 1 := by simpa using hroutine
    omega
  · exact hlevel

/-- A name that a function declares has an entry in the section of the function. -/
theorem exists_mem_section {f : FunctionDef} (hf : p.functions[k]? = some f) {d : Declaration}
    (hd : d ∈ declarations (f.occurrences (k + 1))) : ∃ e ∈ p.sectionEntries (k + 1), e.name = d.name := by
  have hmem : d ∈ declarations p.occurrences := by
    refine Item.mem_declarations p.items 0 k f hf d ?_
    rwa [Nat.zero_add]
  obtain ⟨i, hi⟩ := List.getElem?_of_mem hmem
  refine ⟨d.entry (linesTo i p.occurrences), ?_, rfl⟩
  rw [sectionEntries, if_neg (Nat.succ_ne_zero k), List.nil_append]
  refine List.mem_map.mpr ⟨(d, i), List.mem_filter.mpr ⟨List.mem_zipIdx_iff_getElem?.mpr hi, ?_⟩, rfl⟩
  simpa using (f.declaresAt (k + 1) d hd).1

end Program

/-! ## Looking up -/

theorem table_of_check {p : Program} {table : CrossReference} (h : check p = .ok table) :
    table = (Checker.ofProgram p).crossReference := by
  simp only [check] at h
  split at h
  · cases h
    rfl
  · cases h

/-- Where names are different, the one that is looked for is found. -/
theorem find?_of_nodup {l : List Routine} {k : Nat} {r : Routine} (hnodup : (l.map Routine.name).Nodup)
    (hk : l[k]? = some r) : l.find? (fun r' => r'.name == r.name) = some r := by
  obtain ⟨hlt, rfl⟩ := List.getElem?_eq_some_iff.mp hk
  refine List.find?_eq_some_iff_getElem.mpr ⟨beq_self_eq_true _, k, hlt, rfl, fun j hj => ?_⟩
  have hne := List.pairwise_iff_getElem.mp hnodup j k (by simp; omega) (by simpa using hlt) hj
  simpa using hne

namespace Checker.Follows

variable {p : Program} {place : Place} {c : Checker} {k : Nat} {f : FunctionDef}

/-- Each function has a section of its own behind that of the program. -/
theorem routine_function (h : c.Follows p.functions p.occurrences place)
    (hplace : place.sections = (p.name, true) :: p.functions.map Check.functionSection)
    (hf : p.functions[k]? = some f) : ∃ own, c.crossReference.routines[k + 1]? = some own ∧
      own.name = f.name ∧ own.isProgram = false := by
  have hsection := congrArg (·[k + 1]?) (h.routines_names.trans hplace)
  simp only [List.getElem?_map, List.getElem?_cons_succ, hf, Option.map_some] at hsection
  obtain ⟨own, hown, hname⟩ := Option.map_eq_some_iff.mp hsection
  obtain ⟨hname, hprogram⟩ := Prod.mk.inj hname
  exact ⟨own, hown, hname, hprogram⟩

/-- By the name of a function its section is found, unless the program has the same name. -/
theorem find?_function (h : c.Follows p.functions p.occurrences place)
    (hplace : place.sections = (p.name, true) :: p.functions.map Check.functionSection) {own : Routine}
    (hown : c.crossReference.routines[k + 1]? = some own) :
    c.crossReference.routines.find? (fun r => r.name == own.name) =
      if p.name = own.name then c.crossReference.routines[0]? else some own := by
  obtain ⟨first, rest, hroutines, hfirst, hrest⟩ := List.map_eq_cons_iff.mp (h.routines_names.trans hplace)
  have hnodup : (rest.map Routine.name).Nodup := by
    have hnames := congrArg (List.map Prod.fst) hrest
    rw [List.map_map, List.map_map] at hnames
    exact hnames ▸ h.nodup
  have hname : first.name = p.name := congrArg Prod.fst hfirst
  rw [hroutines, List.getElem?_cons_succ] at hown
  rw [hroutines]
  by_cases hsame : p.name = own.name
  · rw [if_pos hsame, List.find?_cons_of_pos (by simp [hname, hsame])]
    rfl
  · rw [if_neg hsame, List.find?_cons_of_neg (by simp [hname, hsame])]
    exact find?_of_nodup hnodup hown

end Checker.Follows

theorem CrossReference.lookup?_eq (table : CrossReference) (routine name : String) :
    table.lookup? routine name =
      (table.routines.find? fun r => r.name == routine).bind fun r => r.entries.find? fun e => e.name == name :=
  rfl

/-- In the table of an accepted program each function has a section. Looking up a name that the function
declares finds the earliest of its entries there if, and only if, the program does not have the name of the
function. If it has, only entries of the program are found. -/
theorem lookup?_local_iff {p : Program} {table : CrossReference} (h : check p = .ok table) {k : Nat}
    {f : FunctionDef} (hf : p.functions[k]? = some f) {d : Declaration}
    (hd : d ∈ declarations (f.occurrences (k + 1))) :
    ∃ own, table.routines[k + 1]? = some own ∧ own.name = f.name ∧ own.isProgram = false ∧
      ((∃ e ∈ own.entries, table.lookup? f.name d.name = some e ∧
        Entry.Earliest (p.sectionEntries (k + 1)) d.name e) ↔ p.name ≠ f.name) ∧
      (p.name = f.name → ∀ e, table.lookup? f.name d.name = some e → e ∈ p.sectionEntries 0) := by
  have hfollows := Checker.ofProgram_follows (errors_of_check h)
  rw [table_of_check h]
  obtain ⟨own, hown, hname, hprogram⟩ := hfollows.routine_function rfl hf
  have hentries := hfollows.routine_eq hown
  have hfind := hfollows.find?_function rfl hown
  have hsame : p.name = f.name → ∀ e, (Checker.ofProgram p).crossReference.lookup? f.name d.name = some e →
      e ∈ p.sectionEntries 0 := by
    intro hsame e he
    rw [CrossReference.lookup?_eq, ← hname, hfind, if_pos (hsame.trans hname.symm)] at he
    obtain ⟨first, hfirst, he⟩ := Option.bind_eq_some_iff.mp he
    rw [hfollows.routine_eq hfirst] at he
    exact (Entry.sort_perm _).mem_iff.mp (List.mem_of_find?_eq_some he)
  refine ⟨own, hown, hname, hprogram, ⟨?_, fun hne => ?_⟩, hsame⟩
  · rintro ⟨e, -, he, hearliest⟩ heq
    -- an entry of the program does not stand inside of a scope
    have hzero := Program.level_of_mem_section_zero (hsame heq e he)
    have hpos := Program.level_of_mem_section_succ hearliest.mem
    omega
  · obtain ⟨e, he, hearliest⟩ := Entry.find?_sort _ (Program.exists_mem_section hf hd)
    rw [← hentries] at he
    refine ⟨e, List.mem_of_find?_eq_some he, ?_, hearliest⟩
    rw [CrossReference.lookup?_eq, ← hname, hfind, if_neg (hname ▸ hne)]
    exact he

/-- The program, the names of its first function and of the first name that this declares, and what is found
for a name in a section. -/
def CheckedProgram.firstLocal (checked : CheckedProgram) (routine name : String) :
    String × Option (String × Option String) × Option Entry :=
  (checked.program.name, checked.program.functions[0]?.map fun f =>
    (f.name, (declarations (f.occurrences 1))[0]?.map Declaration.name), checked.table.lookup? routine name)

/-- Of the two variables `y` of `main` the outer one is found. -/
theorem nestedNames_lookup : ∃ p table f d, parseSource nestedNames = .ok p ∧ check p = .ok table ∧
    p.functions[0]? = some f ∧ f.name = "main" ∧ d ∈ declarations (f.occurrences 1) ∧ d.name = "y" ∧
    Entry.Earliest (p.sectionEntries 1) "y" ⟨"y", .variable_, .int, 1, [4, 5, 9]⟩ ∧
    table.lookup? "main" "y" = some ⟨"y", .variable_, .int, 1, [4, 5, 9]⟩ := by
  have hfacts : ((checkSource nestedNames).toOption.map fun checked => checked.firstLocal "main" "y") =
      some ("p", some ("main", some "y"), some ⟨"y", .variable_, .int, 1, [4, 5, 9]⟩) := by
    decide +kernel
  obtain ⟨checked, hchecked, hfacts⟩ := Option.map_eq_some_iff.mp hfacts
  obtain ⟨hparse, hcheck⟩ := checkSource_eq_ok_iff.mp (toOption_eq_some.mp hchecked)
  simp only [CheckedProgram.firstLocal, Prod.mk.injEq, Option.map_eq_some_iff] at hfacts
  obtain ⟨hprogram, ⟨f, hf, hname, d, hd, hdname⟩, hlookup⟩ := hfacts
  have hd := List.mem_of_getElem? hd
  obtain ⟨own, -, -, -, hiff, -⟩ := lookup?_local_iff hcheck hf hd
  rw [hname, hdname] at hiff
  obtain ⟨e, -, he, hearliest⟩ := hiff.mpr (by rw [hprogram]; decide)
  cases he.symm.trans hlookup
  exact ⟨_, _, f, d, hparse, hcheck, hf, hname, hd, hdname, hearliest, hlookup⟩

/-- A program with the name of its only function. -/
def sharedName : String :=
  "Program main;\nint main() \x7b int x = 1; return x; \x7d"

/-- The local variable of `main` is not found, since the program is called `main` as well. -/
theorem sharedName_hidden : ∃ p table f d, parseSource sharedName = .ok p ∧ check p = .ok table ∧
    p.functions[0]? = some f ∧ f.name = "main" ∧ d ∈ declarations (f.occurrences 1) ∧ d.name = "x" ∧
    table.lookup? "main" "x" = none := by
  have hfacts : ((checkSource sharedName).toOption.map fun checked => checked.firstLocal "main" "x") =
      some ("main", some ("main", some "x"), none) := by
    decide +kernel
  obtain ⟨checked, hchecked, hfacts⟩ := Option.map_eq_some_iff.mp hfacts
  obtain ⟨hparse, hcheck⟩ := checkSource_eq_ok_iff.mp (toOption_eq_some.mp hchecked)
  simp only [CheckedProgram.firstLocal, Prod.mk.injEq, Option.map_eq_some_iff] at hfacts
  obtain ⟨-, ⟨f, hf, hname, d, hd, hdname⟩, hlookup⟩ := hfacts
  exact ⟨_, _, f, d, hparse, hcheck, hf, hname, List.mem_of_getElem? hd, hdname, hlookup⟩

end Primer
