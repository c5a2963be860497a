import Mathlib.Data.List.Perm.Basic
import Primer.Proofs.CrossReference.Walk
import Primer.Proofs.Stages

/-!
# The cross-reference table is exact

The table of an accepted program has the entries that its occurrences call for, each in its section, and
it has no others.

- `Entry.Ordered` is the order of a section, and `Entry.sort_perm` and `Entry.sort_ordered` say that
  sorting puts entries into it.
- `Program.Listed` says what a table has to do with its program.
- `crossReference_exact` says that `check` gives such a table.
-/

namespace Primer

open Occurrence

/-! ## Sorting -/

namespace Entry

/-- Entries are ordered by name, and those of one name by the line of their declaration. -/
def Ordered (a b : Entry) : Prop :=
  a.name < b.name ∨ a.name = b.name ∧ a.lines.headD 0 ≤ b.lines.headD 0

theorem precedes_iff {a b : Entry} : a.precedes b = true ↔ a.Ordered b := by
  unfold precedes Ordered
  by_cases hname : a.name = b.name
  · simp [hname]
  · simp [hname]

theorem Ordered.trans {a b c : Entry} (h : a.Ordered b) (h' : b.Ordered c) : a.Ordered c := by
  rcases h with h | ⟨h, hline⟩ <;> rcases h' with h' | ⟨h', hline'⟩
  · exact .inl (String.lt_trans h h')
  · exact .inl (h' ▸ h)
  · exact .inl (h ▸ h')
  · exact .inr ⟨h.trans h', Nat.le_trans hline hline'⟩

/-- Of two entries, one precedes the other. -/
theorem ordered_of_not {a b : Entry} (h : ¬ a.Ordered b) : b.Ordered a := by
  obtain ⟨hlt, hline⟩ := not_or.mp h
  by_cases hname : a.name = b.name
  · exact .inr ⟨hname.symm, Nat.le_of_not_le fun hle => hline ⟨hname, hle⟩⟩
  · by_cases hgt : b.name < a.name
    · exact .inl hgt
    · exact absurd (String.le_antisymm (String.not_lt.mp hgt) (String.not_lt.mp hlt)) hname

theorem insert_perm (e : Entry) : ∀ l : List Entry, (insert e l).Perm (e :: l)
  | [] => .refl _
  | x :: l => by
    rw [insert]
    split
    · exact .refl _
    · exact ((insert_perm e l).cons x).trans (.swap e x l)

theorem sort_perm : ∀ l : List Entry, (sort l).Perm l
  | [] => .refl _
  | e :: l => (insert_perm e (sort l)).trans ((sort_perm l).cons e)

theorem insert_ordered (e : Entry) : ∀ l : List Entry, l.Pairwise Ordered → (insert e l).Pairwise Ordered
  | [], _ => List.pairwise_singleton _ _
  | x :: l, h => by
    obtain ⟨hx, hl⟩ := List.pairwise_cons.mp h
    rw [insert]
    split
    · next hle =>
      have hex : e.Ordered x := precedes_iff.mp hle
      refine List.pairwise_cons.mpr ⟨fun y hy => ?_, h⟩
      rcases List.mem_cons.mp hy with rfl | hy
      · exact hex
      · exact hex.trans (hx y hy)
    · next hle =>
      have hxe : x.Ordered e := ordered_of_not fun hex => hle (precedes_iff.mpr hex)
      refine List.pairwise_cons.mpr ⟨fun y hy => ?_, insert_ordered e l hl⟩
      rcases List.mem_cons.mp ((insert_perm e l).mem_iff.mp hy) with rfl | hy
      · exact hxe
      · exact hx y hy

theorem sort_ordered : ∀ l : List Entry, (sort l).Pairwise Ordered
  | [] => .nil
  | e :: l => insert_ordered e (sort l) (sort_ordered l)

end Entry

/-! ## Numbers and groups -/

/-- What depends on the number of an element only. -/
theorem map_mapIdx_eq_range {α β γ : Type} (l : List α) {f : Nat → α → β} {g : β → γ} {h : Nat → γ}
    (hfg : ∀ i a, g (f i a) = h i) : (l.mapIdx f).map g = (List.range l.length).map h := by
  refine List.ext_getElem (by simp) fun i _ _ => ?_
  simp [hfg]

/-- A list falls into groups by its keys, and nothing is lost. -/
theorem flatMap_filter_perm {α κ : Type} [DecidableEq κ] (key : α → κ) : ∀ {keys : List κ}, keys.Nodup →
    ∀ l : List α, (∀ a ∈ l, key a ∈ keys) → (keys.flatMap fun k => l.filter fun a => key a == k).Perm l
  | [], _, [], _ => .refl _
  | [], _, a :: _, h => absurd (h a List.mem_cons_self) List.not_mem_nil
  | k :: keys, hnodup, l, h => by
    obtain ⟨hk, hnodup⟩ := List.nodup_cons.mp hnodup
    let others := l.filter fun a => !(key a == k)
    have hothers : ∀ a ∈ others, key a ∈ keys := by
      intro a ha
      obtain ⟨ha, hne⟩ := List.mem_filter.mp ha
      exact (List.mem_cons.mp (h a ha)).resolve_left (by simpa using hne)
    -- the other groups do not see what has the first key
    have hsame : (keys.flatMap fun k' => l.filter fun a => key a == k') =
        keys.flatMap fun k' => others.filter fun a => key a == k' := by
      refine List.flatMap_congr fun k' hk' => ?_
      rw [List.filter_filter]
      refine List.filter_congr fun a _ => ?_
      have hne : k' ≠ k := fun e => hk (e ▸ hk')
      by_cases ha : key a = k'
      · simp [ha, hne]
      · simp [ha]
    rw [List.flatMap_cons, hsame]
    exact ((flatMap_filter_perm key hnodup others hothers).append_left _).trans
      (List.filter_append_perm _ l)

/-- If every symbol belongs to a section, then all sections together list all symbols. -/
theorem Checker.sections_perm (c : Checker) (h : ∀ s ∈ c.symbols, s.routine < c.routines.length) :
    (c.crossReference.routines.flatMap Routine.entries).Perm (c.symbols.map Symbol.entry) := by
  have hsections : c.crossReference.routines.map Routine.entries =
      (List.range c.routines.length).map fun k => Entry.sort (c.entriesOf k) := by
    rw [crossReference, CrossReference.ofRoutines, List.map_map]
    exact map_mapIdx_eq_range _ fun _ _ => rfl
  have hsorted : ((List.range c.routines.length).flatMap fun k => Entry.sort (c.entriesOf k)).Perm
      ((List.range c.routines.length).flatMap c.entriesOf) :=
    List.Perm.flatMap_left _ fun k _ => Entry.sort_perm _
  have hgroups := flatMap_filter_perm Symbol.routine List.nodup_range c.symbols
    fun s hs => List.mem_range.mpr (h s hs)
  have hentries := hgroups.map Symbol.entry
  rw [List.map_flatMap] at hentries
  rw [List.flatMap_def, hsections, ← List.flatMap_def]
  exact hsorted.trans hentries

namespace Occurrence

variable {fs : List FunctionDef} {os : List Occurrence}

/-- Each reference is to one declaration. -/
theorem linesTo_perm (os : List Occurrence) :
    ((List.range (declarations os).length).flatMap fun i => linesTo i os).Perm
      ((references [] os).map Prod.snd) := by
  have hkeys : ∀ r ∈ references [] os, r.1 ∈ List.range (declarations os).length :=
    fun r hr => List.mem_range.mpr (lt_of_mem_references hr)
  have hperm := (flatMap_filter_perm Prod.fst List.nodup_range (references [] os) hkeys).map Prod.snd
  rw [List.map_flatMap] at hperm
  exact hperm

/-- Each call is of one function, if the functions have different names. -/
theorem callLines_perm (hnodup : (fs.map FunctionDef.name).Nodup) (hrefers : AllRefer fs os) :
    ((fs.map FunctionDef.name).flatMap fun name => callLines name os).Perm
      ((os.filterMap call?).map Prod.snd) := by
  have hkeys : ∀ r ∈ os.filterMap call?, r.1 ∈ fs.map FunctionDef.name := by
    intro r hr
    obtain ⟨o, ho, hcall⟩ := List.mem_filterMap.mp hr
    obtain ⟨before, after, hsplit⟩ := List.append_of_mem ho
    have hdefined : o.Refers fs before := hrefers before o after hsplit
    cases o with
    | call name line =>
      cases hcall
      exact hdefined
    | declare | use | enter | leave => cases hcall
  have hperm := (flatMap_filter_perm Prod.fst hnodup (os.filterMap call?) hkeys).map Prod.snd
  rw [List.map_flatMap] at hperm
  exact hperm

/-- What is mentioned is what is called and what is referred to, if all that is used is declared. -/
theorem mentions_perm : ∀ (before os : List Occurrence), AllRefer fs (before ++ os) →
    ((os.filterMap call?).map Prod.snd ++ (references before os).map Prod.snd).Perm
      (os.filterMap mentionLine?)
  | _, [], _ => .refl _
  | before, o :: os, h => by
    have ho : o.Refers fs before := h before o os rfl
    have hrest := mentions_perm (before ++ [o]) os (by rwa [List.append_assoc])
    cases o with
    | use name line =>
      obtain ⟨i, hi⟩ := ho
      -- the line stands behind all calls on the left, and in front on the right
      rw [references, reference?, hi]
      exact List.perm_middle.trans (hrest.cons line)
    | call name line => exact hrest.cons line
    | declare | enter | leave => exact hrest

end Occurrence

/-! ## The state at the end -/

theorem Declaration.symbol_entry (d : Declaration) (uses : List Nat) :
    (d.symbol uses).entry = d.entry uses := by
  simp only [symbol, Symbol.entry, entry, List.reverse_reverse]

theorem FunctionDef.symbol_entry (f : FunctionDef) (calls : List Nat) :
    (f.symbol calls).entry = f.entry calls := by
  simp only [symbol, Symbol.entry, entry, List.reverse_reverse]

namespace Checker.Follows

variable {p : Program} {place : Place} {c : Checker}

/-- The functions of a program that the checker has followed have different names. -/
theorem nodup {fs : List FunctionDef} {os : List Occurrence} (h : c.Follows fs os place) :
    (fs.map FunctionDef.name).Nodup := by
  refine List.nodup_iff_getElem?_ne_getElem?.mpr fun i j hij hj heq => ?_
  have hname := List.getElem?_eq_getElem hj
  have hi := (h.functions _ i).mpr (heq.trans hname)
  rw [(h.functions _ j).mpr hname] at hi
  cases hi
  exact Nat.lt_irrefl _ hij

theorem symbols_entries (h : c.Follows p.functions p.occurrences place) :
    c.symbols.map Symbol.entry = p.entries := by
  rw [h.symbols, List.map_append, functionSymbols, declaredSymbols, Program.entries,
    List.mapIdx_eq_zipIdx_map, List.mapIdx_eq_zipIdx_map, List.map_map, List.map_map]
  congr 1
  · exact List.map_congr_left fun f _ => f.symbol_entry _
  · exact List.map_congr_left fun d _ => d.1.symbol_entry _

theorem routine_of_mem_functionSymbols {fs : List FunctionDef} {os : List Occurrence} {s : Symbol}
    (hs : s ∈ functionSymbols fs os) : s.routine = 0 := by
  obtain ⟨f, -, rfl⟩ := List.mem_map.mp hs
  rfl

theorem entriesOf (h : c.Follows p.functions p.occurrences place) (k : Nat) :
    c.entriesOf k = p.sectionEntries k := by
  rw [Checker.entriesOf, h.symbols, List.filter_append, List.map_append, Program.sectionEntries]
  congr 1
  · -- the functions are all in the section of the program
    by_cases hk : k = 0
    · have hall : (functionSymbols p.functions p.occurrences).filter (fun s => s.routine == k) =
          functionSymbols p.functions p.occurrences :=
        List.filter_eq_self.mpr fun s hs => beq_iff_eq.mpr ((routine_of_mem_functionSymbols hs).trans hk.symm)
      rw [if_pos hk, hall, functionSymbols, List.map_map]
      exact List.map_congr_left fun f _ => f.symbol_entry _
    · have hnone : (functionSymbols p.functions p.occurrences).filter (fun s => s.routine == k) = [] :=
        List.filter_eq_nil_iff.mpr fun s hs hsk =>
          hk ((beq_iff_eq.mp hsk).symm.trans (routine_of_mem_functionSymbols hs))
      rw [if_neg hk, hnone, List.map_nil]
  · rw [declaredSymbols, List.mapIdx_eq_zipIdx_map, List.filter_map, List.map_map]
    exact List.map_congr_left fun d _ => d.1.symbol_entry _

/-- Every symbol belongs to a section. -/
theorem routine_lt (h : c.Follows p.functions p.occurrences place) :
    ∀ s ∈ c.symbols, s.routine < c.routines.length := by
  intro s hs
  rw [h.sections]
  rw [h.symbols, List.mem_append] at hs
  rcases hs with hs | hs
  · rw [routine_of_mem_functionSymbols hs]
    exact Nat.lt_of_le_of_lt (Nat.zero_le _) place.routine_lt
  · obtain ⟨i, hi, rfl⟩ := List.mem_mapIdx.mp hs
    exact h.inSections _ (List.getElem_mem hi)

/-- The section with number `k`. -/
theorem routine_eq (h : c.Follows p.functions p.occurrences place) {k : Nat} {r : Routine}
    (hr : c.crossReference.routines[k]? = some r) : r.entries = Entry.sort (p.sectionEntries k) := by
  rw [crossReference, CrossReference.ofRoutines, List.getElem?_map, List.getElem?_mapIdx] at hr
  cases hsection : c.routines[k]? with
  | none =>
    rw [hsection] at hr
    cases hr
  | some s =>
    rw [hsection] at hr
    cases hr
    exact congrArg Entry.sort (h.entriesOf k)

theorem routines_names (h : c.Follows p.functions p.occurrences place) :
    c.crossReference.routines.map (fun r => (r.name, r.isProgram)) = place.sections := by
  rw [crossReference, CrossReference.ofRoutines, List.map_map, List.mapIdx_eq_zipIdx_map, List.map_map,
    ← h.sections]
  exact List.zipIdx_map_fst 0 _

/-- All sections together list all symbols. -/
theorem routines_entries (h : c.Follows p.functions p.occurrences place) :
    (c.crossReference.routines.flatMap Routine.entries).Perm p.entries :=
  h.symbols_entries ▸ c.sections_perm h.routine_lt

end Checker.Follows

/-! ## Accepted programs -/

/-- The lines of the uses and calls in the entries of a program. -/
theorem Program.entries_lines (p : Program) :
    (p.entries.flatMap fun e => e.lines.tail) =
      ((p.functions.map FunctionDef.name).flatMap fun name => callLines name p.occurrences) ++
        (List.range (declarations p.occurrences).length).flatMap fun i => linesTo i p.occurrences := by
  rw [Program.entries, List.flatMap_append, List.flatMap_map, List.flatMap_map]
  congr 1
  rw [List.flatMap_def, List.flatMap_def]
  exact congrArg List.flatten (map_mapIdx_eq_range _ fun _ _ => rfl)

/-- What a cross-reference table has to do with its program. -/
structure Program.Listed (p : Program) (table : CrossReference) : Prop where
  /-- The section of the program comes first, then one for each function, in source order. -/
  sections : table.routines.map (fun r => (r.name, r.isProgram)) =
    (p.name, true) :: p.functions.map fun f => (f.name, false)
  /-- A section has one entry for each name declared in it, with its lines. -/
  entries : ∀ (k : Nat) (r : Routine), table.routines[k]? = some r → r.entries.Perm (p.sectionEntries k)
  /-- No declaration is without an entry. -/
  complete : (table.routines.flatMap Routine.entries).Perm p.entries
  /-- Every name that is mentioned is declared in front of it, or it is that of a function. -/
  refers : AllRefer p.functions p.occurrences
  /-- Every mention of a name is listed once. -/
  mentions : ((table.routines.flatMap Routine.entries).flatMap fun e => e.lines.tail).Perm
    (p.occurrences.filterMap mentionLine?)
  /-- Sections are sorted by name, then by line of declaration. -/
  sorted : ∀ r ∈ table.routines, r.entries.Pairwise Entry.Ordered

/-- The cross-reference table of an accepted program loses nothing and invents nothing. -/
theorem crossReference_exact {p : Program} {table : CrossReference} (h : check p = .ok table) :
    p.Listed table := by
  have hfollows := Checker.ofProgram_follows (errors_of_check h)
  have htable : table = (Checker.ofProgram p).crossReference := by
    simp only [check] at h
    split at h
    · cases h
      rfl
    · cases h
  rw [htable]
  have hmentions := mentions_perm [] p.occurrences hfollows.refers
  have hlines := ((callLines_perm hfollows.nodup hfollows.refers).append (linesTo_perm p.occurrences)).trans
    hmentions
  rw [← p.entries_lines] at hlines
  refine ⟨hfollows.routines_names, fun k r hr => ?_, hfollows.routines_entries, hfollows.refers,
    (hfollows.routines_entries.flatMap_right _).trans hlines, fun r hr => ?_⟩
  · rw [hfollows.routine_eq hr]
    exact Entry.sort_perm _
  · obtain ⟨k, hk⟩ := List.getElem?_of_mem hr
    rw [hfollows.routine_eq hk]
    exact Entry.sort_ordered _

/-- A program in which `x` and `y` stand for two variables each, one inside the scope of the other, and in
which `f` is called in front of its definition. -/
def nestedNames : String :=
  "Program p;\nint x = 1;\nint main() \x7b\n  int y = x;\n  for (int x = f(y); x > 0; x = x - 1) \x7b\n" ++
    "    int y = x;\n    print(\"%d\", y);\n  \x7d\n  return y;\n\x7d\nint f(int n) \x7b return n + x; \x7d"

/-- The section of `main` has three entries, of which the outer `y` comes first. -/
theorem nestedNames_listed : ∃ p table, parseSource nestedNames = .ok p ∧ check p = .ok table ∧
    p.Listed table ∧ p.sectionEntries 1 = [⟨"y", .variable_, .int, 1, [4, 5, 9]⟩,
      ⟨"x", .variable_, .int, 2, [5, 5, 5, 5, 6]⟩, ⟨"y", .variable_, .int, 3, [6, 7]⟩] := by
  have hentries : ((checkSource nestedNames).toOption.map fun checked => checked.program.sectionEntries 1) =
      some [⟨"y", .variable_, .int, 1, [4, 5, 9]⟩, ⟨"x", .variable_, .int, 2, [5, 5, 5, 5, 6]⟩,
        ⟨"y", .variable_, .int, 3, [6, 7]⟩] := by
    decide +kernel
  cases hchecked : checkSource nestedNames with
  | error e =>
    rw [hchecked] at hentries
    cases hentries
  | ok checked =>
    rw [hchecked] at hentries
    obtain ⟨hparse, hcheck⟩ := checkSource_eq_ok_iff.mp hchecked
    exact ⟨checked.program, checked.table, hparse, hcheck, crossReference_exact hcheck,
      Option.some.inj hentries⟩

end Primer
