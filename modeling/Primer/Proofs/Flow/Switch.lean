import Mathlib.Data.List.Nodup
import Primer.Proofs.Flow.Placement
import Primer.Proofs.Machine.Shape
import Primer.Proofs.Stages

/-!
# A switch is a jump into one statement list

The labels of a switch only say where execution starts. From there on the statements of all groups are
executed as if they stood in one list, and a `break` that leaves this list ends the switch.

- `CaseGroup.EntersAt` says where a switch starts: at the first group with the constant that is looked
  for, or else at the first default, or else nowhere.
- `Run.execFrom_zero`: falling through the groups is executing their statements in a row.
- `CaseGroup.LabelsOk.atMostOne`: labels that keep the static rules are told apart by their integers.
- `switch_jumps` puts them together.
-/

namespace Primer

/-! ## Where a switch starts -/

namespace CaseGroup

/-- The integer that the constant of a group matches. A default has none. -/
def value? (g : CaseGroup) : Option Int64 :=
  g.label.map CaseLabel.integer

/-- A switch that looks for `key` in `groups` starts with `rest`. -/
inductive EntersAt (key : Int64) (groups : List CaseGroup) : (rest : List CaseGroup) → Prop where
  /-- At the first group with the constant. -/
  | constant {before rest : List CaseGroup} {g : CaseGroup} (split : groups = before ++ g :: rest)
    (first : ∀ b ∈ before, b.value? ≠ some key) (hit : g.value? = some key) :
    EntersAt key groups (g :: rest)
  /-- At the first default, wherever it stands. -/
  | default {before rest : List CaseGroup} {g : CaseGroup}
    (noConstant : ∀ b ∈ groups, b.value? ≠ some key) (split : groups = before ++ g :: rest)
    (first : ∀ b ∈ before, b.label ≠ none) (hit : g.label = none) :
    EntersAt key groups (g :: rest)
  /-- Nowhere. -/
  | nowhere (noConstant : ∀ b ∈ groups, b.value? ≠ some key) (noDefault : ∀ b ∈ groups, b.label ≠ none) :
    EntersAt key groups []

variable {key : Int64} {groups rest rest' : List CaseGroup}

/-- The first group of a kind and what follows it. -/
theorem first_unique {P : CaseGroup → Prop} {before before' : List CaseGroup} {g g' : CaseGroup}
    (h : before ++ g :: rest = before' ++ g' :: rest') (hbefore : ∀ b ∈ before, ¬ P b) (hg : P g)
    (hbefore' : ∀ b ∈ before', ¬ P b) (hg' : P g') : g :: rest = g' :: rest' := by
  induction before generalizing before' with
  | nil =>
    cases before' with
    | nil => exact h
    | cons b before' =>
      obtain rfl : g = b := (List.cons.inj h).1
      exact absurd hg (hbefore' g List.mem_cons_self)
  | cons b before ih =>
    cases before' with
    | nil =>
      obtain rfl : b = g' := (List.cons.inj h).1
      exact absurd hg' (hbefore b List.mem_cons_self)
    | cons b' before' =>
      exact ih (List.cons.inj h).2 (fun x hx => hbefore x (List.mem_cons_of_mem b hx))
        (fun x hx => hbefore' x (List.mem_cons_of_mem b' hx))

theorem mem_of_split {before : List CaseGroup} {g : CaseGroup} (h : groups = before ++ g :: rest) :
    g ∈ groups := by
  rw [h]
  exact List.mem_append_cons_self

/-- A switch starts in one place only. -/
theorem EntersAt.unique (h : EntersAt key groups rest) (h' : EntersAt key groups rest') :
    rest' = rest := by
  cases h with
  | constant split first hit =>
    cases h' with
    | constant split' first' hit' => exact first_unique (split'.symm.trans split) first' hit' first hit
    | default noConstant | nowhere noConstant =>
      exact absurd hit (noConstant _ (mem_of_split split))
  | default noConstant split first hit =>
    cases h' with
    | constant split' first' hit' =>
      exact absurd hit' (noConstant _ (mem_of_split split'))
    | default _ split' first' hit' =>
      exact first_unique (split'.symm.trans split) first' hit' first hit
    | nowhere _ noDefault =>
      exact absurd hit (noDefault _ (mem_of_split split))
  | nowhere noConstant noDefault =>
    cases h' with
    | constant split _ hit =>
      exact absurd hit (noConstant _ (mem_of_split split))
    | default _ split _ hit =>
      exact absurd hit (noDefault _ (mem_of_split split))
    | nowhere => rfl

end CaseGroup

namespace Run

/-- The group that a search stops at, and those in front of it. -/
theorem split_of_findIdx? {q : CaseGroup → Bool} {groups : List CaseGroup} {start : Nat}
    (h : groups.findIdx? q = some start) : ∃ before g rest, groups = before ++ g :: rest ∧
      groups.drop start = g :: rest ∧ (∀ b ∈ before, ¬ q b = true) ∧ q g = true := by
  obtain ⟨hlt, hg, hbefore⟩ := List.findIdx?_eq_some_iff_getElem.mp h
  refine ⟨groups.take start, groups[start], groups.drop (start + 1), ?_, List.drop_eq_getElem_cons hlt,
    ?_, hg⟩
  · rw [← List.drop_eq_getElem_cons hlt, List.take_append_drop]
  · intro b hb
    obtain ⟨i, hi, rfl⟩ := List.getElem_of_mem hb
    rw [List.length_take] at hi
    rw [List.getElem_take]
    exact hbefore i (by omega)

/-- The search for the start of a switch finds it. -/
theorem startOf?_enters (key : Int64) (groups : List CaseGroup) :
    CaseGroup.EntersAt key groups ((startOf? key groups).elim [] groups.drop) := by
  unfold startOf?
  cases hconstant : groups.findIdx? fun g => g.label.map CaseLabel.integer == some key with
  | some start =>
    obtain ⟨before, g, rest, hsplit, hdrop, hfirst, hg⟩ := split_of_findIdx? hconstant
    show CaseGroup.EntersAt key groups (groups.drop start)
    rw [hdrop]
    exact .constant hsplit (fun b hb h => hfirst b hb (beq_iff_eq.mpr h)) (beq_iff_eq.mp hg)
  | none =>
    -- no constant matches, so the search goes on for a default
    have hnone : ∀ b ∈ groups, b.value? ≠ some key := by
      intro b hb
      exact beq_eq_false_iff_ne.mp (List.findIdx?_eq_none_iff.mp hconstant b hb)
    rw [Option.none_or]
    cases hdefault : groups.findIdx? fun g => g.label.isNone with
    | some start =>
      obtain ⟨before, g, rest, hsplit, hdrop, hfirst, hg⟩ := split_of_findIdx? hdefault
      show CaseGroup.EntersAt key groups (groups.drop start)
      rw [hdrop]
      exact .default hnone hsplit (fun b hb h => hfirst b hb (Option.isNone_iff_eq_none.mpr h))
        (Option.isNone_iff_eq_none.mp hg)
    | none =>
      refine .nowhere hnone fun b hb h => ?_
      rw [← Option.isNone_iff_eq_none, List.findIdx?_eq_none_iff.mp hdefault b hb] at h
      cases h

end Run

/-! ## Falling through -/

/-- The flow of control after a switch whose statements were left with this flow. -/
def Flow.afterSwitch : Flow → Flow
  | .normal => .normal
  | .brk => .normal
  | .ret v => .ret v

namespace Run

variable {call : Call} {fuel : Nat}

/-- Two lists in a row: the second is executed if the first ends normally. -/
theorem execAll_append (body body' : List Stmt) : execAll call fuel (body ++ body') = (do
    match ← execAll call fuel body with
    | .normal => execAll call fuel body'
    | .brk => return .brk
    | .ret v => return .ret v) := by
  induction body with
  | nil => rfl
  | cons s rest ih =>
    rw [List.cons_append, execAll, execAll, bind_assoc]
    refine bind_congr fun flow => ?_
    cases flow with
    | normal => exact ih
    | brk => rfl
    | ret v => rfl

/-- The groups in front of the start are passed over. -/
theorem execFrom_eq_drop (start : Nat) (groups : List CaseGroup) :
    execFrom call fuel start groups = execFrom call fuel 0 (groups.drop start) := by
  induction start generalizing groups with
  | zero => rfl
  | succ start ih =>
    cases groups with
    | nil => rw [List.drop_nil, execFrom, execFrom]
    | cons g rest =>
      rw [execFrom, List.drop_succ_cons]
      exact ih rest

/-- Falling through the groups is executing their statements in a row. -/
theorem execFrom_zero (groups : List CaseGroup) : execFrom call fuel 0 groups =
    Flow.afterSwitch <$> execAll call fuel (groups.flatMap CaseGroup.body) := by
  induction groups with
  | nil => rw [execFrom, List.flatMap_nil, execAll, map_pure, Flow.afterSwitch]
  | cons g rest ih =>
    obtain ⟨label, body, pos⟩ := g
    rw [execFrom, List.flatMap_cons, execAll_append, map_bind]
    refine bind_congr fun flow => ?_
    cases flow with
    | normal => exact ih
    | brk => exact (map_pure Flow.afterSwitch Flow.brk).symm
    | ret v => exact (map_pure Flow.afterSwitch (Flow.ret v)).symm

/-- A switch whose value is the integer `key` does what the statements do that stand from its start on. -/
theorem exec_switch {e : Expr} {groups rest : List CaseGroup} {m m₁ : Machine} {v : Value} {key : Int64}
    (heval : eval call e m = .value v m₁) (hkey : v.integer? = some key)
    (henters : CaseGroup.EntersAt key groups rest) (pos : Position) :
    exec call fuel (.switch e groups pos) m =
      (Flow.afterSwitch <$> execAll call fuel (rest.flatMap CaseGroup.body)) m₁ := by
  -- the start is unique, so it is the one that the search finds
  obtain rfl := (startOf?_enters key groups).unique henters
  have hswitchKey : switchKey v e.pos m₁ = .value key m₁ := by
    unfold switchKey
    rw [hkey]
    rfl
  rw [exec, bind_value heval, bind_value hswitchKey, ← execFrom_zero]
  cases startOf? key groups with
  | some start => exact congrFun (execFrom_eq_drop start groups) m₁
  | none =>
    show (pure Flow.normal : Run Flow) m₁ = execFrom call fuel 0 [] m₁
    rw [execFrom]

end Run

/-! ## Labels of accepted programs -/

/-- Constants of one type are told apart by their integers. -/
theorem CaseLabel.integer_inj {l l' : CaseLabel} (htype : l.type = l'.type)
    (h : l.integer = l'.integer) : l = l' := by
  cases l with
  | int n =>
    cases l' with
    | int n' => exact congrArg CaseLabel.int h
    | char c' => cases htype
  | char c =>
    cases l' with
    | int n' => cases htype
    | char c' =>
      -- characters are compared as words, which keep their codes apart
      have hcode : Value.codeOf c = Value.codeOf c' := h
      have hnat : c.toNat = c'.toNat := by
        have hint := congrArg Int64.toInt hcode
        rw [Value.toInt_codeOf, Value.toInt_codeOf] at hint
        exact Int.ofNat_inj.mp hint
      exact congrArg CaseLabel.char (UInt8.toNat_inj.mp hnat)

/-- In a switch that keeps the static rules at most one group has a given integer. -/
theorem CaseGroup.LabelsOk.atMostOne {t : Ty} {groups : List CaseGroup}
    (h : CaseGroup.LabelsOk t groups) (key : Int64) :
    (groups.filter fun g => g.value? == some key).length ≤ 1 := by
  have hnodup : ((groups.filterMap CaseGroup.label).map CaseLabel.integer).Nodup := by
    refine List.Nodup.map_on ?_ h.distinct
    intro l hl l' hl' heq
    exact CaseLabel.integer_inj ((h.typed l hl).trans (h.typed l' hl').symm) heq
  -- groups with the integer are counted as the labels with it
  have hcount : (groups.filter fun g => g.value? == some key).length =
      ((groups.filterMap CaseGroup.label).map CaseLabel.integer).count key := by
    rw [← List.countP_eq_length_filter, ← List.count_filterMap, List.map_filterMap]
    rfl
  rw [hcount]
  exact List.nodup_iff_count_le_one.mp hnodup key

mutual

/-- All statements that a statement is made of, at any depth. -/
def Stmt.parts : Stmt → List Stmt
  | .block body _ => Stmt.listParts body
  | .branch _ onTrue none _ => onTrue :: onTrue.parts
  | .branch _ onTrue (some onFalse) _ => onTrue :: onTrue.parts ++ onFalse :: onFalse.parts
  | .whileLoop _ body _ => body :: body.parts
  | .forLoop _ _ _ body _ => body :: body.parts
  | .switch _ groups _ => CaseGroup.listParts groups
  | .declare _ | .eval _ _ | .ret _ _ | .brk _ => []

/-- The statements of a list and all that they are made of. -/
def Stmt.listParts : List Stmt → List Stmt
  | [] => []
  | s :: rest => s :: s.parts ++ Stmt.listParts rest

/-- The statements of case groups and all that they are made of. -/
def CaseGroup.listParts : List CaseGroup → List Stmt
  | [] => []
  | .mk _ body _ :: rest => Stmt.listParts body ++ CaseGroup.listParts rest

end

mutual

/-- The parts of a statement in its place are in their places too. -/
theorem Stmt.Placed.parts : ∀ {s : Stmt} {inLoop : Bool}, s.Placed inLoop →
    ∀ t ∈ s.parts, ∃ inLoop, t.Placed inLoop
  | .block body pos, _, h => by
    rw [Stmt.Placed] at h
    rw [Stmt.parts]
    exact h.parts
  | .branch cond onTrue none pos, _, h => by
    rw [Stmt.Placed] at h
    rw [Stmt.parts, List.forall_mem_cons]
    exact ⟨⟨_, h⟩, h.parts⟩
  | .branch cond onTrue (some onFalse) pos, _, h => by
    rw [Stmt.Placed] at h
    rw [Stmt.parts, List.forall_mem_append, List.forall_mem_cons, List.forall_mem_cons]
    exact ⟨⟨⟨_, h.1⟩, h.1.parts⟩, ⟨_, h.2⟩, h.2.parts⟩
  | .whileLoop cond body pos, _, h => by
    rw [Stmt.Placed] at h
    rw [Stmt.parts, List.forall_mem_cons]
    exact ⟨⟨_, h⟩, h.parts⟩
  | .forLoop init cond step body pos, _, h => by
    rw [Stmt.Placed] at h
    rw [Stmt.parts, List.forall_mem_cons]
    exact ⟨⟨_, h⟩, h.parts⟩
  | .switch e groups pos, _, h => by
    rw [Stmt.Placed] at h
    rw [Stmt.parts]
    exact h.2.parts
  | .declare d, _, _ => by
    rw [Stmt.parts]
    exact List.forall_mem_nil _
  | .eval e pos, _, _ => by
    rw [Stmt.parts]
    exact List.forall_mem_nil _
  | .ret value pos, _, _ => by
    rw [Stmt.parts]
    exact List.forall_mem_nil _
  | .brk pos, _, _ => by
    rw [Stmt.parts]
    exact List.forall_mem_nil _

theorem Stmt.ListPlaced.parts : ∀ {body : List Stmt} {inLoop : Bool}, Stmt.ListPlaced inLoop body →
    ∀ t ∈ Stmt.listParts body, ∃ inLoop, t.Placed inLoop
  | [], _, _ => by
    rw [Stmt.listParts]
    exact List.forall_mem_nil _
  | s :: rest, _, h => by
    rw [Stmt.ListPlaced] at h
    rw [Stmt.listParts, List.forall_mem_append, List.forall_mem_cons]
    exact ⟨⟨⟨_, h.1⟩, h.1.parts⟩, h.2.parts⟩

theorem CaseGroup.ListPlaced.parts : ∀ {groups : List CaseGroup}, CaseGroup.ListPlaced groups →
    ∀ t ∈ CaseGroup.listParts groups, ∃ inLoop, t.Placed inLoop
  | [], _ => by
    rw [CaseGroup.listParts]
    exact List.forall_mem_nil _
  | .mk label body pos :: rest, h => by
    rw [CaseGroup.ListPlaced] at h
    rw [CaseGroup.listParts, List.forall_mem_append]
    exact ⟨h.1.parts, h.2.parts⟩

end

/-- A switch on a value with the integer `key` behind it has one place where it starts, and comes to the
same outcome as the statements of its groups from there on in one list, but for a `break` out of them,
after which control goes on normally. No two groups of a switch of an accepted program match the same
integer, whether or not the program comes from a text. -/
theorem switch_jumps :
    (∀ (ctx : Context) (fuel rounds : Nat) (e : Expr) (groups : List CaseGroup) (pos : Position)
        (m m₁ : Machine) (v : Value) (key : Int64),
      Run.eval (ctx.calls fuel) e m = .value v m₁ → v.integer? = some key →
        ∃ rest, CaseGroup.EntersAt key groups rest ∧
          (∀ rest', CaseGroup.EntersAt key groups rest' → rest' = rest) ∧
          Run.exec (ctx.calls fuel) rounds (.switch e groups pos) m =
            (Flow.afterSwitch <$>
              Run.execAll (ctx.calls fuel) rounds (rest.flatMap CaseGroup.body)) m₁) ∧
    ∀ (p : Program) (table : CrossReference), check p = .ok table →
      ∀ f ∈ p.functions, ∀ (e : Expr) (groups : List CaseGroup) (pos : Position),
        Stmt.switch e groups pos ∈ Stmt.listParts f.body →
          ∀ key : Int64, (groups.filter fun g => g.value? == some key).length ≤ 1 := by
  constructor
  · intro ctx fuel rounds e groups pos m m₁ v key heval hkey
    have henters := Run.startOf?_enters key groups
    exact ⟨_, henters, fun _ h => henters.unique h, Run.exec_switch heval hkey henters pos⟩
  · intro p table hcheck f hf e groups pos hmem key
    obtain ⟨_, hplaced⟩ := (Program.placed_of_check hcheck hf).parts _ hmem
    rw [Stmt.Placed] at hplaced
    obtain ⟨⟨t, hlabels⟩, -⟩ := hplaced
    exact hlabels.atMostOne key

/-- The parts of a statement, if it is a switch. -/
def Stmt.switch? : Stmt → Option (Expr × List CaseGroup × Position)
  | .switch e groups pos => some (e, groups, pos)
  | .declare _ | .eval _ _ | .block _ _ | .branch _ _ _ _ | .whileLoop _ _ _ | .forLoop _ _ _ _ _
  | .ret _ _ | .brk _ => none

theorem Stmt.eq_of_switch? {s : Stmt} {parts : Expr × List CaseGroup × Position}
    (h : s.switch? = some parts) : s = .switch parts.1 parts.2.1 parts.2.2 := by
  cases s with
  | switch e groups pos =>
    cases h
    rfl
  | declare | eval | block | branch | whileLoop | forLoop | ret | brk => cases h

/-- A switch whose default stands first and whose group for `'B'` is empty. -/
def defaultFirst : String :=
  "Program p; int main() \x7b char x; switch (x = 'B') \x7b default: print(\"d\"); case 'A': print(\"a\");
    case 'B': case 'C': print(\"c\"); break; case 'D': print(\"never\"); \x7d return 0; \x7d"

/-- The switch starts at the empty group, falls through to the next one and ends with its `break`. -/
theorem defaultFirst_jumps : ∃ checked f e groups pos m₁ m' rest,
    checkSource defaultFirst = .ok checked ∧ f ∈ checked.program.functions ∧
    Stmt.switch e groups pos ∈ Stmt.listParts f.body ∧
    Run.eval ((Context.mk [] 9 .unbounded).calls 9) e midCall = .value (.char 66) m₁ ∧
    CaseGroup.EntersAt 66 groups rest ∧ rest.length = 3 ∧
    Run.exec ((Context.mk [] 9 .unbounded).calls 9) 9 (.switch e groups pos) midCall =
      (Flow.afterSwitch <$>
        Run.execAll ((Context.mk [] 9 .unbounded).calls 9) 9 (rest.flatMap CaseGroup.body)) m₁ ∧
    Run.exec ((Context.mk [] 9 .unbounded).calls 9) 9 (.switch e groups pos) midCall =
      .value .normal m' ∧ m'.transcript.output = "c" ∧
    (groups.filter fun g => g.value? == some 66).length ≤ 1 := by
  have hrun : ((checkSource defaultFirst).toOption.bind fun checked =>
      (checked.program.function? "main").bind fun f =>
      ((Stmt.listParts f.body).findSome? Stmt.switch?).map fun parts =>
        let tested := Run.eval ((Context.mk [] 9 .unbounded).calls 9) parts.1 midCall
        let ran := Run.exec ((Context.mk [] 9 .unbounded).calls 9) 9
          (.switch parts.1 parts.2.1 parts.2.2) midCall
        (decide (tested = .value (.char 66) (tested.machine?.getD midCall)),
          decide (ran = .value .normal (ran.machine?.getD midCall)),
          (ran.machine?.getD midCall).transcript.output,
          ((Run.startOf? 66 parts.2.1).elim [] parts.2.1.drop).length)) =
      some (true, true, "c", 3) := by decide +kernel
  cases hchecked : checkSource defaultFirst with
  | error e =>
    rw [hchecked] at hrun
    cases hrun
  | ok checked =>
    rw [hchecked] at hrun
    obtain ⟨f, hf, hbody⟩ := Option.bind_eq_some_iff.mp
      (show (checked.program.function? "main").bind _ = some _ from hrun)
    obtain ⟨⟨e, groups, pos⟩, hparts, hran⟩ := Option.map_eq_some_iff.mp hbody
    obtain ⟨s, hs, hswitch⟩ := List.exists_of_findSome?_eq_some hparts
    simp only [Prod.mk.injEq, decide_eq_true_eq] at hran
    obtain ⟨heval, hexec, houtput, hlength⟩ := hran
    have hmem : f ∈ checked.program.functions := List.mem_of_find?_eq_some hf
    have hpart : Stmt.switch e groups pos ∈ Stmt.listParts f.body := Stmt.eq_of_switch? hswitch ▸ hs
    obtain ⟨rest, henters, hunique, hjump⟩ := switch_jumps.1 (.mk [] 9 .unbounded) 9 9 e groups pos
      midCall _ (.char 66) 66 heval rfl
    have hatMost := switch_jumps.2 checked.program checked.table (checkSource_eq_ok_iff.mp hchecked).2
      f hmem e groups pos hpart 66
    have hrest := hunique _ (Run.startOf?_enters 66 groups)
    exact ⟨checked, f, e, groups, pos, _, _, rest, rfl, hmem, hpart, heval, henters,
      hrest ▸ hlength, hjump, hexec, houtput, hatMost⟩

end Primer
