import Primer.Tree.Basic
import Primer.Tree.Builtin
import Primer.Typing.CrossReference

/-!
# The names in a program

A program is read from left to right as a list of what is met on the way: declarations, uses of variables,
calls of functions, and scopes that are entered and left. What a use refers to can be read off this list
alone. It is the last declaration of the name in front of it whose scope is still open.

- `Program.occurrences` is the list for a program. The value of an assignment stands in front of its
  target, the arguments of a call in front of the function, and the step of a `for` loop in front of its
  body.
- `Occurrence.target?` is the declaration that a name refers to behind some occurrences.
- `Occurrence.references` are all uses with the declarations they refer to.
- `Program.sectionEntries` are the entries that a section of the cross-reference table has to have, and
  `Program.entries` are those of all sections.
-/

namespace Primer

/-- A variable or parameter as it is declared. -/
structure Declaration where
  name : String
  kind : SymbolKind
  type : Ty
  /-- How many scopes inside the global one enclose the declaration. -/
  level : Nat
  /-- The number of the section it belongs to: 0 for the program, then the functions in source order. -/
  routine : Nat
  line : Nat
  deriving DecidableEq, Repr

/-- What is met on the way through a program. -/
inductive Occurrence where
  | declare (d : Declaration)
  /-- A variable whose value is read, or that is assigned to. -/
  | use (name : String) (line : Nat)
  /-- A call of a function of the program. -/
  | call (name : String) (line : Nat)
  | enter
  | leave
  deriving DecidableEq, Repr

/-! ## What is met in a program -/

mutual

/-- What is met in an expression. -/
def Expr.occurrences : Expr → List Occurrence
  | .literal _ _ => []
  | .var name pos => [.use name pos.line]
  | .assign name value pos => value.occurrences ++ [.use name pos.line]
  | .unary _ operand _ => operand.occurrences
  | .binary _ left right _ => left.occurrences ++ right.occurrences
  | .call name args pos =>
    Expr.listOccurrences args ++ if name = printName then [] else [.call name pos.line]

/-- What is met in expressions in a row. -/
def Expr.listOccurrences : List Expr → List Occurrence
  | [] => []
  | e :: es => e.occurrences ++ Expr.listOccurrences es

end

/-- What is met in an expression that may be left out. -/
def Expr.optionOccurrences : Option Expr → List Occurrence
  | some e => e.occurrences
  | none => []

/-- What is met in a declaration. The initial value does not see the variable. -/
def VarDecl.occurrences (routine level : Nat) (d : VarDecl) : List Occurrence :=
  Expr.optionOccurrences d.init ++ [.declare ⟨d.name, .variable_, d.type, level, routine, d.pos.line⟩]

/-- What is met in the first clause of a `for` header. -/
def ForInit.occurrences (routine level : Nat) : Option ForInit → List Occurrence
  | some (.declare d) => d.occurrences routine level
  | some (.eval e) => e.occurrences
  | none => []

mutual

/-- What is met in a statement inside of `level` scopes. -/
def Stmt.occurrences (routine : Nat) : (level : Nat) → Stmt → List Occurrence
  | level, .declare d => d.occurrences routine level
  | _, .eval e _ => e.occurrences
  | level, .block body _ => .enter :: Stmt.listOccurrences routine (level + 1) body ++ [.leave]
  | level, .branch cond onTrue none _ => cond.occurrences ++ onTrue.occurrences routine level
  | level, .branch cond onTrue (some onFalse) _ =>
    cond.occurrences ++ onTrue.occurrences routine level ++ onFalse.occurrences routine level
  | level, .whileLoop cond body _ => cond.occurrences ++ body.occurrences routine level
  | level, .forLoop init cond step body _ =>
    .enter :: (ForInit.occurrences routine (level + 1) init ++ Expr.optionOccurrences cond ++
      Expr.optionOccurrences step ++ body.occurrences routine (level + 1)) ++ [.leave]
  | level, .switch e groups _ => e.occurrences ++ CaseGroup.listOccurrences routine level groups
  | _, .ret value _ => Expr.optionOccurrences value
  | _, .brk _ => []

/-- What is met in statements in a row. -/
def Stmt.listOccurrences (routine : Nat) : (level : Nat) → List Stmt → List Occurrence
  | _, [] => []
  | level, s :: rest => s.occurrences routine level ++ Stmt.listOccurrences routine level rest

/-- What is met in case groups. -/
def CaseGroup.listOccurrences (routine : Nat) : (level : Nat) → List CaseGroup → List Occurrence
  | _, [] => []
  | level, .mk _ body _ :: rest =>
    Stmt.listOccurrences routine level body ++ CaseGroup.listOccurrences routine level rest

end

/-- A parameter is declared in the scope of its function. -/
def Param.occurrence (routine : Nat) (p : Param) : Occurrence :=
  .declare ⟨p.name, .parameter, p.type, 1, routine, p.pos.line⟩

/-- What is met in a function. Its parameters and the declarations at the top of its body share a scope. -/
def FunctionDef.occurrences (routine : Nat) (f : FunctionDef) : List Occurrence :=
  .enter :: (f.params.map (Param.occurrence routine) ++ Stmt.listOccurrences routine 1 f.body) ++ [.leave]

/-- What is met in items behind the first `functions` functions. -/
def Item.listOccurrences : (functions : Nat) → List Item → List Occurrence
  | _, [] => []
  | functions, .global d :: rest => d.occurrences 0 0 ++ Item.listOccurrences functions rest
  | functions, .function f :: rest =>
    f.occurrences (functions + 1) ++ Item.listOccurrences (functions + 1) rest

/-- What is met in a program. -/
def Program.occurrences (p : Program) : List Occurrence :=
  Item.listOccurrences 0 p.items

/-! ## What a use refers to -/

namespace Occurrence

/-- What an occurrence declares. -/
def declared? : Occurrence → Option Declaration
  | .declare d => some d
  | _ => none

/-- The declarations among occurrences. A declaration is known by its number in this list. -/
def declarations (os : List Occurrence) : List Declaration :=
  os.filterMap declared?

/-- A scope inside of which `inner` others are open is not left. -/
def staysOpen : (inner : Nat) → List Occurrence → Bool
  | _, [] => true
  | inner, .enter :: rest => staysOpen (inner + 1) rest
  | inner, .leave :: rest =>
    match inner with
    | 0 => false
    | inner + 1 => staysOpen inner rest
  | inner, .declare _ :: rest => staysOpen inner rest
  | inner, .use _ _ :: rest => staysOpen inner rest
  | inner, .call _ _ :: rest => staysOpen inner rest

/-- The number of the declaration that `name` refers to behind some occurrences: the last one of the name
whose scope is not left. -/
def target? (name : String) : List Occurrence → Option Nat
  | [] => none
  | .declare d :: rest =>
    match target? name rest with
    | some i => some (i + 1)
    | none => if d.name = name ∧ staysOpen 0 rest = true then some 0 else none
  | .use _ _ :: rest => target? name rest
  | .call _ _ :: rest => target? name rest
  | .enter :: rest => target? name rest
  | .leave :: rest => target? name rest

/-- The declaration that a use refers to, with the line of the use. -/
def reference? (before : List Occurrence) : Occurrence → Option (Nat × Nat)
  | .use name line => (target? name before).map (·, line)
  | _ => none

/-- The uses among occurrences behind `before`, in order, with the declarations they refer to. -/
def references : (before os : List Occurrence) → List (Nat × Nat)
  | _, [] => []
  | before, o :: rest => (o.reference? before).toList ++ references (before ++ [o]) rest

/-- The lines of the uses that refer to declaration number `i`, in order. -/
def linesTo (i : Nat) (os : List Occurrence) : List Nat :=
  ((references [] os).filter fun r => r.1 == i).map Prod.snd

/-- The function that a call is of, with the line of the call. -/
def call? : Occurrence → Option (String × Nat)
  | .call name line => some (name, line)
  | _ => none

/-- The lines of the calls of the function `name`, in order. -/
def callLines (name : String) (os : List Occurrence) : List Nat :=
  ((os.filterMap call?).filter fun r => r.1 == name).map Prod.snd

/-- The line on which a name is mentioned. -/
def mentionLine? : Occurrence → Option Nat
  | .use _ line => some line
  | .call _ line => some line
  | _ => none

end Occurrence

/-- The entry of a declaration that is used on the lines `uses`. -/
def Declaration.entry (d : Declaration) (uses : List Nat) : Entry :=
  ⟨d.name, d.kind, d.type, d.level, d.line :: uses⟩

/-- The entry of a function that is called on the lines `calls`. -/
def FunctionDef.entry (f : FunctionDef) (calls : List Nat) : Entry :=
  ⟨f.name, .function, f.returns, 0, f.pos.line :: calls⟩

namespace Program

open Occurrence

/-- The entries of the variables and parameters that are declared in a section. -/
def declaredEntries (p : Program) (routine : Nat) : List Entry :=
  ((declarations p.occurrences).zipIdx.filter fun d => d.1.routine == routine).map
    fun d => d.1.entry (linesTo d.2 p.occurrences)

/-- The entries of a section: the functions stand in the one of the program. -/
def sectionEntries (p : Program) (routine : Nat) : List Entry :=
  (if routine = 0 then p.functions.map fun f => f.entry (callLines f.name p.occurrences) else []) ++
    p.declaredEntries routine

/-- The entries of all sections. -/
def entries (p : Program) : List Entry :=
  (p.functions.map fun f => f.entry (callLines f.name p.occurrences)) ++
    (declarations p.occurrences).mapIdx fun i d => d.entry (linesTo i p.occurrences)

end Program

/-! ## Laws -/

namespace Occurrence

variable {name : String} {os tail tail' : List Occurrence} {i : Nat}

theorem declarations_append (os os' : List Occurrence) :
    declarations (os ++ os') = declarations os ++ declarations os' :=
  List.filterMap_append

theorem callLines_append (name : String) (os os' : List Occurrence) :
    callLines name (os ++ os') = callLines name os ++ callLines name os' := by
  rw [callLines, List.filterMap_append, List.filter_append, List.map_append, ← callLines, ← callLines]

/-- Whether a scope stays open does not depend on more of the end than whether it stays open there. -/
theorem staysOpen_append_congr (h : ∀ inner, staysOpen inner tail = staysOpen inner tail') :
    ∀ (os : List Occurrence) (inner : Nat), staysOpen inner (os ++ tail) = staysOpen inner (os ++ tail')
  | [], inner => h inner
  | .enter :: os, inner => staysOpen_append_congr h os (inner + 1)
  | .leave :: os, inner => by
    cases inner with
    | zero => rfl
    | succ inner => exact staysOpen_append_congr h os inner
  | .declare _ :: os, inner => staysOpen_append_congr h os inner
  | .use _ _ :: os, inner => staysOpen_append_congr h os inner
  | .call _ _ :: os, inner => staysOpen_append_congr h os inner

/-- What a name refers to does not depend on more of the end than the scopes that stay open there, if the
name is not declared there. -/
theorem target?_append_congr (h : ∀ inner, staysOpen inner tail = staysOpen inner tail')
    (htail : target? name tail = none) (htail' : target? name tail' = none) :
    ∀ os : List Occurrence, target? name (os ++ tail) = target? name (os ++ tail')
  | [] => htail.trans htail'.symm
  | .declare d :: os => by
    rw [List.cons_append, List.cons_append, target?, target?, target?_append_congr h htail htail' os,
      staysOpen_append_congr h os 0]
  | .use _ _ :: os => target?_append_congr h htail htail' os
  | .call _ _ :: os => target?_append_congr h htail htail' os
  | .enter :: os => target?_append_congr h htail htail' os
  | .leave :: os => target?_append_congr h htail htail' os

/-- A declaration behind all others is the one that its name refers to. -/
theorem target?_append_of_some (h : target? name tail = some i) :
    ∀ os : List Occurrence, target? name (os ++ tail) = some ((declarations os).length + i)
  | [] => by rw [List.nil_append, h, declarations, List.filterMap_nil, List.length_nil, Nat.zero_add]
  | .declare d :: os => by
    rw [List.cons_append, target?, target?_append_of_some h os]
    show some ((declarations os).length + i + 1) = some ((declarations os).length + 1 + i)
    rw [Nat.add_right_comm]
  | .use _ _ :: os => target?_append_of_some h os
  | .call _ _ :: os => target?_append_of_some h os
  | .enter :: os => target?_append_of_some h os
  | .leave :: os => target?_append_of_some h os

/-- A name refers to a declaration of this name. -/
theorem declaration_of_target? : ∀ (os : List Occurrence) {i : Nat}, target? name os = some i →
    ∃ d, (declarations os)[i]? = some d ∧ d.name = name
  | .declare d :: os, i, h => by
    rw [target?] at h
    -- a later declaration of the name wins; this one counts if its scope is still open
    cases hrest : target? name os with
    | some j =>
      rw [hrest] at h
      cases h
      exact declaration_of_target? os hrest
    | none =>
      rw [hrest] at h
      by_cases hd : d.name = name ∧ staysOpen 0 os = true
      · simp only [if_pos hd] at h
        cases h
        exact ⟨d, rfl, hd.1⟩
      · simp only [if_neg hd] at h
        cases h
  | .use _ _ :: os, _, h => declaration_of_target? os h
  | .call _ _ :: os, _, h => declaration_of_target? os h
  | .enter :: os, _, h => declaration_of_target? os h
  | .leave :: os, _, h => declaration_of_target? os h

theorem lt_of_target? (h : target? name os = some i) : i < (declarations os).length := by
  obtain ⟨d, hd, -⟩ := declaration_of_target? os h
  exact (List.getElem?_eq_some_iff.mp hd).1

/-- Leaving scopes declares nothing. -/
theorem target?_replicate_leave (name : String) :
    ∀ k : Nat, target? name (List.replicate k .leave) = none
  | 0 => rfl
  | k + 1 => target?_replicate_leave name k

/-- A mention of a name changes nothing that is declared. -/
theorem target?_skip {o : Occurrence} (hopen : ∀ inner rest, staysOpen inner (o :: rest) = staysOpen inner rest)
    (htarget : ∀ rest, target? name (o :: rest) = target? name rest) (k : Nat) :
    target? name (os ++ [o] ++ List.replicate k .leave) = target? name (os ++ List.replicate k .leave) := by
  rw [List.append_assoc]
  refine target?_append_congr (fun inner => hopen inner _) ?_ (target?_replicate_leave name k) os
  rw [htarget, target?_replicate_leave]

/-- A scope that was just entered declares nothing. -/
theorem target?_enter (name : String) (os : List Occurrence) :
    target? name (os ++ [.enter]) = target? name os := by
  have hopen : ∀ inner, staysOpen inner [.enter] = staysOpen inner [] := fun _ => rfl
  rw [target?_append_congr hopen rfl rfl os, List.append_nil]

/-- A scope that is entered and left at once leaves no trace. -/
theorem target?_enter_leave (name : String) (k : Nat) (os : List Occurrence) :
    target? name (os ++ .enter :: .leave :: List.replicate k .leave) =
      target? name (os ++ List.replicate k .leave) := by
  have hopen : ∀ inner, staysOpen inner (.enter :: .leave :: List.replicate k .leave) =
      staysOpen inner (List.replicate k .leave) := fun _ => rfl
  exact target?_append_congr hopen (target?_replicate_leave name k) (target?_replicate_leave name k) os

/-- A declared name refers to its declaration, and other names to what they did before. -/
theorem target?_declare (d : Declaration) (name : String) (os : List Occurrence) :
    target? name (os ++ [.declare d]) =
      if d.name = name then some (declarations os).length else target? name os := by
  by_cases hname : d.name = name
  · have htarget : target? name [.declare d] = some 0 := if_pos ⟨hname, rfl⟩
    rw [if_pos hname, target?_append_of_some htarget, Nat.add_zero]
  · have htarget : target? name [.declare d] = none := if_neg fun hd => hname hd.1
    have hopen : ∀ inner, staysOpen inner [.declare d] = staysOpen inner [] := fun _ => rfl
    rw [if_neg hname, target?_append_congr hopen htarget rfl os, List.append_nil]

/-- A declaration is gone as soon as its scope is left. -/
theorem target?_declare_leave (d : Declaration) (name : String) (k : Nat) (os : List Occurrence) :
    target? name (os ++ .declare d :: .leave :: List.replicate k .leave) =
      target? name (os ++ .leave :: List.replicate k .leave) := by
  have htarget : target? name (.declare d :: .leave :: List.replicate k .leave) = none := by
    rw [target?, target?, target?_replicate_leave]
    exact if_neg fun hd => Bool.false_ne_true hd.2
  have hopen : ∀ inner, staysOpen inner (.declare d :: .leave :: List.replicate k .leave) =
      staysOpen inner (.leave :: List.replicate k .leave) := fun _ => rfl
  exact target?_append_congr hopen htarget (target?_replicate_leave name (k + 1)) os

theorem references_append (before : List Occurrence) : ∀ os os' : List Occurrence,
    references before (os ++ os') = references before os ++ references (before ++ os) os'
  | [], os' => by rw [List.nil_append, references, List.nil_append, List.append_nil]
  | o :: os, os' => by
    rw [List.cons_append, references, references, references_append (before ++ [o]) os os',
      List.append_assoc, List.append_assoc, List.singleton_append]

/-- What the last occurrence adds to the references. -/
theorem references_snoc (os : List Occurrence) (o : Occurrence) :
    references [] (os ++ [o]) = references [] os ++ (o.reference? os).toList := by
  rw [references_append, references, references, List.append_nil, List.nil_append]

theorem linesTo_snoc (i : Nat) (os : List Occurrence) (o : Occurrence) :
    linesTo i (os ++ [o]) =
      linesTo i os ++ (((o.reference? os).toList.filter fun r => r.1 == i).map Prod.snd) := by
  rw [linesTo, references_snoc, List.filter_append, List.map_append, ← linesTo]

/-- An occurrence that is no use adds nothing. -/
theorem linesTo_snoc_of_none {o : Occurrence} (h : o.reference? os = none) (i : Nat) :
    linesTo i (os ++ [o]) = linesTo i os := by
  rw [linesTo_snoc, h]
  exact List.append_nil _

/-- All references are to declarations. -/
theorem lt_of_mem_references {r : Nat × Nat} : ∀ {before os : List Occurrence},
    r ∈ references before os → r.1 < (declarations (before ++ os)).length
  | before, o :: os, h => by
    rw [references, List.mem_append] at h
    rcases h with h | h
    · cases o with
      | use name line =>
        obtain ⟨i, hi, rfl⟩ := Option.map_eq_some_iff.mp (Option.mem_toList.mp h)
        have hlt : i < (declarations before).length := lt_of_target? hi
        rw [declarations_append, List.length_append]
        exact Nat.lt_add_right _ hlt
      | declare | call | enter | leave => cases h
    · have hlt := lt_of_mem_references h
      rwa [List.append_assoc, List.singleton_append] at hlt

/-- Nothing refers to a declaration that is not there. -/
theorem linesTo_of_le (h : (declarations os).length ≤ i) : linesTo i os = [] := by
  unfold linesTo
  rw [List.map_eq_nil_iff, List.filter_eq_nil_iff]
  intro r hr hi
  have hlt : r.1 < (declarations os).length := lt_of_mem_references hr
  have hri : r.1 = i := beq_iff_eq.mp hi
  omega

end Occurrence

end Primer
