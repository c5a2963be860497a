import Primer.Proofs.Grammar.Sound
import Primer.Proofs.Machine.Shape

/-!
# Statements leave the scopes as they found them

A statement that the grammar allows, other than a declaration, holds declarations in blocks and in the
heads of `for` loops only. What these declare is gone when they are left, normally or not, so that the
variables around the statement are the same as before, with the same types. Only their values may
differ.

Inside a block the innermost scope does change, so two relations go together:

- `Environment.SameDeclared`: all variables in reach are the same, with the same declared types;
- `Environment.SameOuter`: they are, but for the innermost scope. Execution keeps this one, and closing
  the innermost scope turns it into the first (`Run.sameDeclared_congruence`).
- `Environment.Declares` is what a declaration does.
- `Context.exec_keeps_scopes` is the statement about what the grammar allows.
-/

namespace Primer

theorem Scope.lookup_declared (D : Scope) (name : String) :
    D.declared.lookup name = (D.lookup name).map Slot.type :=
  Lookup.lookup_map Slot.type name D

theorem Frame.declared_assign (name : String) (v : Value) :
    ∀ F : Frame, (assign name v F).map Scope.declared = F.map Scope.declared
  | [] => rfl
  | D :: F => by
    rw [assign]
    split
    · rw [List.map_cons, List.map_cons, Scope.declared_assign]
    · rw [List.map_cons, List.map_cons, declared_assign name v F]

/-! ## Variables and their types -/

namespace Environment

variable {env env' env'' : Environment} {name : String} {type : Ty}

/-- The frames of the callers are the same, and the scopes of the call in progress and the globals hold
the same variables with the same declared types. -/
structure SameDeclared (env env' : Environment) : Prop where
  callers : env.SameCallers env'
  locals : env'.locals.map Scope.declared = env.locals.map Scope.declared
  globals : env'.globals.declared = env.globals.declared

/-- The same, but for the variables of the innermost scope. -/
structure SameOuter (env env' : Environment) : Prop where
  callers : env.SameCallers env'
  scopes : env'.locals.length = env.locals.length
  outer : env'.locals.tail.map Scope.declared = env.locals.tail.map Scope.declared
  globals : env'.globals.declared = env.globals.declared

/-- The innermost scope has a variable `name` of the given type, in place of any it had, and nothing
else is declared differently. -/
structure Declares (name : String) (type : Ty) (env env' : Environment) : Prop
    extends SameOuter env env' where
  innermost : ∀ n, (env'.locals.headD []).declared.lookup n =
    if n = name then some type else (env.locals.headD []).declared.lookup n

theorem SameDeclared.scopes (h : env.SameDeclared env') : env'.locals.length = env.locals.length := by
  have hlength := congrArg List.length h.locals
  rwa [List.length_map, List.length_map] at hlength

theorem SameDeclared.outer (h : env.SameDeclared env') : env.SameOuter env' where
  callers := h.callers
  scopes := h.scopes
  outer := by rw [List.map_tail, List.map_tail, h.locals]
  globals := h.globals

theorem SameDeclared.innermost (h : env.SameDeclared env') :
    (env'.locals.headD []).declared = (env.locals.headD []).declared := by
  have hlocals := h.locals
  cases hF : env.locals with
  | nil =>
    rw [hF, List.map_nil, List.map_eq_nil_iff] at hlocals
    rw [hlocals]
  | cons D F =>
    rw [hF, List.map_cons] at hlocals
    obtain ⟨D', F', hF', hD, -⟩ := List.map_eq_cons_iff.mp hlocals
    rw [hF']
    exact hD

theorem sameDeclared_kept : Kept SameDeclared where
  refl env := ⟨.refl env, rfl, rfl⟩
  trans h h' := ⟨h.callers.trans h'.callers, h'.locals.trans h.locals, h'.globals.trans h.globals⟩
  isOpen h := locals_ne_nil_of_length h.scopes
  assign env name v := by
    refine ⟨env.assign_sameCallers name v, ?_, declared_globals_assign name v⟩
    rw [locals_assign, Frame.declared_assign]

theorem sameOuter_kept : Kept SameOuter where
  refl env := (sameDeclared_kept.refl env).outer
  trans h h' := ⟨h.callers.trans h'.callers, h'.scopes.trans h.scopes, h'.outer.trans h.outer,
    h'.globals.trans h.globals⟩
  isOpen h := locals_ne_nil_of_length h.scopes
  assign env name v := (sameDeclared_kept.assign env name v).outer

theorem define_declares (hopen : env.locals ≠ []) (name : String) (type : Ty) (v : Value) :
    env.Declares name type (env.define name type v) := by
  obtain ⟨D, F, hlocals⟩ := List.exists_cons_of_ne_nil hopen
  have hdefined : (env.define name type v).locals = D.insert name ⟨type, v⟩ :: F := by
    rw [locals_define, hlocals]
  have hshape := env.define_sameShape hopen name type v
  refine ⟨⟨env.define_sameCallers name type v, hshape.scopes, ?_, hshape.globals⟩, fun n => ?_⟩
  · rw [hdefined, hlocals]
    rfl
  · rw [hdefined, hlocals, List.headD_cons, List.headD_cons, Scope.lookup_declared,
      Scope.lookup_declared, Scope.lookup_insert]
    split <;> rfl

/-- A declaration after something that declares nothing. -/
theorem SameDeclared.declares (h : env.SameDeclared env') (h' : env'.Declares name type env'') :
    env.Declares name type env'' where
  toSameOuter := sameOuter_kept.trans h.outer h'.toSameOuter
  innermost n := by rw [h'.innermost n, h.innermost]

/-- The scope that is closed is the one that was opened, and what it hides is declared as before. -/
theorem pushScope_popScope_sameDeclared (hopen : env.locals ≠ []) (h : env.pushScope.SameOuter env') :
    env.SameDeclared env'.popScope where
  callers := pushScope_popScope_sameCallers h.callers
  locals := by
    rw [locals_popScope, h.outer, pushScope_locals hopen]
    rfl
  globals := by rw [popScope_globals, h.globals, pushScope_globals]

end Environment

theorem Machine.Spares.sameDeclared {m m' : Machine} (h : m.Spares m') :
    m.env.SameDeclared m'.env := by
  refine ⟨.of_frames h.frames, ?_, h.globals⟩
  unfold Environment.locals
  rw [h.frames]

/-! ## Statements -/

namespace Run

open Environment (SameDeclared SameOuter)

theorem sameOuter_congruence : Congruence fun {α : Type} (_ x : Run α) => Maintains SameOuter x where
  toEvalCongruence := maintains_evalCongruence Environment.sameOuter_kept
  define name type v :=
    modifyEnv_maintains fun env hopen => (env.define_declares hopen name type v).toSameOuter
  scope hx := hx.inScope fun _ _ hopen h =>
    (Environment.pushScope_popScope_sameDeclared hopen h).outer

/-- What declares nothing around itself keeps the declared variables, if calls do. -/
theorem sameDeclared_congruence : ClosedCongruence
    (fun {α : Type} (_ x : Run α) => Maintains SameDeclared x)
    fun {α : Type} (_ x : Run α) => Maintains SameOuter x where
  toEvalCongruence := maintains_evalCongruence Environment.sameDeclared_kept
  inner := sameOuter_congruence
  weaken hx := hx.imp fun _ _ _ h => h.outer
  enclose hx := hx.inScope fun _ _ => Environment.pushScope_popScope_sameDeclared
  pending := fun _ _ => trivial

/-- The initial value is computed before anything is declared, so a declaration that fails declares
nothing. -/
theorem declare_declares {call : Call} (hcall : ∀ name args pos, Maintains SameDeclared (call name args pos))
    (d : VarDecl) {m : Machine} (hopen : m.env.locals ≠ []) :
    (declare call d m).Satisfies (fun _ m' => m.env.Declares d.name d.type m'.env)
      fun _ m' => m.env.SameDeclared m'.env := by
  have hkept := Environment.sameDeclared_kept
  unfold declare
  cases d.init with
  | none => exact m.env.define_declares hopen d.name d.type _
  | some e =>
    have heval : Maintains SameDeclared (eval call e) :=
      @EvalCongruence.eval _ call call (maintains_evalCongruence hkept) hcall e
    -- the initial value and its type may fail, and until they are there nothing is declared
    refine bind_satisfies (heval m hopen) fun v m₁ h₁ => ?_
    have hcoerce := (coerce_plain v d.type e.pos).immediate.maintains hkept m₁ (hkept.isOpen h₁ hopen)
    have hvalue := hcoerce.imp (fun _ _ h₂ => hkept.trans h₁ h₂) fun _ _ h₂ => hkept.trans h₁ h₂
    refine bind_satisfies hvalue fun stored m₂ h₂ => ?_
    exact h₂.declares (m₂.env.define_declares (hkept.isOpen h₂ hopen) d.name d.type stored)

end Run

/-- An item of a block is a declaration, or it declares nothing around itself. -/
theorem Stmt.closed_of_readBlockItem {tokens rest : List Lexeme} {s : Stmt}
    (h : readBlockItem tokens = .ok (s, rest)) : (∃ d, s = .declare d) ∨ s.Closed := by
  have hread := Reader.read_eq_ok_iff.mp h
  rcases Stmt.blockItem_reads (Stmt.reader_takes _) hread with ⟨d, -, rfl, -⟩ | hreads
  · exact .inl ⟨d, rfl⟩
  · exact .inr hreads.closed

namespace Context

variable (ctx : Context)

theorem calls_maintains_declared (fuel : Nat) (name : String) (args : List Value) (pos : Position) :
    (ctx.calls fuel name args pos).Maintains Environment.SameDeclared := by
  refine ctx.dispatch_maintains Environment.sameDeclared_kept (fun f args pos m _ => ?_) name args pos
  exact (ctx.call_spares fuel f args pos m).imp (fun _ _ h => h.sameDeclared) fun _ _ h => h.sameDeclared

/-- A statement that is read from tokens is executed in a frame with an open scope. If it is no
declaration, then afterwards, however it is left, the frames of the callers are as before, and all scopes
and the globals have the same names with the same declared types. A declaration that succeeds adds its
own name to the innermost scope, or replaces it there, and changes nothing else of this; one that fails
changes nothing. -/
theorem exec_keeps_scopes {tokens rest : List Lexeme} {s : Stmt} {m : Machine}
    (hread : readBlockItem tokens = .ok (s, rest)) (hopen : m.env.locals ≠ []) (fuel rounds : Nat) :
    (s.isDeclaration = false → ∀ m', (Run.exec (ctx.calls fuel) rounds s m).machine? = some m' →
      m.env.SameDeclared m'.env) ∧
    ∀ d, s = .declare d → (Run.exec (ctx.calls fuel) rounds s m).Satisfies
      (fun flow m' => flow = .normal ∧ m.env.Declares d.name d.type m'.env)
      fun _ m' => m.env.SameDeclared m'.env := by
  have hcalls := ctx.calls_maintains_declared fuel
  constructor
  · intro hdeclaration m' hm'
    rcases Stmt.closed_of_readBlockItem hread with ⟨d, rfl⟩ | hclosed
    · cases hdeclaration
    · have hmaintains : (Run.exec (ctx.calls fuel) rounds s).Maintains Environment.SameDeclared :=
        @Run.ClosedCongruence.exec _ (ctx.calls fuel) (ctx.calls fuel) _ Run.sameDeclared_congruence
          hcalls rounds s hclosed
      exact (hmaintains m hopen).machine hm'
  · rintro d rfl
    rw [Run.exec]
    exact Run.bind_satisfies (Run.declare_declares hcalls d hopen) fun _ _ h => ⟨rfl, h⟩

end Context

/-- The tokens of a statement that fails in the second round of a loop, two scopes deep, where `x` is
another variable. Before that it assigns to the variable `g` around it. -/
def nestedFailure : List Lexeme :=
  ((tokenize "for (int i = 2; i; i = i - 1) \x7b string x = \"t\"; g = x; 1 / (i - 1); \x7d").toOption).getD []

/-- The tokens of a declaration in place of another one, whose value it uses. -/
def redeclaration : List Lexeme :=
  ((tokenize "int x = x + 1;").toOption).getD []

/-- What is left of the failure is the value of `g`; what is left of the declaration is an integer `x`
where a character was. -/
theorem nestedFailure_redeclaration_keep_scopes :
    (∃ s rest m', readBlockItem nestedFailure = .ok (s, rest) ∧
      (Run.exec ((Context.mk [] 9 .unbounded).calls 9) 9 s midCall).machine? = some m' ∧
      m'.env.value? "g" = some (.string "t") ∧ midCall.env.SameDeclared m'.env) ∧
    ∃ d rest m', readBlockItem redeclaration = .ok (.declare d, rest) ∧
      Run.exec ((Context.mk [] 9 .unbounded).calls 9) 9 (.declare d) midCall = .value .normal m' ∧
      m'.env.value? "x" = some (.int 66) ∧ midCall.env.Declares "x" .int m'.env := by
  have hopen : midCall.env.locals ≠ [] := by decide
  constructor
  · have hrun : ((readBlockItem nestedFailure).toOption.bind fun r =>
        (Run.exec ((Context.mk [] 9 .unbounded).calls 9) 9 r.1 midCall).machine?.map fun m =>
          (r.1.isDeclaration, m.env.value? "g")) = some (false, some (.string "t")) := by decide +kernel
    cases hread : readBlockItem nestedFailure with
    | error e =>
      rw [hread] at hrun
      cases hrun
    | ok r =>
      rw [hread] at hrun
      obtain ⟨m', hm', hresult⟩ := Option.map_eq_some_iff.mp hrun
      obtain ⟨hdeclaration, hvalue⟩ := Prod.mk.inj hresult
      have hscopes := Context.exec_keeps_scopes (.mk [] 9 .unbounded) hread hopen 9 9
      exact ⟨r.1, r.2, m', rfl, hm', hvalue, hscopes.1 hdeclaration m' hm'⟩
  · have hrun : ((readBlockItem redeclaration).toOption.bind fun r =>
        r.1.declaration?.bind fun d =>
          match Run.exec ((Context.mk [] 9 .unbounded).calls 9) 9 r.1 midCall with
          | .value _ m => some (d.name, d.type, m.env.value? "x")
          | _ => none) = some ("x", .int, some (.int 66)) := by decide +kernel
    cases hread : readBlockItem redeclaration with
    | error e =>
      rw [hread] at hrun
      cases hrun
    | ok r =>
      rw [hread] at hrun
      obtain ⟨s, rest⟩ := r
      rw [Except.toOption, Option.bind_some] at hrun
      obtain ⟨d, hd, hrun⟩ := Option.bind_eq_some_iff.mp hrun
      obtain rfl : s = .declare d := Stmt.declaration?_eq_some_iff.mp hd
      have hdeclares := (Context.exec_keeps_scopes (.mk [] 9 .unbounded) hread hopen 9 9).2 d rfl
      split at hrun
      · next flow m' hexec =>
        obtain ⟨hname, hrest⟩ := Prod.mk.inj (Option.some.inj hrun)
        obtain ⟨htype, hvalue⟩ := Prod.mk.inj hrest
        rw [hexec, hname, htype] at hdeclares
        obtain ⟨rfl, hdeclares⟩ := hdeclares
        exact ⟨d, rest, m', rfl, hexec, hvalue, hdeclares⟩
      · cases hrun

end Primer
