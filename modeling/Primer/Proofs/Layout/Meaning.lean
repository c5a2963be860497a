import Primer.Proofs.Layout.Checking
import Primer.Proofs.Layout.Running
import Primer.Proofs.Tree.RoundTrip

/-!
# Layout does not change meaning

Only the tokens of a text matter, not where they stand. Each stage is compared with its counterpart on
trees without positions: parsing (`parse_map_erase`), checking (`Program.check_erase`) and running
(`Program.run_erase`). Two texts with the same tokens have the same tree without positions, so they
fare alike at every stage.

- `SameTokens` relates texts that differ in layout only.
- `SameMeaning` says what two such texts have in common.
- `sameMeaning_of_sameTokens` is the statement itself.
-/

namespace Primer

/-! ## What is compared -/

/-- A lexical error without its position. -/
def LexError.erase : LexError → LexError
  | .unexpectedCharacter c _ => .unexpectedCharacter c .start
  | .malformedLiteral lexeme _ => .malformedLiteral lexeme .start
  | .integerOutOfRange lexeme _ => .integerOutOfRange lexeme .start

/-- A failure without positions. -/
def Failure.erase : Failure → Failure
  | .lexical e => .lexical e.erase
  | .syntactic e => .syntactic e.erase
  | .semantic es => .semantic (es.map SemanticError.erase)
  | .runtime e => .runtime e.erase

/-- Both texts are cut into the same tokens, at whatever positions. -/
def SameTokens (source source' : String) : Prop :=
  ∃ tokens tokens', tokenize source = .ok tokens ∧ tokenize source' = .ok tokens' ∧
    tokens.map Lexeme.token = tokens'.map Lexeme.token

/-- What the outside sees of a run of one program, it sees of a run of the other. -/
structure Program.RunsAlike (p p' : Program) : Prop where
  /-- With the same configuration, sink and fuel both come to the same end, positions aside: they make
  the same calls, return the same result or fail with the same error, or neither has ended yet. -/
  outcome : ∀ config sink fuel, (p.run config sink fuel).erase = (p'.run config sink fuel).erase
  /-- … and both have printed the same. -/
  output : ∀ config sink fuel,
    (p.run config sink fuel).machine?.map (fun m => m.transcript.output) =
      (p'.run config sink fuel).machine?.map (fun m => m.transcript.output)

/-- What texts that differ in layout only have in common. -/
structure SameMeaning (source source' : String) : Prop where
  /-- They have the same tree or the same syntax error, positions aside. -/
  parsed : ((parseSource source).map Program.erase).mapError Failure.erase =
    ((parseSource source').map Program.erase).mapError Failure.erase
  /-- Both are accepted, or they have the same violations in the same order, positions aside. -/
  checked : ((checkSource source).map fun c => c.program.erase).mapError Failure.erase =
    ((checkSource source').map fun c => c.program.erase).mapError Failure.erase
  /-- If they are accepted they run alike. -/
  ran : ∀ c c', checkSource source = .ok c → checkSource source' = .ok c' →
    c.program.RunsAlike c'.program
  /-- The printed form of an accepted program is accepted and runs as the program does. -/
  printed : ∀ c, checkSource source = .ok c →
    ∃ c', checkSource c.program.text = .ok c' ∧ c'.program.RunsAlike c.program

/-! ## Trees that are equal up to layout -/

theorem Outcome.output_erase {α : Type} (o : Outcome α) :
    o.erase.machine?.map (fun m => m.transcript.output) =
      o.machine?.map (fun m => m.transcript.output) := by
  cases o with
  | value a m => exact congrArg some m.transcript.output_erase
  | error e m => exact congrArg some m.transcript.output_erase
  | pending => rfl

namespace Program

variable {p p' : Program}

theorem runsAlike_of_erase_eq (h : p.erase = p'.erase) : p.RunsAlike p' := by
  have houtcome : ∀ config sink fuel,
      (p.run config sink fuel).erase = (p'.run config sink fuel).erase := by
    intro config sink fuel
    rw [← p.run_erase, ← p'.run_erase, h]
  refine ⟨houtcome, fun config sink fuel => ?_⟩
  rw [← (p.run config sink fuel).output_erase, houtcome, (p'.run config sink fuel).output_erase]

theorem check_of_erase_eq (h : p.erase = p'.erase) {table : CrossReference}
    (hcheck : check p = .ok table) : ∃ table', check p' = .ok table' := by
  have haccepts : ((check p').map fun _ => ()).mapError (List.map SemanticError.erase) = .ok () := by
    rw [← p'.check_erase, ← h, p.check_erase, hcheck]
    rfl
  cases hcheck' : check p' with
  | ok table' => exact ⟨table', rfl⟩
  | error es =>
    rw [hcheck'] at haccepts
    cases haccepts

end Program

/-! ## Texts -/

/-- What becomes of a text up to its tree depends on its tokens alone. -/
theorem parseSource_erase {source : String} {tokens : List Lexeme} (h : tokenize source = .ok tokens) :
    ((parseSource source).map Program.erase).mapError Failure.erase =
      (parse (lexemesOf (tokens.map Lexeme.token))).mapError .syntactic := by
  rw [← map_erase_eq, parse_map_erase]
  unfold parseSource tokenizeSource
  rw [h]
  show (((parse tokens).mapError Failure.syntactic).map Program.erase).mapError Failure.erase = _
  cases parse tokens with
  | ok p => rfl
  | error e => rfl

/-- What becomes of a text up to its check depends on its tree without positions alone. -/
theorem checkSource_erase (source : String) :
    ((checkSource source).map fun c => c.program.erase).mapError Failure.erase =
      ((parseSource source).map Program.erase).mapError Failure.erase >>= fun q =>
        ((check q).map fun _ => q).mapError .semantic := by
  unfold checkSource
  cases parseSource source with
  | error e => rfl
  | ok p =>
    show _ = ((check p.erase).map fun _ => p.erase).mapError Failure.semantic
    rw [p.check_erase p.erase]
    show (((check p).mapError Failure.semantic >>= fun table => pure (CheckedProgram.mk p table)).map
      fun c => c.program.erase).mapError Failure.erase = _
    cases check p with
    | ok table => rfl
    | error es => rfl

/-- The printed form of an accepted program has the program's tree, positions aside, so it is accepted
and runs as the program does. -/
theorem checkSource_text {source : String} {c : CheckedProgram} (h : checkSource source = .ok c) :
    ∃ c', checkSource c.program.text = .ok c' ∧ c'.program.RunsAlike c.program := by
  obtain ⟨tokens, htokens, hparse, hcheck⟩ := checkSource_eq_ok h
  obtain ⟨rest, hreads, -⟩ := reads_of_parse hparse
  have hlexable : Lexable c.program.tokens := hreads.lexable (scannable_of_tokenize htokens)
  obtain ⟨printed, hprinted, hkinds⟩ := (c.program.spells hlexable []).tokenize_eq
  obtain ⟨q, hq, herase⟩ := hreads.parse_tokens hkinds
  obtain ⟨table, htable⟩ := Program.check_of_erase_eq herase.symm hcheck
  have hread : parseSource c.program.text = .ok q := parseSource_eq_ok.mpr ⟨printed, hprinted, hq⟩
  exact ⟨⟨q, table⟩, checkSource_eq_ok_iff.mpr ⟨hread, htable⟩, Program.runsAlike_of_erase_eq herase⟩

/-- Texts that differ in layout only have the same tree, the same violations and the same runs. -/
theorem sameMeaning_of_sameTokens {source source' : String} (h : SameTokens source source') :
    SameMeaning source source' := by
  obtain ⟨tokens, tokens', htokens, htokens', hsame⟩ := h
  have hparsed : ((parseSource source).map Program.erase).mapError Failure.erase =
      ((parseSource source').map Program.erase).mapError Failure.erase := by
    rw [parseSource_erase htokens, parseSource_erase htokens', hsame]
  constructor
  case parsed => exact hparsed
  case checked => rw [checkSource_erase, checkSource_erase, hparsed]
  case ran =>
    intro c c' hc hc'
    rw [(checkSource_eq_ok_iff.mp hc).1, (checkSource_eq_ok_iff.mp hc').1] at hparsed
    exact Program.runsAlike_of_erase_eq (Except.ok.inj hparsed)
  case printed => exact fun c hc => checkSource_text hc

/-- A program on one line, whose run fails in the second round of its loop. -/
def oneLine : String :=
  "Program p; int n = 2; int main() \x7b while (1) \x7b print(\"%d\", 6 / n); n = n - 2; \x7d " ++
  "return 0; \x7d"

/-- The same program on several lines, with comments. -/
def manyLines : String :=
  "Program p;\n\nint n = 2; // divided by\nint main()\n\x7b\n  while (1) \x7b /* until it fails */\n" ++
  "    print(\"%d\", 6 / n);\n    n = n - 2;\n  \x7d\n  return 0;\n\x7d\n"

theorem manyLines_sameMeaning : SameTokens oneLine manyLines ∧ SameMeaning oneLine manyLines ∧
    (checkSource oneLine).isOk = true ∧
    (tokenize oneLine).toOption ≠ (tokenize manyLines).toOption := by
  have hkinds : (tokenize oneLine).toOption.map (List.map Lexeme.token) =
      (tokenize manyLines).toOption.map (List.map Lexeme.token) := by decide +kernel
  have hsame : SameTokens oneLine manyLines := by
    cases htokens : tokenize oneLine with
    | error e =>
      have hok : (tokenize oneLine).isOk = true := by decide +kernel
      rw [htokens] at hok
      cases hok
    | ok tokens =>
      cases htokens' : tokenize manyLines with
      | error e =>
        rw [htokens, htokens'] at hkinds
        cases hkinds
      | ok tokens' =>
        rw [htokens, htokens'] at hkinds
        exact ⟨tokens, tokens', htokens, htokens', Option.some.inj hkinds⟩
  exact ⟨hsame, sameMeaning_of_sameTokens hsame, by decide +kernel, by decide +kernel⟩

end Primer
