import Primer.Command.Arguments
import Primer.Interpreter

/-!
# The command

The command reads a file and takes it through the stages as far as its options say. What it shows is
a report: an exit code and the texts of the two output streams. Log lines go to the error stream from
the second degree of verbosity on, calls from the third.

- `Command.report` is the report for a source text.
- `Command.respond` is the whole command, given its host and the way to read a file.
-/

namespace Primer

namespace Command

/-- Why a file could not be read. -/
inductive ReadFault where
  | notFound
  | isDirectory
  | notText
  /-- Another reason of the host. -/
  | other (reason : String)
  deriving DecidableEq, Repr

/-- The wording of a reason not to read. -/
def ReadFault.text : ReadFault → String
  | .notFound => "No such file or directory (os error 2)"
  | .isDirectory => "Is a directory (os error 21)"
  | .notText => "stream did not contain valid UTF-8"
  | .other reason => reason

/-- What the command shows. -/
structure Report where
  exitCode : Nat
  stdout : String
  stderr : String
  deriving DecidableEq, Repr

/-- The answer of the command. -/
inductive Reply where
  /-- The arguments make no request. -/
  | usage
  | report (r : Report)
  /-- The fuel was used up. -/
  | pending
  deriving DecidableEq, Repr

/-- The name and version of the command. -/
def version : String := "subc 0.1.0"

/-! ## Log lines -/

/-- Something worth a log line. -/
inductive LogEntry where
  | lexed (count : Nat)
  | parsed (program : String) (items : Nat)
  | checked (errors : Nat)
  | event (e : Event)
  | failed (stage : String)
  deriving DecidableEq, Repr

namespace LogEntry

/-- The degree of verbosity from which on an entry is shown, and its line. -/
def line? : LogEntry → Option (Nat × String)
  | .lexed count => some (2, s!"DEBUG lexed source count={count}\n")
  | .parsed program items => some (2, s!"DEBUG parsed program program={program} items={items}\n")
  | .checked errors => some (2, s!"DEBUG checked program errors={errors}\n")
  | .event (.called name depth) => some (3, s!"TRACE call function={name} depth={depth}\n")
  | .event (.returned result) => some (2, s!"DEBUG main returned result={result.text}\n")
  | .event (.printed _ _) => none
  | .failed stage => some (2, s!"DEBUG run failed stage=\"{stage}\"\n")

/-- The text of an entry at a degree of verbosity. -/
def text (verbosity : Nat) (entry : LogEntry) : String :=
  match entry.line? with
  | some (least, line) => if least ≤ verbosity then line else ""
  | none => ""

end LogEntry

/-- The text of a log. -/
def logText (verbosity : Nat) (log : List LogEntry) : String :=
  String.join (log.map (LogEntry.text verbosity))

/-! ## Reports -/

/-- The report of a command that did what it was asked to. -/
def success (o : Options) (stdout : String) (log : List LogEntry) : Report :=
  ⟨0, stdout, logText o.verbosity log⟩

/-- The report of a command that was stopped by a failure. -/
def failure (o : Options) (stdout : String) (log : List LogEntry) (f : Failure) : Report :=
  ⟨f.exitCode, stdout, logText o.verbosity (log ++ [.failed f.stage]) ++ f.message ++ "\n"⟩

/-- A token with its position on a line. -/
def tokenLine (l : Lexeme) : String :=
  s!"{l.pos.line}:{l.pos.column}\t{l.token.text}\n"

/-- The configuration that the options ask for. -/
def Options.config (o : Options) (host : Host) : Config :=
  ⟨o.maxDepth.getD Config.defaultMaxDepth, o.stackSize.map fun n => Config.mulSize n (1024 * 1024), host⟩

/-- The report for a run of a checked program, after `stdout` and `log`. -/
def runReport (o : Options) (host : Host) (p : Program) (stdout : String) (log : List LogEntry)
    (fuel : Nat) : Reply :=
  match p.run (o.config host) .unbounded fuel with
  | .value _ m =>
    .report (success o (stdout ++ m.transcript.output) (log ++ m.transcript.history.map .event))
  | .error e m =>
    .report (failure o (stdout ++ m.transcript.output) (log ++ m.transcript.history.map .event)
      (.runtime e))
  | .pending => .pending

/-- The report for a tree, after `log`. -/
def treeReport (o : Options) (host : Host) (p : Program) (log : List LogEntry) (fuel : Nat) : Reply :=
  if o.dumpTree then .report (success o p.text log)
  else
    match check p with
    | .error es => .report (failure o "" (log ++ [.checked es.length]) (.semantic es))
    | .ok table =>
      let stdout := if o.xref then table.listing else ""
      let log := log ++ [.checked 0]
      if o.checkOnly then .report (success o stdout log) else runReport o host p stdout log fuel

/-- The report for a source text. -/
def report (o : Options) (host : Host) (source : String) (fuel : Nat) : Reply :=
  match tokenize source with
  | .error e => .report (failure o "" [] (.lexical e))
  | .ok tokens =>
    let log := [LogEntry.lexed tokens.length]
    if o.dumpTokens then .report (success o (String.join (tokens.map tokenLine)) log)
    else
      match parse tokens with
      | .error e => .report (failure o "" log (.syntactic e))
      | .ok p => treeReport o host p (log ++ [.parsed p.name p.items.length]) fuel

/-- The text of a file from its bytes. -/
def decodeFile (bytes : Except ReadFault ByteArray) : Except ReadFault String :=
  match bytes with
  | .ok bytes =>
    match String.fromUTF8? bytes with
    | some source => .ok source
    | none => .error .notText
  | .error fault => .error fault

/-- The answer to a request, given the contents of the file. -/
def answer (o : Options) (host : Host) (file : String) (bytes : Except ReadFault ByteArray)
    (fuel : Nat) : Reply :=
  match decodeFile bytes with
  | .ok source => report o host source fuel
  | .error fault =>
    .report ⟨1, "", s!"Failed to read the input file '{file}': {fault.text}\n"⟩

/-- The answer of the command to its arguments, where `readFile` reads a file of the host. -/
def respond {m : Type → Type} [Monad m] (host : Host)
    (readFile : String → m (Except ReadFault ByteArray)) (args : List String) (fuel : Nat) :
    m Reply := do
  match request? args with
  | none => return .usage
  | some .version => return .report ⟨0, version ++ "\n", ""⟩
  | some (.run file o) => return answer o host file (← readFile file) fuel

end Command

end Primer
