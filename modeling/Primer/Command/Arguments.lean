import Primer.Machine.Config

/-!
# Command line arguments

The command takes one file and options. Arguments are read from left to right, and the first one that
does not fit makes the whole line unusable; a request for the version is met as soon as it is read.

- An option with a value takes it after an equals sign or as the next argument.
- `-v` may be repeated and may be clustered; every other option may stand only once.
- After `--` every argument is a file.
-/

namespace Primer

namespace Command

/-- What the options ask for. -/
structure Options where
  file : Option String
  maxDepth : Option Nat
  /-- The size of the evaluation stack in mebibytes. -/
  stackSize : Option Nat
  checkOnly : Bool
  dumpTokens : Bool
  dumpTree : Bool
  xref : Bool
  verbosity : Nat
  deriving DecidableEq, Repr

/-- Nothing was asked for. -/
def Options.unset : Options where
  file := none
  maxDepth := none
  stackSize := none
  checkOnly := false
  dumpTokens := false
  dumpTree := false
  xref := false
  verbosity := 0

/-- What the command is asked to do. -/
inductive Request where
  | version
  | run (file : String) (options : Options)
  deriving DecidableEq, Repr

/-- A number is a sequence of digits, perhaps after a plus sign, that fits into 64 bits. -/
def number? (text : List Char) : Option Nat :=
  let digits := if text.head? = some '+' then text.tail else text
  if digits.isEmpty || !digits.all Char.isDigit then none
  else
    let n := Nat.ofDigitChars 10 digits 0
    if n ≤ Config.sizeMax then some n else none

/-- A long option: its name and the value after an equals sign. -/
structure LongOption where
  name : String
  value : Option (List Char)

/-- Splits a long option, without its dashes, at the first equals sign. -/
def LongOption.ofChars (text : List Char) : LongOption :=
  let name := String.ofList (text.takeWhile (· != '='))
  match text.dropWhile (· != '=') with
  | [] => ⟨name, none⟩
  | _ :: value => ⟨name, some value⟩

/-- Takes an argument as the file. There is only one, and its name has characters. -/
def takeFile (o : Options) (arg : String) : Option Options :=
  if o.file.isSome || arg.isEmpty then none else some { o with file := some arg }

/-- Sets an option without a value. -/
def takeFlag (o : Options) (name : String) : Option Options :=
  if name = "check" && !o.checkOnly then some { o with checkOnly := true }
  else if name = "dump-tokens" && !o.dumpTokens then some { o with dumpTokens := true }
  else if name = "dump-ast" && !o.dumpTree then some { o with dumpTree := true }
  else if name = "xref" && !o.xref then some { o with xref := true }
  else if name = "verbose" then some { o with verbosity := o.verbosity + 1 }
  else none

/-- Names of options that have a value. -/
def hasValue (name : String) : Bool :=
  name == "max-depth" || name == "stack-size"

/-- Sets an option with a value. -/
def takeValue (o : Options) (name : String) (text : List Char) : Option Options := do
  let n ← number? text
  if name = "max-depth" && o.maxDepth.isNone then some { o with maxDepth := some n }
  else if name = "stack-size" && o.stackSize.isNone then some { o with stackSize := some n }
  else none

/-- What a cluster of short options asks for, given the options before it: `none` if one of them is
unknown, `some none` for the version. -/
def takeShort (o : Options) : List Char → Option (Option Options)
  | [] => some (some o)
  | c :: rest =>
    if c = 'v' then takeShort { o with verbosity := o.verbosity + 1 } rest
    else if c = 'V' then some none
    else none

/-- The request, once all arguments are read. -/
def Options.request (o : Options) : Option Request := do
  let file ← o.file
  return .run file o

/-- Takes all arguments as files. -/
def takeFiles (o : Options) : List String → Option Request
  | [] => o.request
  | arg :: rest => do
    let o ← takeFile o arg
    takeFiles o rest

/-- Reads arguments, given the options before them. -/
def readArguments (o : Options) : List String → Option Request
  | [] => o.request
  | arg :: rest =>
    match arg.toList with
    | ['-', '-'] => takeFiles o rest
    | '-' :: '-' :: text =>
      let long := LongOption.ofChars text
      match long.value with
      | some value =>
        if hasValue long.name then do
          let o ← takeValue o long.name value
          readArguments o rest
        else none
      | none =>
        if long.name = "version" then some .version
        else if hasValue long.name then
          match rest with
          | [] => none
          | value :: rest => do
            let o ← takeValue o long.name value.toList
            readArguments o rest
        else do
          let o ← takeFlag o long.name
          readArguments o rest
    | '-' :: c :: cluster => do
      match ← takeShort o (c :: cluster) with
      | some o => readArguments o rest
      | none => return .version
    | _ => do
      let o ← takeFile o arg
      readArguments o rest

/-- The request that the arguments make, or `none` if they make none. -/
def request? (args : List String) : Option Request :=
  readArguments .unset args

end Command

end Primer
