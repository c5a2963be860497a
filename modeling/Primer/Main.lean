import Primer.Command.Report

/-!
# The program

Reads the file named on the command line, prints the report and exits with its code.
-/

namespace Primer.Command

/-- Enough fuel for every run that ends in a lifetime. -/
def ampleFuel : Nat := 4000000000000000000

/-- The machine that the program runs on: half of its 48-bit address space is for a process. -/
def host : Host where
  refusal? bytes :=
    if bytes = Config.sizeMax then some "Invalid argument (os error 22)"
    else if 0x800000000000 ≤ bytes then some "Resource temporarily unavailable (os error 11)"
    else none

/-- Reads the bytes of a file. -/
def readFile (path : String) : IO (Except ReadFault ByteArray) := do
  try
    let bytes ← IO.FS.readBinFile path
    return .ok bytes
  catch
    | .noFileOrDirectory .. => return .error .notFound
    | .inappropriateType .. => return .error .isDirectory
    | e => return .error (.other (toString e))

end Primer.Command

open Primer.Command in
/-- The command line entry point. -/
def main (args : List String) : IO UInt32 := do
  match ← respond host readFile args ampleFuel with
  | .usage =>
    IO.eprintln "usage: subc [OPTIONS] <FILE>"
    return 2
  | .report r =>
    IO.print r.stdout
    IO.eprint r.stderr
    return r.exitCode.toUInt32
  | .pending =>
    IO.eprintln "the program did not end"
    return 1
