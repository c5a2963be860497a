import Primer.Value.Basic

/-!
# Formatted text

A format is read from left to right. A percent sign and a letter are replaced by the next value,
which has to be of the letter's type; two percent signs stand for one; everything else stands for
itself. There have to be exactly as many values as letters.
-/

namespace Primer

/-- Why a format and its values do not fit. -/
inductive FormatFault where
  | missingArgument (verb : Char)
  | typeMismatch (verb : Char) (expected found : Ty)
  | unknownVerb (verb : Char)
  | danglingPercent
  | unusedArguments (count : Nat)
  deriving DecidableEq, Repr

namespace Format

/-- The type of value that a letter after a percent sign asks for. -/
def verbType? (verb : Char) : Option Ty :=
  if verb = 'd' then some .int
  else if verb = 'c' then some .char
  else if verb = 's' then some .string
  else none

/-- The next value, if it is what `verb` asks for, and the values after it. -/
def argument (verb : Char) (args : List Value) : Except FormatFault (Value × List Value) :=
  -- the letter is looked at first: an unknown one is refused also where no value is left for it
  match verbType? verb with
  | none => .error (.unknownVerb verb)
  | some expected =>
    match args with
    | [] => .error (.missingArgument verb)
    | v :: rest =>
      if v.type = expected then .ok (v, rest)
      else .error (.typeMismatch verb expected v.type)

/-- The characters of a format with its values put in. -/
def expand : (format : List Char) → (args : List Value) → Except FormatFault (List Char)
  | [], [] => .ok []
  | [], args => .error (.unusedArguments args.length)
  | [c], args =>
    if c = '%' then .error .danglingPercent
    else if args.isEmpty then .ok [c]
    else .error (.unusedArguments args.length)
  | c :: verb :: rest, args =>
    if c = '%' then
      if verb = '%' then do
        let text ← expand rest args
        return '%' :: text
      else do
        let (v, others) ← argument verb args
        let text ← expand rest others
        return v.text.toList ++ text
    else do
      let text ← expand (verb :: rest) args
      return c :: text

end Format

/-- The text of a format with its values put in. -/
def format (fmt : String) (args : List Value) : Except FormatFault String := do
  let text ← Format.expand fmt.toList args
  return String.ofList text

end Primer
