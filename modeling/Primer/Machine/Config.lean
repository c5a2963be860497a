/-!
# Configuration of a run

A run is limited in how deeply calls nest. The host is asked for an evaluation stack that grows with
this limit, unless its size is given; sizes are 64-bit words and stop at the largest one. Which sizes
are refused, and in which words, is for the host to say.
-/

namespace Primer

/-- Where a run takes place. -/
structure Host where
  /-- Why no stack of a size is given. -/
  refusal? : (bytes : Nat) → Option String

/-- A host that gives every stack. -/
def Host.generous : Host where
  refusal? _ := none

/-- The settings of a run, and its host. -/
structure Config where
  /-- How many calls may be in progress at once. -/
  maxDepth : Nat
  /-- The size of the evaluation stack in bytes, if it is given. -/
  stackSize : Option Nat
  host : Host

namespace Config

/-- The call depth without a setting. -/
def defaultMaxDepth : Nat := 1000

/-- The settings where nothing is set. -/
def default (host : Host) : Config := ⟨defaultMaxDepth, none, host⟩

/-- The largest size: the largest 64-bit word. -/
def sizeMax : Nat := 18446744073709551615

/-- The product of two sizes, or the largest size if it is smaller. -/
def mulSize (a b : Nat) : Nat :=
  min sizeMax (a * b)

/-- The sum of two sizes, or the largest size if it is smaller. -/
def addSize (a b : Nat) : Nat :=
  min sizeMax (a + b)

/-- The bytes of stack that every run gets. -/
def baseStack : Nat := 8 * 1024 * 1024

/-- The bytes of stack that a call may need. -/
def stackPerCall : Nat := 64 * 1024

/-- The size of the evaluation stack. -/
def evaluationStack (c : Config) : Nat :=
  match c.stackSize with
  | some bytes => bytes
  | none => addSize baseStack (mulSize c.maxDepth stackPerCall)

/-- Why the host does not give a stack of the configured size. -/
def refusal? (c : Config) : Option String :=
  c.host.refusal? c.evaluationStack

end Config

end Primer
