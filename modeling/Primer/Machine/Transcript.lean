import Primer.Value.Basic

/-!
# Transcripts and sinks

What a run lets the outside see is a transcript: the texts it printed, the calls it made and the
result of `main`, in order. A sink stands for where printed text goes; it decides from the texts that
it was handed so far whether to take another one, and takes it whole or not at all.

- `Transcript.output` is everything printed so far.
- `Transcript.SameTexts` is what a sink cannot tell apart.
- `Sink.bounded` takes texts up to a number of bytes.
-/

namespace Primer

/-- Something that a run lets the outside see. -/
inductive Event where
  | printed (text : String) (pos : Position)
  /-- A function was entered; `depth` counts the new call. -/
  | called (name : String) (depth : Nat)
  /-- `main` returned. -/
  | returned (result : Value)
  deriving DecidableEq, Repr

/-- The text that an event adds to the output. -/
def Event.text : Event → String
  | .printed text _ => text
  | .called _ _ => ""
  | .returned _ => ""

/-- The text that an event hands to the sink, if it prints one. -/
def Event.printed? : Event → Option String
  | .printed text _ => some text
  | .called _ _ => none
  | .returned _ => none

/-- The events of a run. -/
structure Transcript where
  /-- The latest event comes first. -/
  events : List Event
  /-- The size of all printed texts together. -/
  bytes : Nat
  deriving DecidableEq, Repr

namespace Transcript

/-- Nothing happened yet. -/
def empty : Transcript := ⟨[], 0⟩

/-- Adds an event. -/
def record (t : Transcript) (e : Event) : Transcript :=
  ⟨e :: t.events, t.bytes + e.text.utf8ByteSize⟩

/-- The events in the order in which they happened. -/
def history (t : Transcript) : List Event :=
  t.events.reverse

/-- Everything that was printed. -/
def output (t : Transcript) : String :=
  String.join (t.history.map Event.text)

/-- The texts that were printed, the latest first. -/
def texts (t : Transcript) : List String :=
  t.events.filterMap Event.printed?

/-- The same texts were printed. -/
structure SameTexts (t t' : Transcript) : Prop where
  texts : t.texts = t'.texts
  bytes : t.bytes = t'.bytes

/-- The part of a transcript that came after an earlier one. -/
def since (t earlier : Transcript) : Transcript :=
  ⟨t.events.take (t.events.length - earlier.events.length), t.bytes - earlier.bytes⟩

end Transcript

/-- Where printed text goes. A sink that refuses a text has taken no part of it: sinks that take the first
bytes of a text and then fail are not among these. -/
structure Sink where
  /-- Why the sink does not take a text after what it took already. -/
  refusal? : Transcript → String → Option String
  /-- Why the sink cannot be brought to an end. -/
  flushRefusal? : Transcript → Option String
  /-- A sink is handed texts; nothing else of a run reaches it. -/
  refusal?_congr : ∀ {t t' : Transcript}, t.SameTexts t' → refusal? t = refusal? t'
  flushRefusal?_congr : ∀ {t t' : Transcript}, t.SameTexts t' → flushRefusal? t = flushRefusal? t'

namespace Sink

/-- Takes everything. -/
def unbounded : Sink where
  refusal? _ _ := none
  flushRefusal? _ := none
  refusal?_congr _ := rfl
  flushRefusal?_congr _ := rfl

/-- Takes texts as long as all of them together have at most `limit` bytes. -/
def bounded (limit : Nat) : Sink where
  refusal? taken text :=
    if limit < taken.bytes + text.utf8ByteSize then some "sink full" else none
  flushRefusal? _ := none
  refusal?_congr h := by simp only [h.bytes]
  flushRefusal?_congr _ := rfl

/-- Takes what `sink` takes, but cannot be brought to an end. -/
def unflushable (sink : Sink) : Sink where
  refusal? := sink.refusal?
  flushRefusal? _ := some "flush failed"
  refusal?_congr := sink.refusal?_congr
  flushRefusal?_congr _ := rfl

/-- Why the sink does not take `text`. A text without characters is always taken. -/
def write? (sink : Sink) (taken : Transcript) (text : String) : Option String :=
  if text.isEmpty then none else sink.refusal? taken text

end Sink

end Primer
