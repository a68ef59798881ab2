import LightServer.Retrieval.Read

/-!
# Streams of block ranges

The blocks of a range are read one after the other by a producer and taken by a
reader. In between there is a buffer of limited capacity. The producer stops at the
first error, at the end of the range, when the reader has gone, or when the deadline
passes while an item of its waits for room. A stream is a state with small
transitions; when they happen is not part of it, so every order of the producer's
steps, the reader's steps and the passing of the deadline is a sequence of
transitions. A transition that is not possible leaves the state as it is.
-/

namespace LightServer.Retrieval

inductive RangeOutcome where
  | complete
  | failed
  | cancelled
  deriving DecidableEq, Repr

def RangeOutcome.label : RangeOutcome → String
  | complete => "complete"
  | failed => "error"
  | cancelled => "cancelled"

inductive Producer where
  | next
  | reading (height : Nat) (phase : ReadPhase)
  | sending (height : Nat) (item : Item)
  | ended (outcome : RangeOutcome)

/-- A stream of the blocks from `start` to `stop`, upwards or downwards. The heights
before `index` are dealt with, `buffer` holds the items that wait for the reader and
`taken` those that it has. -/
structure Range where
  start : Nat
  stop : Nat
  capacity : Nat
  index : Nat
  producer : Producer
  buffer : List Item
  taken : List Item
  closed : Bool

namespace Range

def begin (capacity start stop : Nat) : Range where
  start := start
  stop := stop
  capacity := capacity
  index := 0
  producer := .next
  buffer := []
  taken := []
  closed := false

def span (r : Range) : Nat := (r.stop - r.start) + (r.start - r.stop)

def heightAt? (r : Range) (i : Nat) : Option Nat :=
  if i ≤ r.span then some (if r.start ≤ r.stop then r.start + i else r.start - i) else none

def isEnded (r : Range) : Bool :=
  match r.producer with
  | .ended _ => true
  | _ => false

def hasRoom (r : Range) : Bool := r.buffer.length < r.capacity

def finish (outcome : RangeOutcome) (r : Range) : Range := { r with producer := .ended outcome }

def proceed (r : Range) : Range :=
  match r.producer with
  | .next =>
      match r.heightAt? r.index with
      | none => r.finish .complete
      | some height =>
          if r.closed then r.finish .cancelled
          else { r with producer := .reading height .looking }
  | _ => r

def look (c : Cache) (r : Range) : Range :=
  match r.producer with
  | .reading height phase => { r with producer := .reading height (phase.look height c) }
  | _ => r

def answer (reply : Except Node.SourceError (Option CompactBlock)) (r : Range) : Range :=
  match r.producer with
  | .reading height .asking => { r with producer := .reading height (.done (settle height reply)) }
  | _ => r

def offer (r : Range) : Range :=
  match r.producer with
  | .reading height (.done item) => { r with producer := .sending height item }
  | _ => r

def cut (r : Range) : Range :=
  match r.producer with
  | .reading height .asking =>
      { r with producer := .sending height (.error (.deadlineExceeded height)) }
  | _ => r

def cancel (r : Range) : Range :=
  if r.closed && !r.isEnded then
    match r.producer with
    | .next => r
    | _ => r.finish .cancelled
  else r

def afterSend (item : Item) (r : Range) : Range :=
  match item with
  | .ok _ => { r with producer := .next, index := r.index + 1 }
  | .error _ => r.finish .failed

def send (r : Range) : Range :=
  match r.producer with
  | .sending _ item =>
      if !r.closed && r.hasRoom then afterSend item { r with buffer := r.buffer ++ [item] }
      else r
  | _ => r

/-- The deadline passes while the item of the producer waits. The item is lost, and
that the deadline has passed is told if there is room for that. -/
def expire (r : Range) : Range :=
  match r.producer with
  | .sending height _ =>
      let told : List Item := if r.hasRoom then [.error (.deadlineExceeded height)] else []
      { r with buffer := r.buffer ++ told, producer := .ended .failed }
  | _ => r

def take (r : Range) : Range :=
  match r.buffer with
  | [] => r
  | item :: rest => { r with buffer := rest, taken := r.taken ++ [item] }

/-- The reader closes the stream. What is in the buffer can still be taken. -/
def close (r : Range) : Range := { r with closed := true }

def drop (r : Range) : Range := { r with closed := true, buffer := [] }

end Range

end LightServer.Retrieval
