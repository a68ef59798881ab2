import LightServer.Backend.Basic
import LightServer.Retrieval.Range

/-!
# Giving out blocks

A single block is read from the cache or the node, waiting as long as the node takes.
A range runs as a stream: its producer works until it has to wait, for the node, for
room in the buffer, or for nothing more to come, and the reader takes items in
between. The two take turns, and in a turn neither moves more than 128 items, so that a
long stream does not hold up all else. Time passes only while both of them wait.
-/

namespace LightServer.Backend

open LightServer.Retrieval

variable {ν : Type}

def readBlock (p : NodeAccess ν) (height : Nat) (s : Backend ν) : Item × Backend ν :=
  match ReadPhase.lookTwice height s.cache with
  | .done (.ok b) => (.ok b, s.record (.blockServed "cache"))
  | .done (.error e) => (.error e, s)
  | _ =>
      let (reply, s) := s.fetch p height
      match settle height reply with
      | .ok b => (.ok b, s.record (.blockServed "node"))
      | .error e => (.error e, s)

def latestHeight (s : Backend ν) : Except Error Nat :=
  match s.cache.latestHeight with
  | some h => .ok h
  | none => .error .notReady

structure Stream (ν : Type) where
  range : Range
  deadline : Nat
  pending : Option (Fetch ν)

def openStream (capacity start stop deadline : Nat) : Stream ν :=
  ⟨Range.begin capacity start stop, deadline, none⟩

namespace Stream

def withRange (r : Range) (st : Stream ν) : Stream ν := { st with range := r }

def countEnd (r : Range) (s : Backend ν) : Backend ν :=
  match r.producer with
  | .ended outcome => s.record (.rangeEnded outcome.label)
  | _ => s

def move (r : Range) (st : Stream ν) (s : Backend ν) : Option (Stream ν × Backend ν) :=
  some (st.withRange r, countEnd r s)

/-- Where a block comes from is counted when it has been read. -/
def served (source : String) : ReadPhase → Backend ν → Backend ν
  | .done (.ok _), s => s.record (.blockServed source)
  | _, s => s

/-- One step of a producer whose fetch has waited long enough. The node is asked, or its
answer is there. -/
def stepFetch (f : Fetch ν) (st : Stream ν) (s : Backend ν) : Option (Stream ν × Backend ν) :=
  match f with
  | .waiting _ ask =>
      let ((ready, reply), s) := s.askNode ask
      some ({ st with pending := some (.asked ready reply) }, s)
  | .asked _ reply =>
      let r := st.range.answer reply
      let s :=
        match r.producer with
        | .reading _ phase => served "node" phase s
        | _ => s
      { st with pending := none }.move r s

/-- One step of a producer that waits for the node. It notices first that the reader has
gone, then the node, and then the deadline. -/
def stepPending (f : Fetch ν) (st : Stream ν) (s : Backend ν) :
    Option (Stream ν × Backend ν) :=
  if st.range.closed then { st with pending := none }.move st.range.cancel s
  else if f.ready ≤ s.now then st.stepFetch f s
  else if st.deadline ≤ s.now then { st with pending := none }.move st.range.cut s
  else none

def stepReady (p : NodeAccess ν) (st : Stream ν) (s : Backend ν) :
    Option (Stream ν × Backend ν) :=
  match st.range.producer with
  | .next => st.move st.range.proceed s
  | .reading _ (.done _) => st.move st.range.offer s
  | .reading height .asking =>
      let (f, s) := s.beginFetch p height
      some ({ st with pending := some f }, s)
  | .reading height phase =>
      st.move (st.range.look s.cache) (served "cache" (phase.look height s.cache) s)
  | .sending _ _ =>
      if st.range.closed then st.move st.range.cancel s
      else if st.range.hasRoom then st.move st.range.send s
      else if st.deadline ≤ s.now then st.move st.range.expire s
      else none
  | .ended _ => none

def step? (p : NodeAccess ν) (st : Stream ν) (s : Backend ν) : Option (Stream ν × Backend ν) :=
  match st.pending with
  | some f => st.stepPending f s
  | none => st.stepReady p s

def steps (p : NodeAccess ν) : Nat → Stream ν → Backend ν → Stream ν × Backend ν
  | 0, st, s => (st, s)
  | fuel + 1, st, s =>
      match st.step? p s with
      | none => (st, s)
      | some (st, s) => steps p fuel st s

/-- A bound on the steps of a producer: each height takes at most eight. -/
def fuel (st : Stream ν) : Nat := 8 * (st.range.span + 2)

def run (p : NodeAccess ν) (st : Stream ν) (s : Backend ν) : Stream ν × Backend ν :=
  st.steps p st.fuel s

/-- When a producer that waits can go on, if time alone lets it. -/
def wakeTime? (st : Stream ν) : Option Nat :=
  match st.pending with
  | some f => some (min f.ready st.deadline)
  | none =>
      match st.range.producer with
      | .sending _ _ => some st.deadline
      | _ => none

/-- The number of items that the producer sends in a turn, and that the reader takes. -/
def turnSize : Nat := 128

def isSending (st : Stream ν) : Bool :=
  match st.range.producer with
  | .sending _ _ => true
  | _ => false

/-- At most `fuel` steps of the producer, in which it sends at most `budget` items. With
the budget used up it does not even see whether there is room for another one. -/
def turnSteps (p : NodeAccess ν) : Nat → Nat → Stream ν → Backend ν → Stream ν × Backend ν
  | 0, _, st, s => (st, s)
  | fuel + 1, budget, st, s =>
      if st.isSending && budget = 0 then (st, s)
      else
        match st.step? p s with
        | none => (st, s)
        | some (next, s) =>
            turnSteps p fuel (if st.isSending then budget - 1 else budget) next s

def turn (p : NodeAccess ν) (st : Stream ν) (s : Backend ν) : Stream ν × Backend ν :=
  st.turnSteps p st.fuel turnSize s

/-- Neither the reader nor the producer can do anything before time has passed. -/
def isIdle (p : NodeAccess ν) (st : Stream ν) (s : Backend ν) : Bool :=
  st.range.buffer.isEmpty && (st.step? p s).isNone

/-- At most `fuel` turns of the reader and of the producer, in which the reader takes up to
`n` items, `budget` of them in its first turn. Time passes when both have to wait. -/
def readTurns (p : NodeAccess ν) : Nat → Nat → Nat → Stream ν → Backend ν → Stream ν × Backend ν
  | 0, _, _, st, s => (st, s)
  | fuel + 1, budget, n, st, s =>
      let k := min (min budget n) st.range.buffer.length
      let st := st.withRange (Nat.repeat Range.take k st.range)
      if k = n then (st, s)
      else
        let (st, s) := st.turn p s
        if st.isIdle p s then
          match st.wakeTime? with
          | some t => readTurns p fuel turnSize (n - k) st (s.waitUntil t)
          | none => (st, s)
        else readTurns p fuel turnSize (n - k) st s

/-- A bound on the turns of a reader and on the waits of a producer. -/
def turns (st : Stream ν) : Nat := 16 * (st.range.span + 3)

def read (p : NodeAccess ν) (n : Nat) (st : Stream ν) (s : Backend ν) : Stream ν × Backend ν :=
  st.readTurns p st.turns turnSize n s

/-- The reader takes items to the end of the stream, `budget` of them in its first turn. -/
def drainFrom (p : NodeAccess ν) (budget : Nat) (st : Stream ν) (s : Backend ν) :
    Stream ν × Backend ν :=
  st.readTurns p st.turns budget (st.range.span + 3) s

def drain (p : NodeAccess ν) (st : Stream ν) (s : Backend ν) : Stream ν × Backend ν :=
  st.drainFrom p turnSize s

/-- The reader sleeps until a moment, while the producer goes on over at most `n` waits.
What the producer can do at that moment it does after the reader. -/
def sleepFor (p : NodeAccess ν) (moment : Nat) : Nat → Stream ν → Backend ν → Stream ν × Backend ν
  | 0, st, s => (st, s.waitUntil moment)
  | n + 1, st, s =>
      let (st, s) := st.run p s
      match st.wakeTime? with
      | some t =>
          if t < moment then sleepFor p moment n st (s.waitUntil t)
          else (st, s.waitUntil moment)
      | none => (st, s.waitUntil moment)

/-- The reader sleeps until a moment and takes items to the end of the stream. Waking up
is part of its first turn. -/
def sleepAndDrain (p : NodeAccess ν) (moment : Nat) (st : Stream ν) (s : Backend ν) :
    Stream ν × Backend ν :=
  let (st, s) := if s.now < moment then st.sleepFor p moment st.turns s else (st, s)
  st.drainFrom p (turnSize - 1) s

end Stream

def readRange (p : NodeAccess ν) (capacity start stop deadline : Nat) (s : Backend ν) :
    List Item × Backend ν :=
  let (st, s) := (openStream capacity start stop deadline).drain p s
  (st.range.taken, s)

end LightServer.Backend
