import LightServer.Scenario.Session

/-!
# Readers of ranges

A reader of a range takes a number of blocks and then leaves, closes the stream, or
pauses. Before it leaves or closes, the producer works until it has to wait.
-/

namespace LightServer.Scenario

inductive ReaderEnd where
  | leave
  | close
  | pause (duration : Nat)
  deriving DecidableEq, Repr

namespace Stage

open LightServer.Backend

def leave (st : Stream Script) (s : Stage) : Stream Script × Stage :=
  let (st, s) := st.run Script.access s
  (st.withRange st.range.drop).run Script.access s

def close (st : Stream Script) (s : Stage) : Stream Script × Stage :=
  let (st, s) := st.run Script.access s
  let (st, s) := (st.withRange st.range.close).run Script.access s
  st.drain Script.access s

def finishReading (e : ReaderEnd) (st : Stream Script) (s : Stage) : Stream Script × Stage :=
  match e with
  | .leave => s.leave st
  | .close => s.close st
  | .pause duration => st.sleepAndDrain Script.access (s.now + duration) s

/-- The items of a range that a reader takes, all of them or some before it comes to an
end. -/
def readRange (c : Retrieval.Config) (start stop : Nat) (timeout : Option Nat)
    (manner : Option (Nat × ReaderEnd)) (s : Stage) : List Retrieval.Item × Stage :=
  let deadline := s.now + timeout.getD c.rangeDeadline.ceilMillis
  match manner with
  | none => Backend.readRange Script.access c.channelCapacity start stop deadline s
  | some (n, e) =>
      let st := Backend.openStream c.channelCapacity start stop deadline
      let (st, s) := st.read Script.access n s
      let (st, s) := finishReading e st s
      (st.range.taken, s)

end Stage

end LightServer.Scenario
