import LightServer.Ingest.Round

/-!
# The ingestor

The ingestor does one round after the other and waits in between. It ends when it is
told to stop, in a round or while it waits, or when there are too many reorgs.
-/

namespace LightServer.Ingest

/-- Does rounds, of which there are at most `rounds` with at most `fuel` turns each.
Waiting tells whether the ingestor is to go on. -/
def run {ω : Type} (c : Config) (env : Environment ω) (wait : ω → Bool × ω) (fuel : Nat) :
    Nat → State → ω → Option (Except Error Unit × ω)
  | 0, _, _ => none
  | rounds + 1, s, w =>
      match pollRound c env fuel s w with
      | none => none
      | some (.error e, _, w) => some (.error e, w)
      | some (.ok .stopped, _, w) => some (.ok (), w)
      | some (.ok _, s, w) =>
          match wait w with
          | (true, w) => run c env wait fuel rounds s w
          | (false, w) => some (.ok (), w)

end LightServer.Ingest
