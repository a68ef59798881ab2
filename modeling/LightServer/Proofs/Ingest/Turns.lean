import LightServer.Ingest.Round

/-!
# Turns of a round

A round is followed turn by turn. `s.Asks step x k f` says that the turn which
begins in the state `s` asks for the height `x`, a rewind that is due being
done first. `Leads` strings together turns after which the round goes on, and
`Ends` says how it ends, with whatever fuel it takes. A round from which every
stretch of turns leads back into an invariant has no end.
-/

namespace LightServer.Ingest

variable {ω : Type} {c : Config} {env : Environment ω} {s s' s'' : State} {w w' w'' : ω}

/-- After a rewind that is due, the state asks for the height `x`, with `k` reorgs and `f`
failures counted. -/
def State.Asks (step x k f : Nat) (s : State) : Prop := s.rewind step = ⟨x, k, f, false⟩

theorem State.asks_of_not_pending (step : Nat) (hpending : s.rewindPending = false) :
    s.Asks step s.height s.reorgCount s.failureCount := by
  unfold Asks
  rw [rewind_of_not_pending hpending, ← hpending]

theorem State.asks_start (step height : Nat) : (State.start height).Asks step height 0 0 := rfl

theorem State.asks_stored (step x k f : Nat) :
    (State.stored ⟨x, k, f, false⟩).Asks step (x + 1) 0 (f - 1) := rfl

theorem State.asks_reorg (step x k f : Nat) :
    (State.reorg ⟨x, k, f, false⟩).Asks step (x - step) (k + 1) f := rfl

theorem State.asks_failure (step x k f : Nat) :
    (State.failure ⟨x, k, f, false⟩).Asks step x k (f + 1) := rfl

/-- `n` turns lead from one state and world to another, and the round goes on there. -/
def Leads (c : Config) (env : Environment ω) (n : Nat) (s : State) (w : ω) (s' : State) (w' : ω) :
    Prop :=
  ∀ fuel, pollRound c env (n + fuel) s w = pollRound c env fuel s' w'

def Ends (c : Config) (env : Environment ω) (s : State) (w : ω)
    (r : Except Error Outcome × State × ω) : Prop :=
  ∃ fuel, pollRound c env fuel s w = some r

theorem Leads.refl (s : State) (w : ω) : Leads c env 0 s w s w := by
  intro fuel
  rw [Nat.zero_add]

theorem Leads.trans {m n : Nat} (h : Leads c env m s w s' w') (h' : Leads c env n s' w' s'' w'') :
    Leads c env (m + n) s w s'' w'' := by
  intro fuel
  rw [Nat.add_assoc, h, h']

theorem leads_of_turn (h : turn c env s w = (.goOn s', w')) : Leads c env 1 s w s' w' := by
  intro fuel
  rw [Nat.add_comm, pollRound, h]

theorem ends_of_turn {result : Except Error Outcome}
    (h : turn c env s w = (.finished result s', w')) : Ends c env s w (result, s', w') := by
  refine ⟨1, ?_⟩
  rw [pollRound, h]

theorem Leads.ends {n : Nat} {r : Except Error Outcome × State × ω}
    (h : Leads c env n s w s' w') (hr : Ends c env s' w' r) : Ends c env s w r := by
  obtain ⟨fuel, hfuel⟩ := hr
  exact ⟨n + fuel, (h fuel).trans hfuel⟩

/-- A round ends in one way at most. -/
theorem Ends.unique {r r' : Except Error Outcome × State × ω} (h : Ends c env s w r)
    (h' : Ends c env s w r') : r = r' := by
  obtain ⟨m, hm⟩ := h
  obtain ⟨n, hn⟩ := h'
  have hm' := pollRound_mono hm (Nat.le_max_left m n)
  have hn' := pollRound_mono hn (Nat.le_max_right m n)
  rw [hm'] at hn'
  exact Option.some.inj hn'

/-- A round has no end when from every state of an invariant at least one turn leads to a
state of the invariant. -/
theorem pollRound_eq_none_of_progress {I : State → ω → Prop}
    (hprogress : ∀ s w, I s w → ∃ n s' w', 0 < n ∧ Leads c env n s w s' w' ∧ I s' w')
    (fuel : Nat) (hI : I s w) : pollRound c env fuel s w = none := by
  induction fuel using Nat.strongRecOn generalizing s w with
  | ind fuel ih =>
      obtain ⟨n, s', w', hpos, hleads, hI'⟩ := hprogress s w hI
      by_cases hle : n ≤ fuel
      · rw [show fuel = n + (fuel - n) by omega, hleads]
        exact ih (fuel - n) (by omega) hI'
      · -- with less fuel than the stretch takes there cannot be a result either
        cases hres : pollRound c env fuel s w with
        | none => rfl
        | some r =>
            have hmore := pollRound_mono hres (Nat.le_of_lt (Nat.not_le.mp hle))
            have hnone : pollRound c env n s w = none := hleads 0
            rw [hmore] at hnone
            cases hnone

/-- An ingestor that is not told to stop rewinds, checks the reorgs in a row, and fetches. -/
theorem turn_eq_of_asks {x k f : Nat} (hrun : env.stopped w = false)
    (hs : s.Asks c.rewindStep x k f) :
    turn c env s w =
      if k ≤ c.maxReorgRounds then fetchAndAdd c env ⟨x, k, f, false⟩ w
      else (.finished (.error (.reorgTooDeep k x)) ⟨x, k, f, false⟩, w) := by
  unfold State.Asks at hs
  simp only [turn, hrun, hs, State.ReorgBounded, Bool.false_eq_true, if_false]

end LightServer.Ingest
