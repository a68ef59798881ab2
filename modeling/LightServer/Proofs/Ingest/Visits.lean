import LightServer.Ingest.Loop
import LightServer.Proofs.Ingest.Turns

/-!
# Where turns begin

An ingestor does turns, in one round after another. `Visits` are the states and
the worlds at which one of its turns begins, whatever its surroundings do and
whatever happens while it rests between two rounds. A property of all of them is
proved once for the start, for a turn and for a rest; `Turned` lists what a turn
can lead to.
-/

namespace LightServer.Ingest

variable {ω : Type} {c : Config} {env : Environment ω} {rests : ω → ω → Prop}
  {s s' s₀ : State} {w w' w₀ : ω} {result : Except Error Outcome}

def Turn.state : Turn → State
  | goOn s => s
  | finished _ s => s

inductive Turned (c : Config) (env : Environment ω) (s : State) (w : ω) : Turn × ω → Prop where
  | stopped : Turned c env s w (.finished (.ok .stopped) s, w)
  | tooDeep (hdeep : c.maxReorgRounds < s.reorgCount) :
      Turned c env s w (.finished
        (.error (.reorgTooDeep s.reorgCount (s.rewind c.rewindStep).height))
        (s.rewind c.rewindStep), w)
  | caughtUp {w₁ : ω} (hfetch : env.fetch (s.rewind c.rewindStep).height w = (.ok none, w₁)) :
      Turned c env s w (.finished (.ok .caughtUp) (s.rewind c.rewindStep), w₁)
  | failed {w₁ : ω} {e : Node.SourceError}
      (hfetch : env.fetch (s.rewind c.rewindStep).height w = (.error e, w₁)) :
      Turned c env s w (afterFailure c (s.rewind c.rewindStep), env.count .fetchFailed w₁)
  | offered {w₁ w₂ : ω} {b : CompactBlock} {outcome : Except CacheError AddOutcome}
      (hfetch : env.fetch (s.rewind c.rewindStep).height w = (.ok (some b), w₁))
      (hadd : env.add (s.rewind c.rewindStep).height b w₁ = (outcome, w₂)) :
      Turned c env s w ((afterAdd c (s.rewind c.rewindStep) outcome).1,
        env.countSome (afterAdd c (s.rewind c.rewindStep) outcome).2 w₂)

theorem State.reorgCount_rewind (step : Nat) (s : State) :
    (s.rewind step).reorgCount = s.reorgCount := by
  unfold rewind
  split <;> rfl

theorem State.failureCount_rewind (step : Nat) (s : State) :
    (s.rewind step).failureCount = s.failureCount := by
  unfold rewind
  split <;> rfl

theorem State.height_rewind (step : Nat) (s : State) :
    (s.rewind step).height = if s.rewindPending then s.height - step else s.height := by
  unfold rewind
  split <;> rfl

theorem State.height_rewind_le (step : Nat) (s : State) : (s.rewind step).height ≤ s.height := by
  rw [height_rewind]
  split
  · exact Nat.sub_le _ _
  · exact Nat.le_refl _

theorem State.rewindPending_rewind (step : Nat) (s : State) :
    (s.rewind step).rewindPending = false := by
  unfold rewind
  split
  next => rfl
  next hpending => exact Bool.not_eq_true _ ▸ hpending

theorem State.rewind_rewind (step : Nat) (s : State) :
    (s.rewind step).rewind step = s.rewind step :=
  rewind_of_not_pending (rewindPending_rewind step s) step

/-- The failures that are counted have no part in which height is asked for. -/
theorem State.height_rewind_failureCount (step n : Nat) (s : State) :
    (({ s with failureCount := n } : State).rewind step).height = (s.rewind step).height := by
  unfold rewind
  split <;> rfl

/-- A failure changes nothing in the state but the count of failures. -/
theorem exists_state_afterFailure (c : Config) (s : State) :
    ∃ n, (afterFailure c s).state = { s with failureCount := n } := by
  unfold afterFailure
  split <;> exact ⟨_, rfl⟩

theorem turned_turn (c : Config) (env : Environment ω) (s : State) (w : ω) :
    Turned c env s w (turn c env s w) := by
  unfold turn
  split
  next => exact Turned.stopped
  next =>
    simp only
    split
    next =>
      unfold fetchAndAdd
      split
      next hfetch => exact Turned.caughtUp hfetch
      next hfetch => exact Turned.failed hfetch
      next hfetch => exact Turned.offered hfetch rfl
    next hdeep =>
      rw [State.ReorgBounded, State.reorgCount_rewind, Nat.not_le] at hdeep
      rw [State.reorgCount_rewind]
      exact Turned.tooDeep hdeep

theorem turned_of_turn {t : Turn} (h : turn c env s w = (t, w')) : Turned c env s w (t, w') := by
  rw [← h]
  exact turned_turn c env s w

theorem afterFailure_ne_error {e : Error} :
    afterFailure c s ≠ .finished (.error e) s' := by
  unfold afterFailure
  split
  · rintro ⟨⟩
  · rintro ⟨⟩

/-- A turn ends in an error only when there were too many reorgs in a row. -/
theorem lt_reorgCount_of_turn {e : Error} (h : turn c env s w = (.finished (.error e) s', w')) :
    c.maxReorgRounds < s.reorgCount := by
  have hcase := turned_turn c env s w
  generalize hresult : turn c env s w = result at hcase
  rw [h] at hresult
  cases hcase with
  | tooDeep hdeep => exact hdeep
  | stopped | caughtUp => cases hresult
  | failed => exact absurd (congrArg Prod.fst hresult).symm afterFailure_ne_error
  | @offered _ _ _ outcome =>
      have hturn := (congrArg Prod.fst hresult).symm
      unfold afterAdd at hturn
      split at hturn
      · cases hturn
      · cases hturn
      · cases hturn
      · exact absurd hturn afterFailure_ne_error

/-- Turns of an ingestor that was started begin here. A round that is over may be followed by
another one, after a rest. -/
inductive Visits (c : Config) (env : Environment ω) (rests : ω → ω → Prop) (s₀ : State) (w₀ : ω) :
    State → ω → Prop where
  | start : Visits c env rests s₀ w₀ s₀ w₀
  | goOn {s s' : State} {w w' : ω} (hvisit : Visits c env rests s₀ w₀ s w)
      (hturn : turn c env s w = (.goOn s', w')) : Visits c env rests s₀ w₀ s' w'
  | round {s s' : State} {w w' w'' : ω} {result : Except Error Outcome}
      (hvisit : Visits c env rests s₀ w₀ s w)
      (hturn : turn c env s w = (.finished result s', w')) (hrests : rests w' w'') :
      Visits c env rests s₀ w₀ s' w''

/-- A round goes on from where a turn of it led. -/
theorem Visits.of_goOn (hturn : turn c env s w = (.goOn s₀, w₀))
    (hvisit : Visits c env rests s₀ w₀ s' w') : Visits c env rests s w s' w' := by
  induction hvisit with
  | start => exact Visits.start.goOn hturn
  | goOn _ hturn' ih => exact ih.goOn hturn'
  | round _ hturn' hrests ih => exact ih.round hturn' hrests

/-- What a round ends with comes from its last turn. -/
theorem Visits.exists_of_pollRound {fuel : Nat} (hvisit : Visits c env rests s₀ w₀ s w)
    (hround : pollRound c env fuel s w = some (result, s', w')) :
    ∃ s₁ w₁, Visits c env rests s₀ w₀ s₁ w₁ ∧ turn c env s₁ w₁ = (.finished result s', w') := by
  induction fuel generalizing s w with
  | zero => cases hround
  | succ fuel ih =>
      unfold pollRound at hround
      split at hround
      next hturn =>
        cases hround
        exact ⟨s, w, hvisit, hturn⟩
      next hturn => exact ih (hvisit.goOn hturn) hround

/-- An error that the ingestor ends with comes from a turn of one of its rounds. -/
theorem Visits.exists_of_run {wait : ω → Bool × ω} {fuel rounds : Nat} {e : Error}
    (hwait : ∀ w, rests w (wait w).2) (hvisit : Visits c env rests s₀ w₀ s w)
    (hrun : run c env wait fuel rounds s w = some (.error e, w')) :
    ∃ s₁ w₁ s', Visits c env rests s₀ w₀ s₁ w₁ ∧
      turn c env s₁ w₁ = (.finished (.error e) s', w') := by
  induction rounds generalizing s w with
  | zero => cases hrun
  | succ rounds ih =>
      unfold run at hrun
      split at hrun
      next => cases hrun
      next hround =>
        cases hrun
        obtain ⟨s₁, w₁, hvisit₁, hturn⟩ := hvisit.exists_of_pollRound hround
        exact ⟨s₁, w₁, _, hvisit₁, hturn⟩
      next => cases hrun
      next hround =>
        obtain ⟨s₁, w₁, hvisit₁, hturn⟩ := hvisit.exists_of_pollRound hround
        split at hrun
        next w₂ hgo =>
          have hrests : rests _ w₂ := congrArg Prod.snd hgo ▸ hwait _
          exact ih (hvisit₁.round hturn hrests) hrun
        next => cases hrun

end LightServer.Ingest
