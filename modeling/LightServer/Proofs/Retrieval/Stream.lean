import LightServer.Backend.Retrieval
import LightServer.Proofs.Retrieval.Course

/-!
# The streams of the backend

The backend runs a stream against its cache, its node and its clock. It does so
by moves: a step of the producer is one move or none, and a reader takes items.
So every stream that the backend has run is a course, and what holds of every
course holds of it.
-/

namespace LightServer.Backend.Stream

open LightServer.Retrieval

variable {ν : Type}

/-- Moves of the producer, of the clock, and of a reader that stays lead from one state of a
stream to the other. -/
def Reaches (r r' : Range) : Prop :=
  ∃ ms, Stays ms ∧ r' = ms.foldl (fun r m => r.after m) r

variable {r r' r'' : Range} {p : NodeAccess ν} {st st' : Stream ν} {s s' : Backend ν}

theorem Reaches.refl (r : Range) : Reaches r r := ⟨[], by simp [Stays], rfl⟩

theorem Reaches.trans (h : Reaches r r') (h' : Reaches r' r'') : Reaches r r'' := by
  obtain ⟨ms, hms, rfl⟩ := h
  obtain ⟨ms', hms', rfl⟩ := h'
  refine ⟨ms ++ ms', fun m hm => ?_, List.foldl_append.symm⟩
  rcases List.mem_append.mp hm with hmem | hmem
  · exact hms m hmem
  · exact hms' m hmem

theorem reaches_after {m : Move} (hclose : m ≠ .close) (hdrop : m ≠ .drop) (r : Range) :
    Reaches r (r.after m) :=
  ⟨[m], by simpa [Stays] using ⟨hclose, hdrop⟩, rfl⟩

theorem reaches_stepPending {f : Fetch ν} (h : st.stepPending f s = some (st', s')) :
    Reaches st.range st'.range := by
  unfold stepPending at h
  split at h
  · cases h
    exact reaches_after (m := .cancel) nofun nofun st.range
  · split at h
    · unfold stepFetch at h
      split at h
      · cases h
        exact Reaches.refl _
      next reply _ =>
        cases h
        exact reaches_after (m := .answer reply) nofun nofun st.range
    · split at h
      · cases h
        exact reaches_after (m := .cut) nofun nofun st.range
      · cases h

theorem reaches_stepReady (h : st.stepReady p s = some (st', s')) :
    Reaches st.range st'.range := by
  unfold stepReady at h
  split at h
  · cases h
    exact reaches_after (m := .proceed) nofun nofun st.range
  · cases h
    exact reaches_after (m := .offer) nofun nofun st.range
  · cases h
    exact Reaches.refl _
  · cases h
    exact reaches_after (m := .look s.cache) nofun nofun st.range
  · split at h
    · cases h
      exact reaches_after (m := .cancel) nofun nofun st.range
    next hopen =>
      split at h
      · cases h
        exact reaches_after (m := .send) nofun nofun st.range
      · split at h
        · cases h
          have hafter := reaches_after (m := .expire) nofun nofun st.range
          rwa [Range.after, if_neg hopen] at hafter
        · cases h
  · cases h

/-- A step of the producer is one move or none. -/
theorem reaches_step? (h : st.step? p s = some (st', s')) : Reaches st.range st'.range := by
  unfold step? at h
  split at h
  · exact reaches_stepPending h
  · exact reaches_stepReady h

theorem reaches_steps (fuel : Nat) (st : Stream ν) (s : Backend ν) :
    Reaches st.range (st.steps p fuel s).1.range := by
  induction fuel generalizing st s with
  | zero => exact Reaches.refl _
  | succ fuel ih =>
      unfold steps
      split
      · exact Reaches.refl _
      next st' s' hstep => exact (reaches_step? hstep).trans (ih st' s')

theorem reaches_turnSteps (fuel budget : Nat) (st : Stream ν) (s : Backend ν) :
    Reaches st.range (st.turnSteps p fuel budget s).1.range := by
  induction fuel generalizing budget st s with
  | zero => exact Reaches.refl _
  | succ fuel ih =>
      unfold turnSteps
      split
      · exact Reaches.refl _
      · split
        · exact Reaches.refl _
        next st' s' hstep => exact (reaches_step? hstep).trans (ih _ st' s')

theorem reaches_turn (p : NodeAccess ν) (st : Stream ν) (s : Backend ν) :
    Reaches st.range (st.turn p s).1.range :=
  reaches_turnSteps st.fuel turnSize st s

theorem reaches_repeat_take (n : Nat) (r : Range) : Reaches r (Nat.repeat Range.take n r) := by
  induction n with
  | zero => exact Reaches.refl r
  | succ n ih => exact ih.trans (reaches_after (m := .take) nofun nofun _)

/-- Taking turns, the reader and the producer make moves. -/
theorem reaches_readTurns (fuel budget n : Nat) (st : Stream ν) (s : Backend ν) :
    Reaches st.range (st.readTurns p fuel budget n s).1.range := by
  induction fuel generalizing budget n st s with
  | zero => exact Reaches.refl _
  | succ fuel ih =>
      have htake := reaches_repeat_take (min (min budget n) st.range.buffer.length) st.range
      unfold readTurns
      simp only
      split
      · exact htake
      · refine htake.trans ((reaches_turn p (st.withRange _) s).trans ?_)
        split
        · split
          · exact ih _ _ _ _
          · exact Reaches.refl _
        · exact ih _ _ _ _

theorem reaches_sleepFor (moment n : Nat) (st : Stream ν) (s : Backend ν) :
    Reaches st.range (st.sleepFor p moment n s).1.range := by
  induction n generalizing st s with
  | zero => exact Reaches.refl _
  | succ n ih =>
      unfold sleepFor
      simp only
      refine (reaches_steps (p := p) st.fuel st s).trans ?_
      split
      · split
        · exact ih _ _
        · exact Reaches.refl _
      · exact Reaches.refl _

theorem reaches_drainFrom (p : NodeAccess ν) (budget : Nat) (st : Stream ν) (s : Backend ν) :
    Reaches st.range (st.drainFrom p budget s).1.range :=
  reaches_readTurns st.turns budget (st.range.span + 3) st s

theorem reaches_sleepAndDrain (moment : Nat) (st : Stream ν) (s : Backend ν) :
    Reaches st.range (st.sleepAndDrain p moment s).1.range := by
  unfold sleepAndDrain
  by_cases hsleep : s.now < moment
  · have hwoken := reaches_sleepFor (p := p) moment st.turns st s
    rw [if_pos hsleep]
    generalize st.sleepFor p moment st.turns s = woken at hwoken ⊢
    exact hwoken.trans (reaches_drainFrom p (turnSize - 1) woken.1 woken.2)
  · rw [if_neg hsleep]
    exact reaches_drainFrom p (turnSize - 1) st s

theorem range_run (ms : List Move) (c : Course) :
    (c.run ms).range = ms.foldl (fun r m => r.after m) c.range := by
  induction ms generalizing c with
  | nil => rfl
  | cons m ms ih => exact ih (c.step m)

/-- A stream that was reached from its beginning is a course. -/
theorem Reaches.exists_course {capacity start stop : Nat}
    (h : Reaches (Range.begin capacity start stop) r) :
    ∃ ms, Stays ms ∧ ((Course.begin capacity start stop).run ms).range = r := by
  obtain ⟨ms, hms, rfl⟩ := h
  exact ⟨ms, hms, range_run ms _⟩

/-- A range that is read as soon as its items are there is a course. -/
theorem exists_course_of_drain (p : NodeAccess ν) (capacity start stop deadline : Nat)
    (s : Backend ν) :
    ∃ ms, Stays ms ∧ ((Course.begin capacity start stop).run ms).range =
      ((openStream capacity start stop deadline).drain p s).1.range :=
  (reaches_drainFrom p turnSize (openStream capacity start stop deadline) s).exists_course

/-- A range whose reader sleeps before it reads is a course. -/
theorem exists_course_of_sleepAndDrain (p : NodeAccess ν)
    (capacity start stop deadline moment : Nat) (s : Backend ν) :
    ∃ ms, Stays ms ∧ ((Course.begin capacity start stop).run ms).range =
      ((openStream capacity start stop deadline).sleepAndDrain p moment s).1.range :=
  (reaches_sleepAndDrain moment (openStream capacity start stop deadline) s).exists_course

end LightServer.Backend.Stream
