import LightServer.Proofs.Retrieval.SingleReads

/-!
# A range of one height

A range of one height gives one item, whatever happens. It is the item of a single read,
if that is through when the deadline comes, and else the error that the deadline has
passed. An answer that comes just at the deadline is in time.
-/

namespace LightServer.Backend

open LightServer.Retrieval

def IsLate : Item → Prop
  | .error (.deadlineExceeded _) => True
  | _ => False

namespace Stream

variable {ν : Type} {p : NodeAccess ν} {c : Cache} {item : Item} {m : Moment ν} {deadline : Nat}
  {st st' : Stream ν} {s s' : Backend ν} {f : Fetch ν}

/-- In the end there will be one item: the given one at the given moment, or the error that the
deadline has passed, if that is before the moment. -/
structure Lone (p : NodeAccess ν) (c : Cache) (item : Item) (m : Moment ν) (deadline : Nat)
    (st : Stream ν) (s : Backend ν) : Prop where
  sound : st.Sound
  cache : s.cache = c
  deadline_eq : st.deadline = deadline
  now_le : s.now ≤ deadline
  coming : st.whole p c s.moment = ([item], m) ∨
    deadline < m.2 ∧ ∃ late, IsLate late ∧ (st.whole p c s.moment).1 = [late]

theorem Lone.length_eq (h : Lone p c item m deadline st s) :
    (st.whole p c s.moment).1.length = 1 := by
  rcases h.coming with hitem | ⟨-, late, -, hlate⟩
  · rw [hitem]
    rfl
  · rw [hlate]
    rfl

/-- There is at most one item for the reader. -/
theorem Lone.length_le (h : Lone p c item m deadline st s) :
    st.range.taken.length + st.range.buffer.length ≤ 1 := by
  have hlength := h.length_eq
  simp only [Stream.whole, List.length_append] at hlength
  omega

/-- While the producer reads or sends an item, there is nothing for the reader. -/
theorem Lone.nothing (h : Lone p c item m deadline st s)
    (hcoming : (st.forecast p c s.moment).1 ≠ []) :
    st.range.taken = [] ∧ st.range.buffer = [] := by
  have hlength := h.length_eq
  have hpos := List.length_pos_iff.mpr hcoming
  simp only [Stream.whole, List.length_append] at hlength
  exact ⟨List.length_eq_zero_iff.mp (by omega), List.length_eq_zero_iff.mp (by omega)⟩

theorem Lone.of_carries (h : Lone p c item m deadline st s)
    (hcarries : Carries p c st s.moment st' s'.moment) (hcache : s'.cache = s.cache)
    (hnow : s'.now = s.now) : Lone p c item m deadline st' s' where
  sound := hcarries.sound
  cache := hcache.trans h.cache
  deadline_eq := hcarries.deadline.trans h.deadline_eq
  now_le := by
    rw [hnow]
    exact h.now_le
  coming := by
    rw [hcarries.whole]
    exact h.coming

theorem andThen_ne_nil (item : Item) (next : Moment ν → List Item × Moment ν) (m : Moment ν) :
    (NodeAccess.andThen item next m).1 ≠ [] := by
  cases item with
  | ok b => exact List.cons_ne_nil _ _
  | error e => exact List.cons_ne_nil _ _

/-- A fetch is cut off only if its answer comes after the deadline. -/
theorem Lone.late_of_cuts (h : Lone p c item m deadline st s) (hpending : st.pending = some f)
    (hcuts : Cuts f st s st' s') : deadline < m.2 := by
  rcases h.coming with hitem | ⟨hlate, -⟩
  · have hready := ready_le_whole (p := p) (c := c) (m := s.moment) h.sound hpending
    rw [hitem] at hready
    have hcame : deadline ≤ s.now := h.deadline_eq ▸ hcuts.late
    exact Nat.lt_of_le_of_lt hcame (Nat.lt_of_lt_of_le hcuts.unready hready)
  · exact hlate

/-- A fetch that is cut off leaves the error that the deadline has passed. -/
theorem Lone.of_cuts (h : Lone p c item m deadline st s) (hpending : st.pending = some f)
    (hcuts : Cuts f st s st' s') : Lone p c item m deadline st' s' ∧ st'.left < st.left := by
  obtain ⟨height, hproducer⟩ := h.sound.asking _ hpending
  have hcut : st.range.cut =
      { st.range with producer := .sending height (.error (.deadlineExceeded height)) } := by
    simp only [Range.cut, hproducer]
  have hnothing : st.range.taken = [] ∧ st.range.buffer = [] := by
    refine h.nothing ?_
    simp only [forecast, hproducer, hpending]
    exact andThen_ne_nil _ _ _
  have hstep := hcuts.step
  rw [hcut] at hstep
  cases hstep
  refine ⟨?_, ?_⟩
  · exact {
      sound := .of_pending_eq_none h.sound.opened h.sound.capacity_pos rfl
      cache := (cache_countEnd _ s).trans h.cache
      deadline_eq := h.deadline_eq
      now_le := by
        rw [now_countEnd]
        exact h.now_le
      coming := by
        refine .inr ⟨h.late_of_cuts hpending hcuts, .error (.deadlineExceeded height), trivial, ?_⟩
        simp only [Stream.whole, forecast, withRange, hnothing.1, hnothing.2, NodeAccess.andThen]
        rfl }
  · have hpos : 3 < readLeft .asking (some f) := by
      cases f <;> simp only [readLeft] <;> decide
    simp only [left, withRange, hproducer, hpending]
    exact Nat.add_lt_add_left (Nat.add_lt_add_left hpos _) _

/-- A step of the producer leaves it at one item, and less is left to do. -/
theorem Lone.step (h : Lone p c item m deadline st s) (hstep : st.step? p s = some (st', s')) :
    Lone p c item m deadline st' s' ∧ st'.left < st.left := by
  rcases works_or_late_of_step? h.sound hstep with hworks | ⟨f, hpending, hcuts⟩ |
    ⟨hexpires, height, given, hsending⟩
  · have hcarries := hworks.carries
    rw [h.cache] at hcarries
    exact ⟨h.of_carries hcarries hworks.cache (now_step? hstep), hcarries.left⟩
  · exact h.of_cuts hpending hcuts
  · -- the buffer is empty while the one item is sent
    have hnothing := h.nothing (by
      simp only [forecast, hsending]
      exact andThen_ne_nil _ _ _)
    have hroom : st.range.hasRoom = true := by
      simpa [Range.hasRoom, hnothing.2] using h.sound.capacity_pos
    rw [hexpires.full] at hroom
    cases hroom

theorem Lone.take (h : Lone p c item m deadline st s) (hbuffer : st.range.buffer ≠ []) :
    Lone p c item m deadline (st.withRange st.range.take) s ∧
      (st.withRange st.range.take).left < st.left := by
  obtain ⟨first, rest, hbuffer⟩ := List.exists_cons_of_ne_nil hbuffer
  have hcarries := carries_take (p := p) (c := c) (m := s.moment) h.sound hbuffer
  exact ⟨h.of_carries hcarries rfl rfl, hcarries.left⟩

theorem Lone.repeat_take (h : Lone p c item m deadline st s) {k : Nat}
    (hk : k ≤ st.range.buffer.length) :
    Lone p c item m deadline (st.withRange (Nat.repeat Range.take k st.range)) s ∧
      (st.withRange (Nat.repeat Range.take k st.range)).left + k ≤ st.left := by
  induction k with
  | zero => exact ⟨h, Nat.le_refl _⟩
  | succ k ih =>
      obtain ⟨htaken, hleft⟩ := ih (Nat.le_of_succ_le hk)
      have hlength := (length_repeat_take k st.range).1
      have hbuffer : (Nat.repeat Range.take k st.range).buffer ≠ [] := by
        rw [← List.length_pos_iff]
        omega
      obtain ⟨hnext, hless⟩ := htaken.take hbuffer
      refine ⟨hnext, ?_⟩
      change (st.withRange (Nat.repeat Range.take k st.range).take).left < _ at hless
      change (st.withRange (Nat.repeat Range.take k st.range).take).left + (k + 1) ≤ _
      omega

/-- Nothing is different after a wait for a fetch, if that ends at the deadline. -/
theorem Lone.wait (h : Lone p c item m deadline st s) (hpending : st.pending = some f) :
    Lone p c item m deadline st (s.waitUntil (min f.ready deadline)) := by
  have hwhole : st.whole p c (s.waitUntil (min f.ready deadline)).moment =
      st.whole p c s.moment :=
    whole_of_le_ready h.sound hpending (Nat.min_le_left _ _)
  exact {
    sound := h.sound
    cache := h.cache
    deadline_eq := h.deadline_eq
    now_le := Nat.max_le.mpr ⟨h.now_le, Nat.min_le_right _ _⟩
    coming := by
      rw [hwhole]
      exact h.coming }

theorem Lone.turnSteps (h : Lone p c item m deadline st s) (fuel budget : Nat) :
    Lone p c item m deadline (st.turnSteps p fuel budget s).1 (st.turnSteps p fuel budget s).2 ∧
      (st.turnSteps p fuel budget s).1.left ≤ st.left := by
  induction fuel generalizing budget st s with
  | zero => exact ⟨h, Nat.le_refl _⟩
  | succ fuel ih =>
      unfold Stream.turnSteps
      split
      · exact ⟨h, Nat.le_refl _⟩
      · split
        · exact ⟨h, Nat.le_refl _⟩
        next hstep =>
          obtain ⟨hnext, hless⟩ := h.step hstep
          obtain ⟨hlast, hleft⟩ := ih hnext (if st.isSending then budget - 1 else budget)
          exact ⟨hlast, Nat.le_of_lt (Nat.lt_of_le_of_lt hleft hless)⟩

/-- A turn leaves the producer at one item too. If it does not have to wait, less is left. -/
theorem Lone.turn (h : Lone p c item m deadline st s) :
    Lone p c item m deadline (st.turn p s).1 (st.turn p s).2 ∧ (st.turn p s).1.left ≤ st.left ∧
      ((st.step? p s).isSome = true → (st.turn p s).1.left < st.left) := by
  obtain ⟨hlone, hleft⟩ := h.turnSteps st.fuel turnSize
  refine ⟨hlone, hleft, fun hsome => ?_⟩
  obtain ⟨⟨st', s'⟩, hstep⟩ := Option.isSome_iff_exists.mp hsome
  obtain ⟨fuel, budget, hturn⟩ := turn_of_step? hstep
  obtain ⟨hnext, hless⟩ := h.step hstep
  rw [hturn]
  exact Nat.lt_of_le_of_lt (hnext.turnSteps fuel budget).2 hless

/-- In a round the reader takes `j` of the items that wait for it, and then the producer has its
turn. If something can be done, less is left afterwards. -/
theorem Lone.round (h : Lone p c item m deadline st s) (hgoes : Goes p st s) {j : Nat}
    (hj : j ≤ st.range.buffer.length) (htakes : st.range.buffer ≠ [] → 0 < j) :
    Lone p c item m deadline ((st.withRange (Nat.repeat Range.take j st.range)).turn p s).1
        ((st.withRange (Nat.repeat Range.take j st.range)).turn p s).2 ∧
      ((st.withRange (Nat.repeat Range.take j st.range)).turn p s).1.left < st.left := by
  obtain ⟨htaken, hless⟩ := h.repeat_take hj
  obtain ⟨hturned, hleft, hworks⟩ := htaken.turn
  refine ⟨hturned, ?_⟩
  rcases Nat.eq_zero_or_pos j with rfl | hpos
  · -- nothing waits for the reader, so the step is the producer's
    exact hworks (hgoes.resolve_left fun hbuffer => Nat.lt_irrefl 0 (htakes hbuffer))
  · omega

/-- Either an item waits for the reader when a fetch or the deadline has been waited for, or the
producer goes on. -/
theorem Lone.goes_waitUntil (h : Lone p c item m deadline st s) (hpending : st.pending = some f) :
    Goes p st (s.waitUntil (min f.ready deadline)) := by
  by_cases hready : f.ready ≤ deadline
  · rw [Nat.min_eq_left hready]
    exact Or.inr (isSome_step?_of_ready h.sound hpending (le_now_waitUntil _ _))
  · right
    have hlate : st.deadline ≤ (s.waitUntil (min f.ready deadline)).now := by
      rw [h.deadline_eq, Nat.min_eq_right (by omega)]
      exact le_now_waitUntil _ _
    simp only [step?, hpending, stepPending, h.sound.opened, Bool.false_eq_true, if_false]
    split
    · cases f <;> rfl
    · rfl

/-- A reader that takes the one item gets to the end of the stream. -/
theorem Lone.readTurns (h : Lone p c item m deadline st s) (fuel budget k : Nat)
    (hgoes : Goes p st s) (hfuel : st.left < fuel) (hbudget : 0 < budget)
    (hk : 1 < st.range.taken.length + k) :
    Lone p c item m deadline (st.readTurns p fuel budget k s).1
        (st.readTurns p fuel budget k s).2 ∧
      (st.readTurns p fuel budget k s).1.range.isEnded = true ∧
      (st.readTurns p fuel budget k s).1.range.buffer = [] := by
  induction fuel generalizing st s budget k with
  | zero => omega
  | succ fuel ih =>
      have hlength := h.length_le
      unfold Stream.readTurns
      simp only
      generalize hj : min (min budget k) st.range.buffer.length = j
      -- the reader wants more than there is, so it goes on after what it takes
      rw [if_neg (by omega)]
      have htakes : st.range.buffer ≠ [] → 0 < j := by
        rw [← List.length_pos_iff]
        omega
      have hsome : j ≤ st.range.buffer.length := by omega
      have hmore := taken_length_turn (p := p) (s := s) hsome
      obtain ⟨hnext, hless⟩ := h.round hgoes hsome htakes
      generalize (st.withRange (Nat.repeat Range.take j st.range)).turn p s = next
        at hmore hnext hless
      have hk' : 1 < next.1.range.taken.length + (k - j) := by omega
      have hfuel' : next.1.left < fuel := by omega
      by_cases hidle : next.1.isIdle p next.2 = true
      · rw [if_pos hidle]
        rcases over_or_wakes_of_isIdle hnext.sound hidle with ⟨hwake, hover⟩ | ⟨f, hpending, hwake⟩
        · simp only [hwake]
          exact ⟨hnext, hover⟩
        · simp only [hwake]
          rw [hnext.deadline_eq]
          exact ih (hnext.wait hpending) _ _ (hnext.goes_waitUntil hpending) hfuel' (by decide) hk'
      · rw [if_neg hidle]
        exact ih hnext _ _ (goes_of_not_isIdle hidle) hfuel' (by decide) hk'

theorem heightsBetween_self (height : Nat) : heightsBetween height height = [height] := by
  simp [heightsBetween]

theorem lone_openStream (p : NodeAccess ν) {capacity : Nat} (hcapacity : 0 < capacity)
    (height : Nat) (hnow : s.now ≤ deadline) :
    Lone p s.cache (s.readBlock p height).1 (s.readBlock p height).2.moment deadline
      (openStream capacity height height deadline) s where
  sound := sound_openStream hcapacity height height deadline
  cache := rfl
  deadline_eq := rfl
  now_le := hnow
  coming := by
    left
    rw [whole_openStream_eq, heightsBetween_self, readEach]
    generalize s.readBlock p height = read
    obtain ⟨_ | b, s'⟩ := read <;> rfl

/-- A range of one height gives the item of a single read, if that is through when the deadline
comes, and else the error that the deadline has passed. -/
theorem readRange_lone (p : NodeAccess ν) {capacity : Nat} (hcapacity : 0 < capacity)
    (height : Nat) (hnow : s.now ≤ deadline) :
    ((s.readBlock p height).2.now ≤ deadline →
        (s.readRange p capacity height height deadline).1 = [(s.readBlock p height).1]) ∧
      (deadline < (s.readBlock p height).2.now →
        ∃ late, IsLate late ∧ (s.readRange p capacity height height deadline).1 = [late]) := by
  have hspan : (Range.begin capacity height height).span = 0 := by
    simp [Range.span, Range.begin]
  have hleft : (openStream capacity height height deadline : Stream ν).left = 10 := by
    rw [left_openStream, Range.heights_begin, heightsBetween_self]
    rfl
  obtain ⟨hlone, hended, hbuffer⟩ := (lone_openStream p hcapacity height hnow).readTurns
    (16 * ((Range.begin capacity height height).span + 3)) turnSize
    ((Range.begin capacity height height).span + 3) (Or.inr rfl) (by omega) (by decide) (by omega)
  have hcoming := hlone.coming
  rw [whole_of_isEnded hended hbuffer] at hcoming
  rcases hcoming with hitem | ⟨hlate, late, his, htaken⟩
  · obtain ⟨htaken, hmoment⟩ := Prod.mk.inj hitem
    have hearly : (s.readBlock p height).2.now ≤ deadline :=
      Nat.le_trans (Nat.le_of_eq (congrArg Prod.snd hmoment).symm) hlone.now_le
    exact ⟨fun _ => htaken, fun hlate => absurd hearly (Nat.not_le.mpr hlate)⟩
  · exact ⟨fun hearly => absurd hearly (Nat.not_le.mpr hlate), fun _ => ⟨late, his, htaken⟩⟩

end Stream

end LightServer.Backend
